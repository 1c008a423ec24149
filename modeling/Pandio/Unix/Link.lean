import Pandio.Unix.Ended

/- Two processes and a connection. The first writes on a stream, the network keeps what was
   written and not yet delivered, and the second reads it from a stream of its own; both run
   the loop with an application of their own and whatever else they have open.

   The network delivers in order, and delivers the FIN after everything else. It keeps what
   arrives before the second process has opened its stream.

   Correspondence (C ↔ Lean):
     the bytes of `write`, `shutdown` and `close` of the first ↔ `Link.wire`, `ended`
     the receive queue of the second, its FIN                  ↔ `Sock.rx`, `Sock.fin` -/
namespace Pandio
open World

/-- Two loops, and what is under way from a stream of the first to a stream of the second. -/
structure Link where
  near : Cfg
  /-- The second loop, with what has arrived for its stream. -/
  far : Inflow
  wire : List UInt8

inductive LinkAct where
  | near (x : Act)
  | far (x : Act)
  /-- The next bytes arrive. -/
  | arrive (n : Nat)
  /-- The FIN arrives. -/
  | fin

/-- The peer of the stream's connection acts. -/
def Act.feeds (t : Sid) (c : Cfg) : Act → Bool
  | .env (.arrive fd _) | .env (.peerFin fd) => owned t c.world.log = some fd
  | _ => false

/-- What a step hands to the kernel for the stream. -/
def written (s : Sid) (c c' : Cfg) : List UInt8 :=
  (sentBytes s c'.world.log).drop (sentBytes s c.world.log).length

/-- One step of either process, or of the network between stream `s` and stream `t`. -/
def Link.step (s t : Sid) (g : Link) : LinkAct → Option Link
  | .near x => (Pandio.step g.near x).map fun c =>
    { g with near := c, wire := g.wire ++ written s g.near c }
  | .far x =>
    if x.feeds t g.far.cfg then none
    else (Inflow.step t g.far x).map fun f => { g with far := f }
  | .arrive n =>
    match owned t g.far.cfg.world.log with
    | some fd => (Inflow.step t g.far (.env (.arrive fd (g.wire.take n)))).map fun f =>
      { g with far := f, wire := g.wire.drop n }
    | none => none
  | .fin =>
    match owned t g.far.cfg.world.log with
    | some fd =>
      if g.wire = [] ∧ ended s g.near.world.log = true then
        (Inflow.step t g.far (.env (.peerFin fd))).map fun f => { g with far := f }
      else none
    | none => none

def Link.Init (g : Link) : Prop := g.near.Init ∧ g.far.Init ∧ g.wire = []

/-- The stream is opened once, with a descriptor on which nothing has arrived. -/
def OpensEmpty (t : Sid) (c : Cfg) (x : Act) : Prop :=
  x.opens t = true → Untried t c.world.log ∧
    ∀ c' ∈ Pandio.step c x, c'.world.kernel.sock (c'.world.tcp t).fd = { rx := [], fin := false }

/-- What the two applications promise, and what is assumed of the second one's reads and hang-ups. -/
def LinkOk (s t : Sid) (g : Link) : LinkAct → Prop
  | .near x => SendsOnce s g.near x
  | .far x => DrainsHangUps t g.far.cfg x ∧ OpensEmpty t g.far.cfg x
  | .arrive _ | .fin => True

abbrev LinkRun (s t : Sid) : Link → Prop := Machine.Reach (Link.step s t) (LinkOk s t) Link.Init

instance (t : Sid) (c : Cfg) (x : Act) : Decidable (OpensEmpty t c x) :=
  inferInstanceAs (Decidable (_ → _ ∧ ∀ c' ∈ Pandio.step c x, _))

instance (s t : Sid) (g : Link) : (x : LinkAct) → Decidable (LinkOk s t g x)
  | .near _ => inferInstanceAs (Decidable (SendsOnce _ _ _))
  | .far _ => inferInstanceAs (Decidable (_ ∧ _))
  | .arrive _ | .fin => .isTrue trivial

/-! ## The sender -/

section
variable {s : Sid} {c c' : Cfg} {x : Act}

/-- What was sent stays sent. -/
theorem step_sent_prefix (hs : step c x = some c') :
    sentBytes s c'.world.log = sentBytes s c.world.log ++ written s c c' := by
  have hprefix : sentBytes s c.world.log <+: sentBytes s c'.world.log := by
    rw [← sent_view, ← sent_view]
    have grow : ∀ m, (c'.world.streamView s).log = (c.world.streamView s).log ++ m →
        sentBytes s (c.world.streamView s).log <+: sentBytes s (c'.world.streamView s).log := by
      intro m hm
      rw [hm, sentBytes, sentBytes, writeEvents_append, Fifo.sent_append]
      exact List.prefix_append ..
    rcases step_stream (s := s) hs with hv | ⟨a, f, rest, l, -, -, -, he⟩ |
      ⟨k, a, cb, rest, l, -, -, -, ha⟩
    · rw [hv]
    · obtain ⟨m, hm, -⟩ := he.poller
      exact grow m hm
    · obtain ⟨m, hm⟩ := ha.logs
      exact grow m hm
  obtain ⟨m, hm⟩ := hprefix
  rw [written, ← hm, List.drop_left]

end

/-! ## The receiver -/

section
variable {t : Sid} {g : Inflow} {c' : Cfg} {x : Act}

/-- What the receiver's stream knows of the network. -/
structure FarInv (t : Sid) (g : Inflow) (P : Prop) : Prop where
  none_yet : Untried t g.cfg.world.log → g.sent = []
  owner : (owned t g.cfg.world.log).isSome = true → ¬ Untried t g.cfg.world.log
  fin : ∀ fd ∈ owned t g.cfg.world.log, (g.cfg.world.kernel.sock fd).fin = true → P
  done : owned t g.cfg.world.log = none → (received t g.cfg.world.log).isSome = true → P

theorem received_view (w : World) : received t (w.streamView t).log = received t w.log :=
  received_filter w.log

/-- Nothing is received before the stream is opened. -/
theorem received_of_keeps {v v' : StreamView} (h : v.Keeps t v')
    (hsome : (received t v'.log).isSome = true) : (received t v.log).isSome = true := by
  obtain ⟨m, hm, hidle⟩ := h.log
  rw [hm, received_append] at hsome
  by_contra hnone
  have hnone : received t v.log = none := by simpa using hnone
  have hfold : m.foldl (receivedAfter t) none = none := by
    clear hsome hm
    induction m with
    | nil => rfl
    | cons o m ih =>
      have ho := hidle o List.mem_cons_self
      have hstep : receivedAfter t none o = none := by
        cases o with
        | ctl h fd k => cases h <;> cases k <;> simp_all [receivedAfter, isCustodyObs]
        | cb k n => cases k <;> simp [receivedAfter]
        | _ => simp_all [receivedAfter, isCustodyObs]
      rw [List.foldl_cons, hstep]
      exact ih fun o' ho' => hidle o' (List.mem_cons_of_mem o ho')
  rw [hnone, hfold] at hsome
  cases hsome

/-- Nobody but the peer ends the stream's connection. -/
theorem fin_kept (hf : FieldOwned t (g.cfg.world.streamView t)) (hok : DrainsHangUps t g.cfg x)
    (hs : Pandio.step g.cfg x = some c') (hx : x.feeds t g.cfg = false) {fd : Fd}
    (hfd : fd ∈ owned t g.cfg.world.log) :
    (c'.world.kernel.sock fd).fin = (g.cfg.world.kernel.sock fd).fin := by
  obtain ⟨-, -, hread, halone⟩ := hok.1
  rcases halone fd hfd c' hs with hpeer | hreads | hsame
  · cases x with
    | env e =>
      obtain ⟨w', he, rfl⟩ := Option.map_eq_some_iff.mp hs
      cases e with
      | arrive fd' bytes | peerFin fd' =>
        have hne : fd ≠ fd' := by
          rintro rfl
          simp only [Act.feeds, decide_eq_false_iff_not] at hx
          exact hx hfd
        simp only [env] at he
        split at he <;> cases he
        simp [World.setKernel, hne]
      | _ => cases hpeer
    | _ => cases hpeer
  · cases x with
    | lib a =>
      rcases step_cases hs with ⟨a', f, rest, r, hx', hst, hr, rfl⟩ | ⟨k, a', cb, rest, r, hx', -⟩ |
        ⟨p, cb, rest, hx', -⟩ | ⟨e, w', hx', -⟩
      · cases hx'
        by_cases htry : ∃ buf, f = .readTry t buf
        · obtain ⟨buf, rfl⟩ := htry
          obtain ⟨-, hgives⟩ := hread buf (by simp [Cfg.reads, hst])
          obtain ⟨bytes, -, hfin, -⟩ := readTry_inflow hr hgives
          have hfield : (g.cfg.world.tcp t).fd = fd := hf fd ((owned_view _).trans hfd)
          rw [hfield] at hfin
          exact hfin
        · rw [reads_none hst fun buf hb => htry ⟨buf, hb⟩] at hreads
          cases hreads
      all_goals cases hx'
    | _ => cases hreads
  · rw [hsame]

/-- What the network has delivered is only added to by the peer. -/
theorem sent_kept (hs : Pandio.step g.cfg x = some c') (hx : x.feeds t g.cfg = false)
    (hopens : x.opens t = true → g.sent = [] ∧
      c'.world.kernel.sock (c'.world.tcp t).fd = { rx := [], fin := false }) :
    (g.next t x c').sent = g.sent := by
  by_cases hadd : g.cfg.world.log.countP (isAddOf t) < c'.world.log.countP (isAddOf t)
  · have ho : x.opens t = true := by
      rcases step_custody (s := t) hs with hk | ⟨-, hv⟩ | ⟨⟨k, a, rfl, ho⟩, -⟩
      · rw [adds_of_keeps hk] at hadd
        exact absurd hadd (Nat.lt_irrefl _)
      · rw [(countP_of_close hv).2] at hadd
        exact absurd hadd (Nat.lt_irrefl _)
      · cases k <;> simp_all [Call.opens, Act.opens]
    obtain ⟨hnil, hsock⟩ := hopens ho
    simp only [Inflow.next, if_pos hadd, hsock, hnil]
  · simp only [Inflow.next, if_neg hadd]
    split
    · simp only [Act.feeds, decide_eq_false_iff_not] at hx
      exact if_neg hx
    · rfl

/-- The library closes the stream when its connection has ended. -/
theorem InflowInv.closesEnded (h : InflowInv t g) (hforce : NotForced t x)
    (hc : x.closes g.cfg t = true) {fd : Fd} (hfd : fd ∈ owned t g.cfg.world.log) :
    (g.cfg.world.kernel.sock fd).fin = true := by
  have hfd : fd ∈ owned t (g.cfg.world.streamView t).log := (owned_view _).trans hfd
  obtain ⟨f, rest, hst, hcl, hopen⟩ := hforce.closes hc
  exact ((h.hangs fd hfd hopen).fin (.lib f) (hst ▸ List.mem_cons_self) hcl).1

theorem untried_of_keeps {w w' : World} (hk : (w.streamView t).Keeps t (w'.streamView t))
    (hf : Untried t w'.log) : Untried t w.log := by
  obtain ⟨m, hm, -⟩ := hk.log
  rw [← untried_filter] at hf ⊢
  have hf : Untried t ((w.streamView t).log ++ m) := hm ▸ hf
  exact hf.of_append

/-- **A step of the receiver.** -/
theorem FarInv.step {P : Prop} (h : FarInv t g P) (hi : InflowInv t g)
    (hf : FieldOwned t (g.cfg.world.streamView t)) (hf' : FieldOwned t (c'.world.streamView t))
    (hok : DrainsHangUps t g.cfg x) (hopen : OpensEmpty t g.cfg x) (hx : x.feeds t g.cfg = false)
    (hs : Pandio.step g.cfg x = some c') :
    FarInv t (g.next t x c') P ∧ (g.next t x c').sent = g.sent := by
  have hsent : (g.next t x c').sent = g.sent :=
    sent_kept hs hx fun ho => ⟨h.none_yet (hopen ho).1, (hopen ho).2 c' hs⟩
  refine ⟨?_, hsent⟩
  rcases step_custody (s := t) hs with hk | ⟨hcl, hv⟩ | ⟨⟨k, a, rfl, ho⟩, hv⟩
  · have hown : owned t c'.world.log = owned t g.cfg.world.log := by
      rw [← owned_view, hk.owned, owned_view]
    refine ⟨fun hfresh => hsent.trans (h.none_yet (untried_of_keeps hk hfresh)), fun hsome hfresh => ?_,
      fun fd hfd hfin => ?_, fun hnone hsome => ?_⟩
    · exact h.owner (hown ▸ hsome) (untried_of_keeps hk hfresh)
    · rw [Inflow.next_cfg, hown] at hfd
      rw [Inflow.next_cfg, fin_kept hf hok hs hx hfd] at hfin
      exact h.fin fd hfd hfin
    · rw [Inflow.next_cfg, hown] at hnone
      refine h.done hnone ?_
      rw [← received_view] at hsome ⊢
      exact received_of_keeps hk hsome
  · -- the library closes it, having seen the FIN
    have hnone : owned t c'.world.log = none := by
      rw [← owned_view, hv, owned_close]
    have hused : ¬ Untried t c'.world.log := by
      rw [← untried_filter]
      intro hfresh
      have hfresh : Untried t (c'.world.streamView t).log := hfresh
      rw [hv] at hfresh
      have hclosed := hfresh (.closed t (g.cfg.world.tcp t).fd) (by simp [StreamView.close, streamView])
      simp [isCustodyObs] at hclosed
    refine ⟨fun hfresh => absurd hfresh hused, fun _ => hused, fun fd hfd => ?_, fun _ hsome => ?_⟩
    · rw [Inflow.next_cfg, hnone] at hfd
      cases hfd
    · cases hown : owned t g.cfg.world.log with
      | some fd => exact h.fin fd hown (hi.closesEnded hok.1.1 hcl hown)
      | none =>
        refine h.done hown ?_
        rw [← received_view] at hsome ⊢
        have hsame : received t ((g.cfg.world.streamView t).close t).log =
            received t (g.cfg.world.streamView t).log := received_logs rfl (by simp [isInflowObs])
        rw [← hsame, ← hv]
        exact hsome
  · -- it is opened
    obtain ⟨hfresh, hempty⟩ := hopen (by cases k <;> simp_all [Call.opens, Act.opens])
    have hempty := hempty c' hs
    generalize hw : c'.world.streamView t = v' at hv
    have hused : ¬ Untried t c'.world.log := by
      rw [← untried_filter]
      have hlog : c'.world.log.filter (isStreamObs t) = v'.log := by
        rw [← hw]
        rfl
      rw [hlog]
      intro hfresh'
      cases hv with
      | @failed r fd =>
        have hopened := hfresh' (.abandoned t fd) (by simp)
        simp [isCustodyObs] at hopened
      | @opened r fd =>
        have hopened := hfresh' (.opened t fd) (by simp)
        simp [isCustodyObs] at hopened
    refine ⟨fun hf => absurd hf hused, fun _ => hused, fun fd hfd hfin => ?_, fun hnone hsome => ?_⟩
    · rw [Inflow.next_cfg] at hfd hfin
      have hfield : (c'.world.tcp t).fd = fd := hf' fd ((owned_view _).trans hfd)
      rw [← hfield, hempty] at hfin
      cases hfin
    · rw [Inflow.next_cfg, ← owned_view, hw] at hnone
      rw [Inflow.next_cfg, ← received_view, hw] at hsome
      cases hv with
      | failed => simp [received_append, receivedAfter] at hsome
      | opened => simp [owned_append, ownAfter] at hnone

end

/-! ## The connection -/

/-- What is on its way. -/
structure LinkInv (s t : Sid) (g : Link) : Prop where
  near : Run (SendsOnce s) g.near
  far : InflowRun t (DrainsHangUps t) g.far
  account : g.far.sent ++ g.wire = sentBytes s g.near.world.log
  view : FarInv t g.far (g.wire = [] ∧ ended s g.near.world.log = true)

section
variable {s t : Sid} {g : Link} {c : Cfg} {x : Act}

theorem InflowRun.fieldOwned {f : Inflow} (r : InflowRun t (DrainsHangUps t) f) :
    FieldOwned t (f.cfg.world.streamView t) := fun _ hfd =>
  owned_fd (InflowRun.run r) ((owned_view _).symm.trans hfd)

theorem FarInv.mono {f : Inflow} {P Q : Prop} (h : FarInv t f P) (hpq : P → Q) : FarInv t f Q :=
  ⟨h.none_yet, h.owner, fun fd hfd hfin => hpq (h.fin fd hfd hfin), fun h1 h2 => hpq (h.done h1 h2)⟩

/-- The sender does something. -/
theorem LinkInv.nearStep (h : LinkInv s t g) (hok : SendsOnce s g.near x)
    (hs : Pandio.step g.near x = some c) :
    LinkInv s t { g with near := c, wire := g.wire ++ written s g.near c } := by
  have hgrow := step_sent_prefix (s := s) hs
  refine ⟨h.near.step hok hs, h.far, ?_, h.view.mono ?_⟩
  · calc g.far.sent ++ (g.wire ++ written s g.near c)
        = g.far.sent ++ g.wire ++ written s g.near c := (List.append_assoc ..).symm
      _ = sentBytes s g.near.world.log ++ written s g.near c := by rw [h.account]
      _ = sentBytes s c.world.log := hgrow.symm
  · rintro ⟨hwire, hend⟩
    obtain ⟨hrun, hinv⟩ := SendsOnce.run h.near
    have hsame := hinv.step_sent (Run.writeInv h.near).1 hend hs
    have hnil : written s g.near c = [] := by
      rw [written, hsame, List.drop_length]
    exact ⟨by rw [hwire, hnil]; rfl, ended_step hend hs⟩

/-- A step of the peer's keeps to what is assumed of the receiver. -/
theorem drainsHangUps_peer {c : Cfg} {e : Env} (he : (Act.env e).ofPeer = true) :
    DrainsHangUps t c (.env e) :=
  ⟨⟨trivial, trivial, trivial, fun _ _ _ _ => .inl he⟩, trivial⟩

/-- The peer's steps are not logged. -/
theorem peer_log {e : Env} {c' : Cfg} (hs : Pandio.step c (.env e) = some c') :
    c'.world.log = c.world.log := by
  obtain ⟨w', he, rfl⟩ := Option.map_eq_some_iff.mp hs
  cases e <;> simp only [env] at he <;> (try split at he) <;> cases he <;> rfl

/-- Bytes arrive. -/
theorem LinkInv.arrives {f : Inflow} {fd : Fd} {n : Nat} (h : LinkInv s t g)
    (hown : owned t g.far.cfg.world.log = some fd)
    (hs : Inflow.step t g.far (.env (.arrive fd (g.wire.take n))) = some f) :
    LinkInv s t { g with far := f, wire := g.wire.drop n } := by
  have hfar := h.far.step (drainsHangUps_peer rfl) hs
  obtain ⟨c', hc, rfl⟩ := Option.map_eq_some_iff.mp hs
  have hlog := peer_log hc
  have hsent : (g.far.next t (.env (.arrive fd (g.wire.take n))) c').sent =
      g.far.sent ++ g.wire.take n := by
    simp only [Inflow.next, hlog, Nat.lt_irrefl, if_false, if_pos hown]
  have hused := h.view.owner (by rw [hown]; rfl)
  refine ⟨h.near, hfar, ?_, ?_⟩
  · calc (g.far.next t (.env (.arrive fd (g.wire.take n))) c').sent ++ g.wire.drop n
        = g.far.sent ++ (g.wire.take n ++ g.wire.drop n) := by rw [hsent, List.append_assoc]
      _ = g.far.sent ++ g.wire := by rw [List.take_append_drop]
      _ = sentBytes s g.near.world.log := h.account
  · refine ⟨fun hfresh => absurd (hlog ▸ hfresh) hused, fun _ => hlog ▸ hused, ?_, fun hnone => ?_⟩
    · -- what has ended takes no more bytes
      intro fd' hfd hfin
      have hfd : owned t g.far.cfg.world.log = some fd' := hlog ▸ hfd
      obtain rfl : fd = fd' := by
        rw [hown] at hfd
        exact Option.some.inj hfd
      obtain ⟨w', he, rfl⟩ := Option.map_eq_some_iff.mp hc
      simp only [env] at he
      split at he <;> cases he
      rename_i hopen
      simp only [Bool.and_eq_true, Bool.not_eq_true'] at hopen
      simp [Inflow.next_cfg, World.setKernel, hopen.2] at hfin
    · rw [Inflow.next_cfg, hlog, hown] at hnone
      cases hnone

/-- The FIN arrives. -/
theorem LinkInv.ends {f : Inflow} {fd : Fd} (h : LinkInv s t g)
    (hown : owned t g.far.cfg.world.log = some fd)
    (hend : g.wire = [] ∧ ended s g.near.world.log = true)
    (hs : Inflow.step t g.far (.env (.peerFin fd)) = some f) : LinkInv s t { g with far := f } := by
  have hfar := h.far.step (drainsHangUps_peer rfl) hs
  obtain ⟨c', hc, rfl⟩ := Option.map_eq_some_iff.mp hs
  have hlog := peer_log hc
  have hsent : (g.far.next t (.env (.peerFin fd)) c').sent = g.far.sent := by
    simp only [Inflow.next, hlog, Nat.lt_irrefl, if_false]
  have hused := h.view.owner (by rw [hown]; rfl)
  refine ⟨h.near, hfar, ?_, fun hfresh => absurd (hlog ▸ hfresh) hused, fun _ => hlog ▸ hused,
    fun _ _ _ => hend, fun _ _ => hend⟩
  show _ ++ g.wire = _
  rw [hsent, h.account]

theorem LinkRun.inv (r : LinkRun s t g) : LinkInv s t g := by
  refine r.invariant (P := LinkInv s t) ?_ ?_
  · rintro g ⟨hnear, hfar, hwire⟩
    have hlogs : g.near.world.log = [] ∧ g.far.cfg.world.log = [] := by
      obtain ⟨k, fd, -, -, hc⟩ := hnear
      obtain ⟨k', fd', -, -, hc'⟩ := hfar.1
      rw [hc, hc']
      exact ⟨rfl, rfl⟩
    refine ⟨.init hnear, .init hfar, ?_, fun _ => hfar.2, fun hsome => ?_, fun fd hfd => ?_,
      fun _ hsome => ?_⟩
    · rw [hfar.2, hwire, hlogs.1]
      rfl
    · rw [hlogs.2] at hsome
      cases hsome
    · rw [hlogs.2] at hfd
      cases hfd
    · rw [hlogs.2] at hsome
      cases hsome
  · intro g x g' _ h hok hs
    cases x with
    | near x =>
      obtain ⟨c, hc, rfl⟩ := Option.map_eq_some_iff.mp hs
      exact h.nearStep hok hc
    | far x =>
      simp only [Link.step] at hs
      split at hs
      · cases hs
      · rename_i hx
        obtain ⟨f, hf, rfl⟩ := Option.map_eq_some_iff.mp hs
        have hfar := h.far.step hok.1 hf
        obtain ⟨c', hc, rfl⟩ := Option.map_eq_some_iff.mp hf
        have hfield : FieldOwned t (c'.world.streamView t) := InflowRun.fieldOwned hfar
        obtain ⟨hview, hsent⟩ := h.view.step (InflowRun.inflowInv h.far)
          (InflowRun.fieldOwned h.far) hfield hok.1 hok.2 (by simpa using hx) hc
        refine ⟨h.near, hfar, ?_, hview⟩
        show _ ++ g.wire = _
        rw [hsent, h.account]
    | arrive n =>
      simp only [Link.step] at hs
      split at hs
      · rename_i fd hown
        obtain ⟨f, hf, rfl⟩ := Option.map_eq_some_iff.mp hs
        exact h.arrives hown hf
      · cases hs
    | fin =>
      simp only [Link.step] at hs
      split at hs
      · rename_i fd hown
        split at hs
        · rename_i hend
          obtain ⟨f, hf, rfl⟩ := Option.map_eq_some_iff.mp hs
          exact h.ends hown hend hf
        · cases hs
      · cases hs

/-- **From one application to the other.** Whatever else the two processes do, what `on_data` of
the second has been given is a beginning of what the first has written; and when the library has
closed the second stream, at the end of its data, it is all of it: the buffers of all accepted
operations, one after another, if they were finished with success. -/
theorem link_delivers (r : LinkRun s t g) :
    (∀ got ∈ received t g.far.cfg.world.log, got <+: sentBytes s g.near.world.log) ∧
    (owned t g.far.cfg.world.log = none → ∀ got ∈ received t g.far.cfg.world.log,
      got = sentBytes s g.near.world.log ∧
      ((∀ op ∈ acceptedOps s g.near.world.log, Succeeded s op g.near.world.log) →
        got = (acceptedOps s g.near.world.log).flatMap (g.near.world.buffer s))) := by
  have h := LinkRun.inv r
  have hi := InflowRun.inflowInv h.far
  have haccount : ∀ got ∈ received t g.far.cfg.world.log,
      (∀ fd ∈ owned t g.far.cfg.world.log, got ++ (g.far.cfg.world.kernel.sock fd).rx = g.far.sent) ∧
        (owned t g.far.cfg.world.log = none → got = g.far.sent) := by
    intro got hgot
    have := hi.account got ((received_view _).trans hgot)
    rwa [owned_view] at this
  constructor
  · intro got hgot
    obtain ⟨hopen, hclosed⟩ := haccount got hgot
    have hsent : got <+: g.far.sent := by
      cases hown : owned t g.far.cfg.world.log with
      | none => rw [hclosed hown]
      | some fd => exact ⟨_, hopen fd hown⟩
    exact hsent.trans ⟨g.wire, h.account⟩
  · intro hnone got hgot
    obtain ⟨hwire, -⟩ := h.view.done hnone (Option.isSome_iff_exists.mpr ⟨got, hgot⟩)
    have hall : got = sentBytes s g.near.world.log := by
      rw [(haccount got hgot).2 hnone, ← h.account, hwire, List.append_nil]
    refine ⟨hall, fun hdone => ?_⟩
    rw [hall]
    exact sent_of_finished (h.near.mono fun _ _ hok => hok.1) hdone

end

/-- Two bytes are written, and then the stream is shut down; the receiver reads them in the event that
reports the end. -/
theorem link_delivers_two : ∃ g, LinkRun 0 0 g ∧
    received 0 g.far.cfg.world.log = some [1, 2] ∧
    [1, 2] = (acceptedOps 0 g.near.world.log).flatMap (g.near.world.buffer 0) := by
  have hplay : (Machine.play (Link.step 0 0) (LinkOk 0 0) ⟨Cfg.start [5], ⟨Cfg.start [6], []⟩, []⟩ [
      .near (.api (.tcpAccept 0 5) (.ok 0 [])), .far (.api (.tcpAccept 0 6) (.ok 0 [])),
      .far (.api (.setOnData 0 true) (.ok 0 [])),
      .near (.api (.tcpWrite 0 0 (pdWriteInit [1, 2] true (by decide))) (.ok 0 [])),
      .near (.lib (.ok 2 [])), .near (.ret none), .near (.api (.tcpShutdown 0) (.ok 0 [])),
      .arrive 2, .fin, .far (.api .ioRun (.ok 0 [])),
      .far (.lib (.ok 0 [(6, ⟨true, false, false, false, true⟩)])), .far (.lib (.ok 0 [])),
      .far (.ret (some 7)), .far (.lib (.ok 0 [])), .far (.lib (.ok 2 [])), .far (.ret none),
      .far (.lib (.ok 0 []))]).map (fun g =>
        (received 0 g.far.cfg.world.log, owned 0 g.far.cfg.world.log, acceptedOps 0 g.near.world.log,
          decide (.called 0 0 0 ∈ g.near.world.log))) = some (some [1, 2], none, [0], true) := rfl
  obtain ⟨g, hg, hfacts⟩ := Option.map_eq_some_iff.mp hplay
  simp only [Prod.mk.injEq, decide_eq_true_eq] at hfacts
  obtain ⟨hgot, hnone, hops, hcalled⟩ := hfacts
  have r : LinkRun 0 0 g :=
    Machine.Reach.play (.init ⟨Cfg.start_init [5], ⟨Cfg.start_init [6], rfl⟩, rfl⟩) hg
  obtain ⟨-, hall⟩ := (link_delivers r).2 hnone [1, 2] hgot
  refine ⟨g, r, hgot, hall fun op hop => ?_⟩
  obtain rfl : op = 0 := by simpa [hops] using hop
  exact .inl hcalled

end Pandio
