import Pandio.Lib.Past
import Pandio.Unix.OpenedStreams

/- What the library does for a listener after `pd_tcp_server_close` has returned 0.
   The function takes the descriptor out of the poller and closes it, and leaves the
   listener's status and descriptor number as they are: `pnd__tcp_listener_io` of an
   event that was fetched before goes on to `accept`, and a second
   `pd_tcp_server_close` does to the number whatever it stands for by then. -/
namespace Pandio
open World

/-! ## The listener in the log -/

/-- An `accept` for the listener, or its `on_connection`. -/
def usesListener (l : Lid) : Obs → Bool
  | .accept l' _ | .cb (.onConnection l' _) _ => l' = l
  | _ => false

/-- `pd_tcp_listen` or `pd_tcp_server_close` succeeds. -/
def turnsListener (l : Lid) : Obs → Bool
  | .ctl (.server l') _ .add | .serverClosed l' _ => l' = l
  | _ => false

/-- `pd_tcp_server_close` has returned 0, and `pd_tcp_listen` has not opened the listener again. -/
def listenerClosed (l : Lid) (log : List Obs) : Bool :=
  match (log.filter (turnsListener l)).getLast? with
  | some (.serverClosed _ _) => true
  | _ => false

/-- An entry that uses the listener does not come after its close. -/
def OpenListener (l : Lid) (past : List Obs) (o : Obs) : Prop :=
  usesListener l o = true → listenerClosed l past = false

/-! ## The condition -/

/-- An event of the listener that is waiting to be dispatched. -/
def Item.eventOf (l : Lid) : Item → Bool
  | .lib (.dispatch (.server l') _) => l' = l
  | _ => false

/-- The entry is of a `pd_tcp_listen` whose descriptor is not the listener's any more and is still
registered for it. -/
def leftOver (w : World) (l : Lid) : Obs → Bool
  | .ctl (.server l') fd .add =>
    l' = l && fd ≠ (w.server l).fd && (w.kernel.interest fd).any fun r => r.1 = .server l
  | _ => false

def Act.closesListener (l : Lid) : Act → Bool
  | .api (.tcpServerClose l') _ => l' = l
  | _ => false

/-- When `pd_tcp_server_close` finds its descriptor registered, no event of the listener is waiting
to be dispatched, and no other descriptor is registered for the listener. -/
def ClosesIdle (l : Lid) (c : Cfg) (x : Act) : Prop :=
  x.closesListener l = true → c.world.kernel.interest (c.world.server l).fd ≠ none →
    (∀ i ∈ c.stack, i.eventOf l = false) ∧ ∀ o ∈ c.world.log, leftOver c.world l o = false

instance (l : Lid) (c : Cfg) (x : Act) : Decidable (ClosesIdle l c x) :=
  inferInstanceAs (Decidable (_ → _ → _ ∧ _))

/-! ## The log -/

section
variable {l : Lid} {log m : List Obs}

theorem turnsListener_isOwnerObs {o : Obs} (h : turnsListener l o = true) : isOwnerObs o = true := by
  unfold turnsListener at h
  split at h <;> first | rfl | cases h

theorem usesListener_isOwnerObs {o : Obs} (h : usesListener l o = true) : isOwnerObs o = true := by
  cases o with
  | accept l' fd => rfl
  | cb k now => cases k <;> first | rfl | cases h
  | _ => cases h

theorem listenerClosed_filter (log : List Obs) :
    listenerClosed l (log.filter isOwnerObs) = listenerClosed l log := by
  have : (log.filter isOwnerObs).filter (turnsListener l) = log.filter (turnsListener l) := by
    rw [List.filter_filter]
    apply List.filter_congr
    intro o _
    by_cases ho : turnsListener l o = true
    · simp [ho, turnsListener_isOwnerObs ho]
    · simp [ho]
  simp only [listenerClosed, this]

theorem listenerClosed_append (h : m.filter (turnsListener l) = []) :
    listenerClosed l (log ++ m) = listenerClosed l log := by
  simp [listenerClosed, h]

/-- Entries that do not use the listener. -/
theorem openListener_append (hp : Past (OpenListener l) log)
    (hm : ∀ o ∈ m, usesListener l o = false) : Past (OpenListener l) (log ++ m) := by
  induction m generalizing log with
  | nil => simpa using hp
  | cons o m ih =>
    rw [List.append_cons]
    apply ih
    · apply hp.snoc
      intro hu
      rw [hm o (by simp)] at hu
      cases hu
    · intro o' ho'
      exact hm o' (List.mem_cons_of_mem o ho')

variable {v v' : Owners} {new : List Item}

/-- A step of the library neither opens nor closes a listener, and uses it only to dispatch one of
its events. -/
theorem OwnerExec.listener {f : Frame} (h : OwnerExec v f v' new)
    (hf : listenerClosed l v.log = true → ∀ ev, f ≠ .dispatch (.server l) ev)
    (hp : Past (OpenListener l) v.log) :
    listenerClosed l v'.log = listenerClosed l v.log ∧ Past (OpenListener l) v'.log := by
  have other : ∀ {m : List Obs}, (∀ o ∈ m, turnsListener l o = false ∧ usesListener l o = false) →
      listenerClosed l (v.log ++ m) = listenerClosed l v.log ∧
        Past (OpenListener l) (v.log ++ m) := by
    intro m hm
    refine ⟨listenerClosed_append ?_, openListener_append hp fun o ho => (hm o ho).2⟩
    rw [List.filter_eq_nil_iff]
    intro o ho
    simp [(hm o ho).1]
  cases h with
  | same | close | pending | signal => exact ⟨rfl, hp⟩
  | closeQueued | stop | rearm | pendingDec | taskDec =>
    apply other
    simp [turnsListener, usesListener]
  | @accept l' ev fd m new hst hm =>
    by_cases hl : l' = l
    · subst hl
      have hopen : listenerClosed l' v.log = false := by
        by_contra hc
        exact hf (by simpa using hc) ev rfl
      have hacc : listenerClosed l' (v.log ++ [.accept l' fd]) = listenerClosed l' v.log :=
        listenerClosed_append rfl
      have hp' : Past (OpenListener l') (v.log ++ [.accept l' fd]) := hp.snoc fun _ => hopen
      show _ ∧ Past (OpenListener l') (v.log ++ .accept l' fd :: m)
      rcases hm with rfl | ⟨peer, now, rfl⟩
      · exact ⟨hacc, hp'⟩
      · refine ⟨listenerClosed_append rfl, ?_⟩
        rw [List.append_cons]
        apply hp'.snoc
        intro _
        rw [hacc]
        exact hopen
    · apply other
      rcases hm with rfl | ⟨peer, now, rfl⟩ <;> simp [turnsListener, usesListener, hl]

/-- A call of the application does not use a listener, and closes it only as
`pd_tcp_server_close`. -/
theorem OwnerApi.listener {k : Call} {a : Answer} (h : OwnerApi v a k v' new)
    (hp : Past (OpenListener l) v.log) :
    (listenerClosed l v'.log = true → listenerClosed l v.log = true ∨ k = .tcpServerClose l) ∧
      Past (OpenListener l) v'.log := by
  have other : ∀ {m : List Obs}, (∀ o ∈ m, turnsListener l o = false ∧ usesListener l o = false) →
      (listenerClosed l (v.log ++ m) = true → listenerClosed l v.log = true ∨
        k = .tcpServerClose l) ∧ Past (OpenListener l) (v.log ++ m) := by
    intro m hm
    refine ⟨fun hc => .inl ?_, openListener_append hp fun o ho => (hm o ho).2⟩
    rwa [listenerClosed_append] at hc
    rw [List.filter_eq_nil_iff]
    intro o ho
    simp [(hm o ho).1]
  cases h with
  | same | close => exact ⟨.inl, hp⟩
  | start | stop | submit =>
    apply other
    simp [turnsListener, usesListener]
  | @accept s fd | @connect s fd =>
    show (listenerClosed l (v.log ++ [.opened s fd] ++ [.refInc (.tcp s)]) = true → _) ∧
      Past (OpenListener l) (v.log ++ [.opened s fd] ++ [.refInc (.tcp s)])
    rw [List.append_assoc]
    apply other
    simp [turnsListener, usesListener]
  | @listen l' b r m hm =>
    have hone : ∀ o ∈ m, turnsListener l o = false ∧ usesListener l o = false := by
      rcases hm with rfl | ⟨rfl, -⟩ <;> simp [turnsListener, usesListener]
    show (listenerClosed l (v.log ++ .ctl (.server l') r.fd .add :: m ++ [.refInc (.server l')]) =
      true → _) ∧ Past (OpenListener l) (v.log ++ .ctl (.server l') r.fd .add :: m ++
        [.refInc (.server l')])
    rw [List.append_assoc]
    by_cases hl : l' = l
    · subst hl
      refine ⟨fun hc => ?_, openListener_append hp ?_⟩
      · have hnil : m.filter (turnsListener l') = [] :=
          List.filter_eq_nil_iff.mpr fun o ho => by simp [(hone o ho).1]
        simp [listenerClosed, turnsListener, hnil] at hc
      · intro o ho
        simp only [List.cons_append, List.mem_cons, List.mem_append, List.not_mem_nil,
          or_false] at ho
        rcases ho with rfl | ho | rfl
        · rfl
        · exact (hone o ho).2
        · rfl
    · apply other
      intro o ho
      simp only [List.cons_append, List.mem_cons, List.mem_append, List.not_mem_nil,
        or_false] at ho
      rcases ho with rfl | ho | rfl
      · simp [turnsListener, usesListener, hl]
      · exact hone o ho
      · simp [turnsListener, usesListener]
  | @serverClose l' =>
    show (listenerClosed l (v.log ++ [.serverClosed l' (v.server l').fd] ++
      [.refDec (.server l')]) = true → _) ∧ Past (OpenListener l)
        (v.log ++ [.serverClosed l' (v.server l').fd] ++ [.refDec (.server l')])
    rw [List.append_assoc]
    by_cases hl : l' = l
    · exact ⟨fun _ => .inr (by rw [hl]), openListener_append hp (by simp [usesListener])⟩
    · apply other
      simp [turnsListener, usesListener, hl]

end

/-! ## Listening and closing -/

section
variable {w : World} {l : Lid} {b : Bool} {a : Answer}

/-- `pd_tcp_listen` opens the listener with the one descriptor it registers, or registers none. -/
theorem pdTcpListen_registered :
    w.kernel.Registers (fun _ => False) (pdTcpListen w l b a).kernel ∨
    listenerClosed l (pdTcpListen w l b a).log = false ∧
      ∀ fd' h f, (pdTcpListen w l b a).kernel.interest fd' = some (h, f) →
        .ctl (.server l) fd' .add ∈ (pdTcpListen w l b a).log ∨
        ∃ g, w.kernel.interest fd' = some (h, g) := by
  have hk : ∀ H, w.kernel.Registers H (w.kernel.newSocket (a.sys 0)).1 := fun H =>
    Kernel.Registers.refl.newSocket
  have q0 : Quiet (fun _ => False) w w := .refl
  have q1 : Quiet (fun _ => False) w (w.setKernel (w.kernel.newSocket (a.sys 0)).1) := q0.newSocket
  simp only [pdTcpListen]
  split
  · exact .inl q0.setErrno.failErrno.interest
  · exact .inl q1.failErrno.interest
  · rename_i n _
    split
    · exact .inl q1.setErrno.closeQuietly.failErrno.interest
    · exact .inl q1.setErrno.closeQuietly.failErrno.interest
    · exact .inl q1.setErrno.closeQuietly.failErrno.interest
    · exact .inl q1.setErrno.closeQuietly.failErrno.interest
    · right
      constructor
      · split <;>
          simp [incRefs, World.logObs, World.setResult, setRefs, listenerClosed, turnsListener]
      · intro fd' h f hi
        by_cases hfd : fd' = ((n : Fd) + 1)
        · left
          split <;> simp [incRefs, World.logObs, World.setResult, setRefs, hfd]
        · right
          have hother : ∀ (k : Kernel) (c : Ctl) (fd : Fd) (h : Handle) (f : Flags) (r : SysRes),
              fd' ≠ fd → (k.ctl c fd h f r).1.interest fd' = k.interest fd' := by
            intro k c fd h f r hne
            unfold Kernel.ctl
            split
            · rfl
            · split <;> simp [hne]
          have hi' : (w.kernel.newSocket (a.sys 0)).1.interest fd' = some (h, f) := by
            rw [← hother _ .add ((n : Fd) + 1) (.server l) _ (a.sys 7) hfd]
            split at hi <;> exact hi
          exact (hk (fun _ => False) fd' h f hi').resolve_left id

/-- `pd_tcp_server_close` takes its number out of the poller where it is registered. -/
theorem pdTcpServerClose_registered (hopen : w.kernel.isOpen (w.server l).fd = true)
    (hreg : w.kernel.interest (w.server l).fd ≠ none) :
    (pdTcpServerClose w l a).kernel.interest (w.server l).fd = none := by
  obtain ⟨p, hp⟩ := Option.ne_none_iff_exists'.mp hreg
  have hdel : w.kernel.ctl .del (w.server l).fd (.server l) (w.server l).flags (a.sys 0) =
      ({ w.kernel with interest := Function.update w.kernel.interest (w.server l).fd none }, .ok 0) := by
    simp [Kernel.ctl, hopen, hp]
  simp only [pdTcpServerClose, hdel]
  have hclose : ∀ r, (Kernel.close { w.kernel with
      interest := Function.update w.kernel.interest (w.server l).fd none }
      (w.server l).fd r).1.interest (w.server l).fd = none := by
    intro r
    simp [Kernel.close, hopen]
  split <;> exact hclose _

/-- Elsewhere it fails, and leaves the counter and the descriptors alone. -/
theorem pdTcpServerClose_unregistered
    (h : ¬ (w.kernel.isOpen (w.server l).fd = true ∧ w.kernel.interest (w.server l).fd ≠ none)) :
    (pdTcpServerClose w l a).refs = w.refs ∧ (pdTcpServerClose w l a).kernel = w.kernel ∧
      (pdTcpServerClose w l a).log = w.log ++ [.ctl (.server l) (w.server l).fd .del] := by
  have hdel : ∃ e, w.kernel.ctl .del (w.server l).fd (.server l) (w.server l).flags (a.sys 0) =
      (w.kernel, .err e) := by
    by_cases hopen : w.kernel.isOpen (w.server l).fd = true
    · have hreg : w.kernel.interest (w.server l).fd = none := by
        by_contra hreg
        exact h ⟨hopen, hreg⟩
      exact ⟨ENOENT, by simp [Kernel.ctl, hopen, hreg]⟩
    · exact ⟨EBADF, by simp [Kernel.ctl, hopen]⟩
  obtain ⟨e, he⟩ := hdel
  simp [pdTcpServerClose, he, World.setKernel, World.logObs, World.setErrno, World.setResult]

/-- A listener whose `pd_tcp_server_close` returns 0 is closed. -/
theorem pdTcpServerClose_result (h : (pdTcpServerClose w l a).result = 0) :
    listenerClosed l (pdTcpServerClose w l a).log = true := by
  simp only [pdTcpServerClose] at h ⊢
  split at h
  · simp [World.setResult] at h
  · split at h
    · simp [World.setResult] at h
    · simp_all [World.setResult, decRefs, World.logObs, setRefs, listenerClosed, turnsListener]

end

/-! ## The invariant -/

/-- The registered descriptors of the listener are those of its `pd_tcp_listen`; a closed one has
none, and no event of it is waiting. -/
structure ListenerInv (l : Lid) (c : Cfg) : Prop where
  known : ∀ fd g, c.world.kernel.interest fd = some (.server l, g) →
    .ctl (.server l) fd .add ∈ c.world.log
  gone : listenerClosed l c.world.log = true →
    ∀ fd g, c.world.kernel.interest fd ≠ some (.server l, g)
  idle : listenerClosed l c.world.log = true → ∀ i ∈ c.stack, i.eventOf l = false
  past : Past (OpenListener l) c.world.owners.log

section
variable {c c' : Cfg} {x : Act} {l : Lid} {v v' : Owners} {new : List Item}

theorem eventOf_iff {i : Item} : i.eventOf l = true ↔ ∃ ev, i = .lib (.dispatch (.server l) ev) := by
  constructor
  · intro h
    unfold Item.eventOf at h
    split at h
    · rename_i l' ev
      have hl : l' = l := by simpa using h
      exact ⟨ev, by rw [hl]⟩
    · cases h
  · rintro ⟨ev, rfl⟩
    simp [Item.eventOf]

theorem ListenerInv.exec {f : Frame} {a : Answer} {rest : List Item} {r : World × List Item}
    (hinv : ListenerInv l ⟨c.world, .lib f :: rest⟩) (h : exec c.world f a = some r) :
    ListenerInv l ⟨r.1, r.2 ++ rest⟩ := by
  obtain ⟨ho, hk⟩ := exec_owner h
  have hclosed : ∀ w : World, listenerClosed l w.log = listenerClosed l w.owners.log :=
    fun w => (listenerClosed_filter w.log).symm
  have hf : listenerClosed l c.world.log = true → ∀ ev, f ≠ .dispatch (.server l) ev := by
    rintro hc ev rfl
    have := hinv.idle hc (.lib (.dispatch (.server l) ev)) (by simp)
    simp [Item.eventOf] at this
  obtain ⟨hsame, hpast⟩ := ho.listener (l := l) (by rwa [← hclosed]) hinv.past
  have hold : listenerClosed l r.1.log = listenerClosed l c.world.log := by
    rw [hclosed, hsame, ← hclosed]
  have hreg : ∀ fd g, r.1.kernel.interest fd = some (.server l, g) →
      ∃ g', c.world.kernel.interest fd = some (.server l, g') := by
    intro fd g hi
    rcases hk fd (.server l) g hi with ⟨s, _, hs⟩ | hi
    · cases hs
    · exact hi
  refine ⟨?_, ?_, ?_, hpast⟩
  · intro fd g hi
    obtain ⟨g', hg⟩ := hreg fd g hi
    have hm := hinv.known fd g' hg
    rw [← mem_owners_log rfl] at hm ⊢
    exact ho.mem_log hm
  · intro hc fd g hi
    obtain ⟨g', hg⟩ := hreg fd g hi
    exact hinv.gone (hold ▸ hc) fd g' hg
  · intro hc i hi
    have hc' : listenerClosed l c.world.log = true := hold ▸ hc
    rcases List.mem_append.mp hi with hi | hi
    · by_contra he
      obtain ⟨ev, rfl⟩ := eventOf_iff.mp (by simpa using he)
      rcases exec_dispatches h hi with ⟨fd, g, hg⟩ | hfe
      · exact hinv.gone hc' fd g hg
      · exact hf hc' ev hfe
    · exact hinv.idle hc' i (List.mem_cons_of_mem _ hi)

/-- The call closes the listener, and it was not closed: then the condition held. -/
theorem serverClose_gone {a : Answer} (hinv : ListenerInv l c)
    (hok : ClosesIdle l c (.api (.tcpServerClose l) a))
    (hc : listenerClosed l (pdTcpServerClose c.world l a).log = true)
    (hold : listenerClosed l c.world.log = false) :
    (∀ fd g, (pdTcpServerClose c.world l a).kernel.interest fd ≠ some (.server l, g)) ∧
      ∀ i ∈ c.stack, i.eventOf l = false := by
  have hreg : c.world.kernel.isOpen (c.world.server l).fd = true ∧
      c.world.kernel.interest (c.world.server l).fd ≠ none := by
    by_contra hreg
    rw [(pdTcpServerClose_unregistered hreg).2.2, listenerClosed_append rfl, hold] at hc
    cases hc
  obtain ⟨hidle, hleft⟩ := hok (by simp [Act.closesListener]) hreg.2
  refine ⟨?_, hidle⟩
  intro fd g hi
  have hk := api_registers (w := c.world) (c := .tcpServerClose l) (a := a) rfl
  rcases hk fd (.server l) g hi with ⟨b, hb⟩ | ⟨g', hg⟩
  · cases hb
  · have := hleft _ (hinv.known fd g' hg)
    by_cases hfd : fd = (c.world.server l).fd
    · rw [hfd, pdTcpServerClose_registered hreg.1 hreg.2] at hi
      cases hi
    · simp [leftOver, hfd, hg] at this

theorem ListenerInv.api {k : Call} {a : Answer} {r : World × List Item} (hinv : ListenerInv l c)
    (hok : ClosesIdle l c (.api k a)) (h : api c.world k a = some r) :
    ListenerInv l ⟨r.1, r.2 ++ c.stack⟩ := by
  have ho := api_owner h
  have hk := api_registers h
  have hclosed : ∀ w : World, listenerClosed l w.log = listenerClosed l w.owners.log :=
    fun w => (listenerClosed_filter w.log).symm
  obtain ⟨hsame, hpast⟩ := ho.listener (l := l) hinv.past
  simp only [← hclosed] at hsame
  have hitems : ∀ i ∈ r.2, i.eventOf l = false := by
    have hp := api_pushes h
    generalize r.2 = m at hp
    cases hp <;> simp [Item.eventOf]
  have hmem : ∀ {fd}, Obs.ctl (.server l) fd .add ∈ c.world.log →
      Obs.ctl (.server l) fd .add ∈ r.1.log := by
    intro fd hm
    rw [← mem_owners_log rfl] at hm ⊢
    exact ho.mem_log hm
  -- a call that registers nothing for the listener, and leaves it closed if it was
  have kept : (∀ fd g, r.1.kernel.interest fd = some (.server l, g) →
      ∃ g', c.world.kernel.interest fd = some (.server l, g')) →
      (listenerClosed l r.1.log = true → listenerClosed l c.world.log = true) →
      ListenerInv l ⟨r.1, r.2 ++ c.stack⟩ := by
    intro hreg hc'
    refine ⟨?_, ?_, ?_, hpast⟩
    · intro fd g hi
      obtain ⟨g', hg⟩ := hreg fd g hi
      exact hmem (hinv.known fd g' hg)
    · intro hc fd g hi
      obtain ⟨g', hg⟩ := hreg fd g hi
      exact hinv.gone (hc' hc) fd g' hg
    · intro hc i hi
      rcases List.mem_append.mp hi with hi | hi
      · exact hitems i hi
      · exact hinv.idle (hc' hc) i hi
  by_cases hclose : k = .tcpServerClose l
  · subst hclose
    cases h
    have hreg : ∀ fd g, (pdTcpServerClose c.world l a).kernel.interest fd = some (.server l, g) →
        ∃ g', c.world.kernel.interest fd = some (.server l, g') := by
      intro fd g hi
      refine (hk fd (.server l) g hi).resolve_left ?_
      rintro ⟨b, hb⟩
      cases hb
    by_cases hold : listenerClosed l c.world.log = true
    · exact kept hreg fun _ => hold
    · have hold : listenerClosed l c.world.log = false := by simpa using hold
      refine ⟨?_, ?_, ?_, hpast⟩
      · intro fd g hi
        obtain ⟨g', hg⟩ := hreg fd g hi
        exact hmem (hinv.known fd g' hg)
      · intro hc
        exact (serverClose_gone hinv hok hc hold).1
      · intro hc
        exact (serverClose_gone hinv hok hc hold).2
  · by_cases hlisten : ∃ b, k = .tcpListen l b
    · obtain ⟨b, rfl⟩ := hlisten
      cases h
      rcases pdTcpListen_registered (w := c.world) (l := l) (b := b) (a := a) with hq | ⟨hopen, hreg⟩
      · refine kept (fun fd g hi => (hq fd (.server l) g hi).resolve_left id) fun hc => ?_
        exact (hsame hc).resolve_right hclose
      · have hne : ¬ listenerClosed l ((pdTcpListen c.world l b a).goOn []).1.log = true := by
          show ¬ listenerClosed l (pdTcpListen c.world l b a).log = true
          simp [hopen]
        refine ⟨?_, fun hc => absurd hc hne, fun hc => absurd hc hne, hpast⟩
        intro fd g hi
        rcases hreg fd (.server l) g hi with hm | ⟨g', hg⟩
        · exact hm
        · exact hmem (hinv.known fd g' hg)
    · refine kept (fun fd g hi => ?_) fun hc => (hsame hc).resolve_right hclose
      exact (hk fd (.server l) g hi).resolve_left hlisten

theorem ListenerInv.step (hinv : ListenerInv l c) (hok : ClosesIdle l c x)
    (hs : step c x = some c') : ListenerInv l c' := by
  rcases step_cases hs with ⟨a, f, rest, r, rfl, hst, hr, rfl⟩ |
    ⟨k, a, cb, rest, r, rfl, hst, hr, rfl⟩ | ⟨p, cb, rest, rfl, hst, hcb, rfl⟩ |
    ⟨e, w', rfl, he, rfl⟩
  · have hinv' : ListenerInv l ⟨c.world, .lib f :: rest⟩ := by
      simpa [← hst] using hinv
    exact hinv'.exec hr
  · rw [← hst]
    exact hinv.api hok hr
  · refine ⟨hinv.known, hinv.gone, fun hc i hi => hinv.idle hc i ?_, hinv.past⟩
    rw [hst]
    exact List.mem_cons_of_mem _ hi
  · have ho := env_owner he
    have hk := (env_keeps he).interest
    have hlog : w'.owners.log = c.world.owners.log := by
      rcases ho with ho | ⟨k, _, ho⟩ <;> rw [ho]
    have hsame : listenerClosed l w'.log = listenerClosed l c.world.log := by
      rw [← listenerClosed_filter w'.log, ← listenerClosed_filter c.world.log]
      exact congrArg (listenerClosed l) hlog
    have hreg : ∀ fd g, w'.kernel.interest fd = some (.server l, g) →
        ∃ g', c.world.kernel.interest fd = some (.server l, g') := fun fd g hi =>
      (hk fd (.server l) g hi).resolve_left id
    refine ⟨?_, ?_, ?_, ?_⟩
    · intro fd g hi
      obtain ⟨g', hg⟩ := hreg fd g hi
      rw [← mem_owners_log rfl, hlog, mem_owners_log rfl]
      exact hinv.known fd g' hg
    · intro hc fd g hi
      obtain ⟨g', hg⟩ := hreg fd g hi
      exact hinv.gone (hsame ▸ hc) fd g' hg
    · intro hc
      exact hinv.idle (hsame ▸ hc)
    · show Past (OpenListener l) w'.owners.log
      rw [hlog]
      exact hinv.past

/-- After `pd_tcp_server_close` has returned 0, nothing is accepted for the listener, and closing it
again does no harm. -/
def ListenerLeftAlone (l : Lid) (c : Cfg) : Prop :=
  Past (OpenListener l) c.world.log ∧
  (listenerClosed l c.world.log = true → ∀ a c', step c (.api (.tcpServerClose l) a) = some c' →
    c'.world.refs = c.world.refs ∧ c'.world.kernel = c.world.kernel)

/-- **A closed listener is left alone** on every run that closes it with none of its events waiting
and no second descriptor registered; and closing it again changes neither the counter nor the
descriptors exactly when the number it keeps is not that of a registered descriptor. -/
theorem listener_left_alone (r : Run (ClosesIdle l) c) :
    Past (OpenListener l) c.world.log ∧
    ∀ a c', step c (.api (.tcpServerClose l) a) = some c' →
      (c'.world.result = 0 → listenerClosed l c'.world.log = true) ∧
      (listenerClosed l c.world.log = true →
        (c'.world.refs = c.world.refs ∧ c'.world.kernel = c.world.kernel ↔
          ¬ (c.world.kernel.isOpen (c.world.server l).fd = true ∧
            c.world.kernel.interest (c.world.server l).fd ≠ none))) := by
  have h : ListenerInv l c := by
    refine r.invariant (P := ListenerInv l) ?_ fun c x c' _ hinv hok hs => hinv.step hok hs
    rintro c ⟨k, fd, -, -, rfl⟩
    refine ⟨?_, by simp [World.init, listenerClosed], by simp [World.init, listenerClosed], Past.nil⟩
    intro fd' g hi
    simp only [World.init] at hi
    split at hi <;> cases hi
  constructor
  · refine h.past.of_filter.mono fun past o hp hu => ?_
    rw [← listenerClosed_filter]
    exact hp (usesListener_isOwnerObs hu) hu
  · intro a c' hs
    obtain ⟨w, hw⟩ : ∃ w, w = pdTcpServerClose c.world l a := ⟨_, rfl⟩
    have hc' : c'.world = w := by
      rcases step_cases hs with ⟨_, _, _, _, hx, -⟩ | ⟨k, a', cb, rest, r, hx, hst, hr, rfl⟩ |
        ⟨_, _, _, hx, -⟩ | ⟨_, _, hx, -⟩
      · cases hx
      · cases hx
        cases hr
        exact hw.symm
      · cases hx
      · cases hx
    rw [hc', hw]
    refine ⟨pdTcpServerClose_result, fun _ => ⟨?_, ?_⟩⟩
    · rintro ⟨-, hk⟩ ⟨hopen, hreg⟩
      apply hreg
      rw [← hk]
      exact pdTcpServerClose_registered hopen hreg
    · intro hreg
      obtain ⟨hr, hk, -⟩ := pdTcpServerClose_unregistered (a := a) hreg
      exact ⟨hr, hk⟩

/-- A listener is closed in its own `on_connection`, and once more when the process has opened
another descriptor under its number. -/
theorem listener_left_alone_twice : ∃ c c', Run (ClosesIdle 0) c ∧
    listenerClosed 0 c.world.log = true ∧ c.world.kernel.isOpen 5 = true ∧
    step c (.api (.tcpServerClose 0) (.ok 0 [])) = some c' ∧
    c'.world.refs = c.world.refs ∧ c'.world.kernel = c.world.kernel := by
  have hplay : ∃ c c', Run (ClosesIdle 0) c ∧ listenerClosed 0 c.world.log = true ∧
      c.world.kernel.isOpen 5 = true ∧ (c.world.server 0).fd = 5 ∧
      c.world.kernel.interest 5 = none ∧
      step c (.api (.tcpServerClose 0) (.ok 0 [])) = some c' := by
    have r : Run (ClosesIdle 0) _ := Run.play (Cfg.start_init [])
      [.api (.tcpListen 0 true) (.ok 5 []), .api .ioRun (.ok 0 []),
        .lib (.ok 0 [(5, ⟨true, false, false, false, false⟩)]), .lib (.ok 6 []),
        .api (.tcpServerClose 0) (.ok 0 []), .env (.openFd 5)] rfl
    exact ⟨_, _, r, rfl, rfl, rfl, rfl, rfl⟩
  obtain ⟨c, c', r, hcl, hopen, hfd, hreg, hs⟩ := hplay
  have hsame := ((listener_left_alone r).2 _ c' hs).2 hcl
  rw [hfd] at hsame
  exact ⟨c, c', r, hcl, hopen, hs, hsame.mpr fun h => h.2 hreg⟩

/-- A listener is closed between the poll and its own event, which then accepts from the listener
that has taken its number; and closing a listener again closes the stream that has. -/
theorem not_listener_left_alone : ¬ (∀ c, Run AnyStep c → Past (OpenListener 0) c.world.log) ∧
    ¬ ∀ c, Run AnyStep c → ListenerLeftAlone 0 c := by
  constructor
  · intro h
    have r : Run AnyStep _ := Run.play (Cfg.start_init [6])
      [.api (.tcpListen 0 true) (.ok 5 []), .api (.tcpAccept 0 6) (.ok 0 []),
        .api (.setOnData 0 true) (.ok 0 []), .env (.arrive 6 [1]), .api .ioRun (.ok 0 []),
        .lib (.ok 0 [(6, ⟨true, false, false, false, false⟩), (5, ⟨true, false, false, false, false⟩)]),
        .lib (.ok 0 []), .ret (some 0), .lib (.ok 0 []), .lib (.ok 6144 []),
        .api (.tcpServerClose 0) (.ok 0 []), .api (.tcpListen 1 true) (.ok 5 []), .ret none,
        .lib (.ok 0 []), .lib (.ok 7 [])] rfl
    have hacc := h _ r [.ctl (.server 0) 5 .add, .listening 0 5, .refInc (.server 0), .opened 0 6,
      .ctl (.tcp 0) 6 .add, .refInc (.tcp 0), .cb (.allocator 0) 0, .read 0 6 [1],
      .cb (.onData 0 (some 0) 1 [1]) 0, .ctl (.server 0) 5 .del, .serverClosed 0 5,
      .refDec (.server 0), .ctl (.server 1) 5 .add, .listening 1 5, .refInc (.server 1)]
      (.accept 0 5)
      [.cb (.onConnection 0 7) 0] rfl (by simp [usesListener])
    simp [listenerClosed, turnsListener] at hacc
  · intro h
    have r : Run AnyStep _ := Run.play (Cfg.start_init [])
      [.api (.tcpListen 0 true) (.ok 5 []), .api (.tcpServerClose 0) (.ok 0 []), .env (.openFd 5),
        .api (.tcpAccept 0 5) (.ok 0 [])] rfl
    have hrefs := ((h _ r).2 rfl (.ok 0 []) _ rfl).1
    cases hrefs

end

end Pandio
