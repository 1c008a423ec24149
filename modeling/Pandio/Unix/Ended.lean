import Pandio.Unix.Kqueue
import Pandio.Unix.Pollers
import Pandio.Unix.StreamDrain

/- The end of what a stream sends. `shutdown` and `close` put a FIN behind what was written; this
   file

   1. proves that nothing is written for a stream after its FIN, if it is opened once
      (`EndInv.step_sent`);
   2. proves that what was written is all that was accepted, once every operation was
      finished with success (`sent_of_finished`).

   `pd_tcp_close` may be called in a callback of `pd__tcp_write`, whose loop goes on for the
   stream afterwards; by then the loop of `pd_tcp_close` has emptied the queue. -/
namespace Pandio
open World

/-! ## The end of a stream -/

/-- The stream's FIN is sent. -/
def isEndOf (s : Sid) : Obs → Bool
  | .shutdown s' _ | .closed s' _ => s' = s
  | _ => false

def ended (s : Sid) (log : List Obs) : Bool := log.any (isEndOf s)

/-- No descriptor was written into the stream since `pd_tcp_init`, and none was closed. -/
def Untried (s : Sid) (log : List Obs) : Prop := ∀ o ∈ log, isCustodyObs s o = false

instance (s : Sid) (log : List Obs) : Decidable (Untried s log) :=
  inferInstanceAs (Decidable (∀ _ ∈ _, _))

/-- The stream is opened once. -/
def OpenedOnce (s : Sid) (c : Cfg) (x : Act) : Prop := x.opens s = true → Untried s c.world.log

instance (s : Sid) (c : Cfg) (x : Act) : Decidable (OpenedOnce s c x) :=
  inferInstanceAs (Decidable (_ → _))

/-- The loop of `pd_tcp_close` comes before that of `pd__tcp_write`. -/
def Guarded (s : Sid) : List Item → Prop
  | [] => True
  | i :: l => i = .lib (.closeDrain s) ∨ i ≠ .lib (.writeLoop s) ∧ Guarded s l

/-- A stream that was set up for a connection was opened. -/
def Used (s : Sid) (v : StreamView) : Prop :=
  v.tcp.status ≠ .none ∨ v.tcp.handler ≠ none → ¬ Untried s v.log

/-- The stream's FIN comes after everything it writes. -/
structure EndInv (s : Sid) (v : StreamView) (l : List Item) : Prop where
  used : Used s v
  last : ended s v.log = true → Silent v ∧ (v.tcp.status ≠ .closed → v.tcp.writes = [])
  guarded : v.tcp.status = .closed → v.tcp.writes ≠ [] → Guarded s l

section
variable {s : Sid} {now : Nat} {v v' : StreamView} {l rest : List Item}

theorem ended_append (log m : List Obs) : ended s (log ++ m) = (ended s log || ended s m) :=
  List.any_append

theorem ended_filter (log : List Obs) : ended s (log.filter (isStreamObs s)) = ended s log := by
  rw [ended, List.any_filter]
  apply List.any_congr rfl
  intro o
  cases o <;> simp [isEndOf, isStreamObs]

theorem Untried.of_append {log m : List Obs} (h : Untried s (log ++ m)) : Untried s log := fun o ho =>
  h o (List.mem_append_left m ho)

theorem untried_filter (log : List Obs) :
    Untried s (log.filter (isStreamObs s)) ↔ Untried s log := by
  refine ⟨fun h o ho => ?_, fun h o ho => h o (List.mem_filter.mp ho).1⟩
  by_contra hn
  have hcustody : isCustodyObs s o = true := by simpa using hn
  rw [h o (List.mem_filter.mpr ⟨ho, isCustodyObs_isStreamObs hcustody⟩)] at hcustody
  cases hcustody

theorem Guarded.push (h : Guarded s rest) (hl : .lib (.writeLoop s) ∉ l) : Guarded s (l ++ rest) := by
  induction l with
  | nil => exact h
  | cons i l ih =>
    refine .inr ⟨fun hi => hl (hi ▸ List.mem_cons_self), ih fun hm => hl (List.mem_cons_of_mem i hm)⟩

theorem Guarded.pop {i : Item} (h : Guarded s (i :: rest)) (hi : i ≠ .lib (.closeDrain s)) :
    i ≠ .lib (.writeLoop s) ∧ Guarded s rest := h.resolve_left hi

/-- The loop of `pd__tcp_write` is reached from itself and from the events of its stream. -/
theorem Frame.Pushes.noWriteLoop {f : Frame} (h : f.Pushes l) (hf : f ≠ .writeLoop s)
    (hio : ∀ ev, f ≠ .clientIoRest s ev) : .lib (.writeLoop s) ∉ l := by
  cases h with
  | poll timeout events => simp
  | loopAgain s' | loopCalled s' op =>
    intro hm
    simp only [List.mem_cons, List.not_mem_nil, or_false, Item.lib.injEq, Frame.writeLoop.injEq,
      reduceCtorEq, false_or] at hm
    exact hf (by rw [hm])
  | ioWrite s' ev hc =>
    intro hm
    simp only [List.mem_cons, List.not_mem_nil, or_false, Item.lib.injEq, Frame.writeLoop.injEq] at hm
    exact hio ev (by rw [hm])
  | _ => simp

/-! ## A frame of the stream -/

/-- A frame sends the FIN when it closes the stream, or finds nothing left to write. -/
theorem StreamExec.ends {f : Frame} (h : StreamExec s now v f v' l) :
    ended s v'.log = ended s v.log ∨ v'.tcp.status = .closed ∨
      v.tcp.status = .shutdown ∧ v'.tcp.writes = [] ∧ v'.tcp.status = .shutdown ∧
        v'.tcp.handler = v.tcp.handler := by
  cases h with
  | close | ioClose => exact .inr (.inl rfl)
  | loopShut hw hst => exact .inr (.inr ⟨hst, hw, hst, rfl⟩)
  | tryQueued =>
    left
    unfold StreamView.enqueue
    split <;> simp [ended, isEndOf, StreamView.setWrites, StreamView.setPollout]
  | _ =>
    left
    simp [ended, isEndOf, StreamView.setWrites, StreamView.setPollout, StreamView.connected]

/-- Only an active stream's queue grows. -/
theorem StreamExec.writes_nil {f : Frame} (h : StreamExec s now v f v' l) (hw : v.tcp.writes = [])
    (hst : v.tcp.status ≠ .active) : v'.tcp.writes = [] := by
  cases h with
  | cancel hq | loopFailed hq | loopCalled hq | loopUncalled hq =>
    rw [hw] at hq
    cases hq
  | tryQueued hact => exact absurd hact hst
  | _ => exact hw

theorem StreamExec.used {f : Frame} (h : StreamExec s now v f v' l) (hu : Used s v) : Used s v' := by
  obtain ⟨m, hm, -⟩ := h.poller
  have keep : v.tcp.status ≠ .none ∨ v.tcp.handler ≠ none → ¬ Untried s v'.log := by
    intro hne hf
    rw [hm] at hf
    exact hu hne hf.of_append
  cases h with
  | close hst | ioClose _ hst =>
    intro _ hf
    have hclosed := hf (.closed s v.tcp.fd) (by simp [StreamView.close])
    simp [isCustodyObs] at hclosed
  | connected hh | connectedCalled hh => exact fun _ => keep (.inr (by simp [hh]))
  | tryQueued hst => exact fun _ => keep (.inl (by simp [hst]))
  | _ => exact keep

/-- What a frame of the stream writes, it writes from its queue, or from the call of
`pd_tcp_write`. -/
theorem StreamExec.sent {f : Frame} (h : StreamExec s now v f v' l)
    (hloop : f = .writeLoop s → v.tcp.writes = []) (htry : ∀ op, f ≠ .writeTry s op) :
    sentBytes s v'.log = sentBytes s v.log := by
  have quiet : ∀ log m, writeEvents s m = [] → sentBytes s (log ++ m) = sentBytes s log := by
    intro log m hm
    rw [sentBytes, writeEvents_append, hm, List.append_nil, sentBytes]
  cases h with
  | tryAgain | tryQueued | tryCalled => exact absurd rfl (htry _)
  | loopAgain hw | loopWait hw | loopFailed hw | loopCalled hw | loopUncalled hw =>
    rw [hloop rfl] at hw
    cases hw
  | cancel => simp [sentBytes, StreamView.setWrites]
  | connectedCalled =>
    rw [logs_log, quiet _ _ rfl]
    exact quiet _ _ rfl
  | _ => first | rfl | exact quiet _ _ rfl

/-- **A frame of the stream keeps its end in place.** -/
theorem EndInv.exec {f : Frame} (h : EndInv s v (.lib f :: rest)) (hd : DrainInv s v)
    (hp : f.Pushes l) (he : StreamExec s now v f v' l) : EndInv s v' (l ++ rest) := by
  refine ⟨he.used h.used, fun hend => ?_, fun hst hw => ?_⟩
  · rcases he.ends with hsame | hclosed | ⟨hst, hw, hst', hh⟩
    · obtain ⟨hsil, hw⟩ := h.last (hsame ▸ hend)
      refine ⟨(hsil.exec he).1, fun hne => ?_⟩
      have hne' := he.unclosed hne
      refine he.writes_nil (hw hne') fun hact => ?_
      rcases hsil with ⟨hst, -⟩ | hst <;> simp [hact] at hst
    · exact ⟨.inr hclosed, fun hne => absurd hclosed hne⟩
    · refine ⟨.inl ⟨hst', fun hio => ?_⟩, fun _ => hw⟩
      have hnone := hd.handler (hh ▸ hio)
      simp [hst] at hnone
  · by_cases hst0 : v.tcp.status = .closed
    · -- the queue did not grow
      have hw0 : v.tcp.writes ≠ [] := fun hw0 => hw (he.writes_nil hw0 (by simp [hst0]))
      have hg := h.guarded hst0 hw0
      by_cases hf : f = .closeDrain s
      · subst hf
        cases he with
        | cancel => exact .inr ⟨by simp, .inl rfl⟩
        | closeQueued hnil => exact absurd hnil hw0
      · obtain ⟨hloop, hrest⟩ := hg.pop (by simpa using hf)
        refine hrest.push fun hm => ?_
        rcases he.leads.2.2 hm with rfl | ⟨hne, -⟩
        · exact hloop rfl
        · exact hne hst0
    · rcases he.custody with ⟨hk, -⟩ | ⟨-, -, -, -, rfl⟩
      · rcases he.closedIff with hiff | ⟨-, hv⟩
        · exact absurd (hiff.mp hst) hst0
        · rw [hv] at hk
          exact absurd hk not_keeps_close
      · exact .inl rfl

/-- A frame that does not work for the stream. -/
theorem EndInv.other {f : Frame} (h : EndInv s v (.lib f :: rest)) (hp : f.Pushes l)
    (hs : f.stream ≠ some s) : EndInv s v (l ++ rest) := by
  refine ⟨h.used, h.last, fun hst hw => ?_⟩
  have hne : ∀ g : Frame, g.stream = some s → f ≠ g := by
    rintro g hg rfl
    exact hs hg
  obtain ⟨-, hrest⟩ := (h.guarded hst hw).pop (by simpa using hne (.closeDrain s) rfl)
  exact hrest.push (hp.noWriteLoop (hne _ rfl) fun ev => hne _ rfl)

/-! ## A call on the stream -/

theorem StreamApi.logs {k : Call} (h : StreamApi s v k v' l) : ∃ m, v'.log = v.log ++ m := by
  rcases h.poller with ⟨m, hm, -⟩ | ⟨-, fd, -, hm⟩
  · exact ⟨m, hm⟩
  · exact ⟨_, hm⟩

theorem StreamApi.ends {k : Call} (h : StreamApi s v k v' l) :
    ended s v'.log = ended s v.log ∨ v'.tcp.status = .closed ∨
      v.tcp.status = .active ∧ v'.tcp.writes = [] ∧ v'.tcp.status = .shutdown ∧
        v'.tcp.handler = v.tcp.handler := by
  cases h with
  | close => exact .inr (.inl rfl)
  | shut hst hw => exact .inr (.inr ⟨hst, hw, rfl, rfl⟩)
  | writeQueued =>
    left
    unfold StreamView.enqueue
    split <;> simp [ended, isEndOf, StreamView.setWrites, StreamView.setPollout]
  | _ =>
    left
    simp [ended, isEndOf, StreamView.setPollin, StreamView.setPollout, StreamView.setStatus,
      StreamView.connecting]

theorem StreamApi.writes_nil {k : Call} (h : StreamApi s v k v' l) (hw : v.tcp.writes = []) :
    v'.tcp.writes = [] := by
  cases h with
  | writeQueued _ hne => exact absurd hw hne
  | _ => exact hw

theorem StreamApi.used {k : Call} (h : StreamApi s v k v' l) (hu : Used s v) : Used s v' := by
  obtain ⟨m, hm⟩ := h.logs
  have keep : v.tcp.status ≠ .none ∨ v.tcp.handler ≠ none → ¬ Untried s v'.log := by
    intro hne hf
    rw [hm] at hf
    exact hu hne hf.of_append
  cases h with
  | @accept fd | @connect b fd =>
    intro _ hf
    have hopened := hf (.opened s fd) (by simp)
    simp [isCustodyObs] at hopened
  | @connectRefused b fd =>
    intro _ hf
    have hopened := hf (.abandoned s fd) (by simp)
    simp [isCustodyObs] at hopened
  | close hst =>
    intro _ hf
    have hclosed := hf (.closed s v.tcp.fd) (by simp [StreamView.close])
    simp [isCustodyObs] at hclosed
  | shut hst | shutLater hst | writeQueued hst => exact fun _ => keep (.inl (by simp [hst]))
  | _ => exact keep

theorem StreamApi.sent {k : Call} (h : StreamApi s v k v' l) :
    sentBytes s v'.log = sentBytes s v.log := by
  have quiet : ∀ log m, Fifo.sent (writeEvents s m) = [] →
      sentBytes s (log ++ m) = sentBytes s log := by
    intro log m hm
    rw [sentBytes, writeEvents_append, Fifo.sent_append, hm, List.append_nil, sentBytes]
  cases h with
  | write | writeRefused => exact quiet _ _ (by simp)
  | writeQueued =>
    unfold StreamView.enqueue
    split
    · exact quiet _ _ (by simp)
    · rw [logs_log, quiet _ _ rfl]
      exact quiet _ _ (by simp)
  | _ => first | rfl | exact quiet _ _ rfl

/-- **A call on the stream keeps its end in place.** -/
theorem EndInv.api {k : Call} (h : EndInv s v rest) (hd : DrainInv s v) (hp : k.Pushes l)
    (hopen : k.opens s = true → Untried s v.log) (ha : StreamApi s v k v' l) :
    EndInv s v' (l ++ rest) := by
  have fresh : Untried s v.log → v.tcp.status = .none := fun hf => by
    by_contra hne
    exact h.used (.inl hne) hf
  refine ⟨ha.used h.used, fun hend => ?_, fun hst hw => ?_⟩
  · rcases ha.ends with hsame | hclosed | ⟨hst, hw, hst', hh⟩
    · obtain ⟨hsil, hw⟩ := h.last (hsame ▸ hend)
      have hnone : v.tcp.status ≠ .none := by
        rcases hsil with ⟨hst, -⟩ | hst <;> simp [hst]
      have hno : k.opens s ≠ true := fun ho => hnone (fresh (hopen ho))
      obtain ⟨hsil', -⟩ := hsil.api ha ⟨fun fd hk => hno (by simp [hk, Call.opens]),
        fun b hk => hno (by simp [hk, Call.opens])⟩
      refine ⟨hsil', fun hne => ha.writes_nil (hw fun hc => ?_)⟩
      rcases ha.closedIff with hiff | ⟨hne', -⟩ | ⟨ho, -⟩
      · exact hne (hiff.mpr hc)
      · exact hne' hc
      · exact hno ho
    · exact ⟨.inr hclosed, fun hne => absurd hclosed hne⟩
    · refine ⟨.inl ⟨hst', fun hio => ?_⟩, fun _ => hw⟩
      have hnone := hd.handler (hh ▸ hio)
      simp [hst] at hnone
  · by_cases hst0 : v.tcp.status = .closed
    · exact (h.guarded hst0 fun hw0 => hw (ha.writes_nil hw0)).push hp.handles.2
    · rcases ha.closedIff with hiff | ⟨-, hv⟩ | ⟨-, hne⟩
      · exact absurd (hiff.mp hst) hst0
      · rcases ha.custody with ⟨hk, -⟩ | ⟨-, -, -, rfl⟩ | ⟨-, ho, -⟩
        · rw [hv] at hk
          exact absurd hk not_keeps_close
        · exact .inl rfl
        · rw [hv] at ho
          exact absurd ho not_opens_close
      · exact absurd hst (hne hst0)

end

/-! ## Runs -/

/-- What the application promises of a stream it sends on. -/
def SendsOnce (s : Sid) (c : Cfg) (x : Act) : Prop := FreshOps c x ∧ OpenedOnce s c x

instance (s : Sid) (c : Cfg) (x : Act) : Decidable (SendsOnce s c x) :=
  inferInstanceAs (Decidable (_ ∧ _))

section
variable {s : Sid} {c c' : Cfg} {x : Act}

theorem sentBytes_filter (log : List Obs) :
    sentBytes s (log.filter (isStreamObs s)) = sentBytes s log := by
  have hevents : writeEvents s (log.filter (isStreamObs s)) = writeEvents s log := by
    rw [writeEvents, List.filterMap_filter, writeEvents]
    apply List.filterMap_congr
    intro o _
    cases o with
    | cb k now | ctl h fd k => simp only [fifoEvent, ite_self]
    | _ => simp [isStreamObs, fifoEvent]
  rw [sentBytes, hevents, sentBytes]

theorem ended_view (w : World) : ended s (w.streamView s).log = ended s w.log := ended_filter w.log

theorem sent_view (w : World) : sentBytes s (w.streamView s).log = sentBytes s w.log :=
  sentBytes_filter w.log

/-- **Nothing is written after the FIN.** -/
theorem EndInv.step_sent (h : EndInv s (c.world.streamView s) c.stack) (ht : TryTop c)
    (hend : ended s c.world.log = true) (hs : step c x = some c') :
    sentBytes s c'.world.log = sentBytes s c.world.log := by
  obtain ⟨hsil, hw⟩ := h.last ((ended_view _).trans hend)
  rw [← sent_view, ← sent_view]
  rcases step_stream (s := s) hs with hv | ⟨a, f, rest, l, rfl, hst, -, he⟩ |
    ⟨k, a, cb, rest, l, rfl, hst, -, ha⟩
  · rw [hv]
  · refine he.sent ?_ ?_
    · rintro rfl
      by_contra hne
      by_cases hcl : (c.world.tcp s).status = .closed
      · have hg := h.guarded hcl hne
        rw [hst] at hg
        exact (hg.pop (by simp)).1 rfl
      · exact hne (hw hcl)
    · rintro op rfl
      have hact : (c.world.streamView s).tcp.status = .active :=
        ht.active s op (hst ▸ List.mem_cons_self)
      rcases hsil with ⟨hst', -⟩ | hst' <;> simp [hact] at hst'
  · exact ha.sent

/-- The FIN stays. -/
theorem ended_step (hend : ended s c.world.log = true) (hs : step c x = some c') :
    ended s c'.world.log = true := by
  rw [← ended_view] at hend ⊢
  rcases step_stream (s := s) hs with hv | ⟨a, f, rest, l, rfl, hst, -, he⟩ |
    ⟨k, a, cb, rest, l, rfl, hst, -, ha⟩
  · rw [hv]
    exact hend
  · obtain ⟨m, hm, -⟩ := he.poller
    rw [hm, ended_append, hend]
    rfl
  · obtain ⟨m, hm⟩ := ha.logs
    rw [hm, ended_append, hend]
    rfl

theorem EndInv.step (h : EndInv s (c.world.streamView s) c.stack)
    (hd : DrainInv s (c.world.streamView s)) (hok : OpenedOnce s c x) (hs : step c x = some c') :
    EndInv s (c'.world.streamView s) c'.stack := by
  rcases step_cases hs with ⟨a, f, rest, r, rfl, hst, hr, rfl⟩ |
    ⟨k, a, cb, rest, r, rfl, hst, hr, rfl⟩ | ⟨p, cb, rest, rfl, hst, hcb, rfl⟩ |
    ⟨e, w', rfl, he, rfl⟩
  · rw [hst] at h
    by_cases hfs : f.stream = some s
    · exact h.exec hd (exec_pushes hr) (exec_stream hfs hr)
    · show EndInv s (r.1.streamView s) _
      rw [exec_streamView hfs hr]
      exact h.other (exec_pushes hr) hfs
  · rw [hst] at h
    by_cases hks : k.stream = some s
    · refine h.api hd (api_pushes hr) (fun ho => (untried_filter _).mpr (hok ?_)) (api_stream hks hr)
      cases k <;> simp_all [Call.opens, Act.opens]
    · show EndInv s (r.1.streamView s) _
      rw [api_streamView hks hr]
      exact ⟨h.used, h.last, fun h1 h2 => (h.guarded h1 h2).push (api_pushes hr).handles.2⟩
  · refine ⟨h.used, h.last, fun h1 h2 => ?_⟩
    have hg := h.guarded h1 h2
    rw [hst] at hg
    exact (hg.pop (by simp)).2
  · show EndInv s (w'.streamView s) _
    rw [env_streamView he]
    exact h

/-- A stream that is opened once is not connected while it is open. -/
theorem OpenedOnce.connectsOnce (h : EndInv s (c.world.streamView s) c.stack)
    (hok : OpenedOnce s c x) : ConnectsOnce s c x := by
  unfold ConnectsOnce reconnects
  split
  · rename_i s' b a
    by_contra hne
    simp only [Bool.not_eq_false, Bool.and_eq_true, decide_eq_true_eq, Bool.or_eq_true] at hne
    obtain ⟨rfl, hst⟩ := hne
    have hfresh : Untried s' c.world.log := hok (by simp [Act.opens])
    refine h.used (.inl fun hnone => ?_) ((untried_filter _).mpr hfresh)
    have hnone : (c.world.tcp s').status = .none := hnone
    simp [hnone] at hst
  · rfl

theorem SendsOnce.run (r : Run (SendsOnce s) c) :
    Run (ConnectsOnce s) c ∧ EndInv s (c.world.streamView s) c.stack := by
  induction r with
  | init hi =>
    refine ⟨.init hi, ?_⟩
    obtain ⟨k, fd, -, -, rfl⟩ := hi
    refine ⟨fun hne => ?_, fun hend => ?_, fun hst => ?_⟩
    · simp [streamView, World.init, pdTcpInit] at hne
    · simp [streamView, World.init, ended] at hend
    · simp [streamView, World.init, pdTcpInit] at hst
  | step _ hok hs ih =>
    obtain ⟨hrun, hinv⟩ := ih
    exact ⟨hrun.step (hok.2.connectsOnce hinv) hs, hinv.step (Run.drainInv hrun).1 hok.2 hs⟩

/-- The buffer of an operation. -/
def World.buffer (w : World) (s : Sid) (op : Op) : List UInt8 :=
  match w.op s op with
  | some r => r.data
  | none => []

/-- An accepted operation was finished, with success if it has a callback. -/
def Succeeded (s : Sid) (op : Op) (log : List Obs) : Prop :=
  .called s op 0 ∈ log ∨ .uncalled s op ∈ log

/-- **What was written is what was accepted**, once every operation was finished with success. -/
theorem sent_of_finished (r : Run FreshOps c)
    (h : ∀ op ∈ acceptedOps s c.world.log, Succeeded s op c.world.log) :
    sentBytes s c.world.log = (acceptedOps s c.world.log).flatMap (c.world.buffer s) := by
  have i := (Run.writeInv r).2 s
  have b := Run.bytesInv r s
  have ht : Fifo.Trace (writeEvents s c.world.log) (inFlight s c.stack ++ (c.world.tcp s).writes) := by
    rw [← writeEvents_filter]
    exact i.trace
  calc sentBytes s c.world.log
      = (acceptedOps s c.world.log).flatMap (fun op => sentOf s op c.world.log) := ht.sent_eq
    _ = (acceptedOps s c.world.log).flatMap (c.world.buffer s) := by
      apply List.flatMap_congr
      intro op hop
      obtain ⟨wr, hwr⟩ : ∃ wr, c.world.op s op = some wr := by
        refine Option.ne_none_iff_exists'.mp fun hn => (i.known op hn).1 ?_
        rw [acceptedOps] at hop ⊢
        simpa [Cfg.writeView, writeView, writeEvents_filter] using hop
      have hprefix : sentOf s op c.world.log <+: wr.data := by
        rw [← sentOf_filter]
        exact b.sent_prefix op wr hwr
      obtain ⟨e, he, hm⟩ : ∃ e, (e = .called s op 0 ∨ e = .uncalled s op) ∧ e ∈ c.world.log := by
        rcases h op hop with hc | hu
        · exact ⟨_, .inl rfl, hc⟩
        · exact ⟨_, .inr rfl, hu⟩
      obtain ⟨l1, l2, hl⟩ := List.append_of_mem hm
      have hw : isWriteObs s e = true := by rcases he with rfl | rfl <;> simp [isWriteObs]
      have hfull := Past.of_filter b.full l1 e l2 hl hw op wr he hwr
      rw [sentOf_filter] at hfull
      rw [World.buffer, hwr]
      rw [hl] at hprefix ⊢
      exact sentOf_full hfull hprefix

end

end Pandio
