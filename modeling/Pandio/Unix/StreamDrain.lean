import Pandio.Unix.StreamSteps
import Pandio.Unix.WriteOrder

/- How a stream's queue of writes is drained. An operation that waits has writable
   events asked for, and so has a shutdown that waits for it; `shutdown` is issued when
   the queue is empty, and what `pd_tcp_shutdown` has stopped does not start again. The
   flag is cleared by the function that connects, too: so a stream that is open must
   not be connected once more. -/
namespace Pandio
open World

/-! ## The invariant of one stream -/

/-- The stream gets a descriptor, or stops sending. -/
def turnsStream (s : Sid) : Obs → Bool
  | .shutdown s' _ | .opened s' _ => s' = s
  | _ => false

/-- `shutdown` was issued for the stream's descriptor. -/
def shutdownIssued (s : Sid) (log : List Obs) : Bool :=
  match (log.filter (turnsStream s)).getLast? with
  | some (.shutdown _ _) => true
  | _ => false

/-- No accepted operation was unfinished when `shutdown` was issued. -/
def DrainedFirst (s : Sid) (past : List Obs) (o : Obs) : Prop :=
  ∀ fd, o = .shutdown s fd → acceptedOps s past = Fifo.finished (writeEvents s past)

structure DrainInv (s : Sid) (v : StreamView) : Prop where
  handler : v.tcp.handler = some .connectIo → v.tcp.status = .none ∨ v.tcp.status = .closed
  fresh : v.tcp.status = .none → v.tcp.writes = []
  pollout : v.tcp.writes ≠ [] → v.tcp.flags.pollout = true
  shutdown : v.tcp.status = .shutdown →
    shutdownIssued s v.log = true ∨ v.tcp.flags.pollout = true

/-- The step connects a stream that is open. -/
def reconnects (s : Sid) (c : Cfg) (x : Act) : Bool :=
  match x with
  | .api (.tcpConnect s' _) _ =>
    s' = s && ((c.world.tcp s).status = .active || (c.world.tcp s).status = .shutdown)
  | _ => false

/-- `pd_tcp_connect` is not called for an open stream. -/
def ConnectsOnce (s : Sid) (c : Cfg) (x : Act) : Prop := reconnects s c x = false

instance (s : Sid) (c : Cfg) (x : Act) : Decidable (ConnectsOnce s c x) :=
  inferInstanceAs (Decidable (_ = _))

section
variable {s : Sid} {v v' : StreamView} {now : Nat} {l : List Item}

theorem shutdownIssued_append {log m : List Obs} (h : m.filter (turnsStream s) = []) :
    shutdownIssued s (log ++ m) = shutdownIssued s log := by
  simp only [shutdownIssued, List.filter_append, h, List.append_nil]

theorem shutdownIssued_filter (log : List Obs) :
    shutdownIssued s (log.filter (isStreamObs s)) = shutdownIssued s log := by
  have : (log.filter (isStreamObs s)).filter (turnsStream s) = log.filter (turnsStream s) := by
    rw [List.filter_filter]
    apply List.filter_congr
    intro o _
    cases o <;> simp [turnsStream, isStreamObs]
  simp only [shutdownIssued, this]

theorem DrainInv.logs {m : List Obs} (i : DrainInv s v) (h : m.filter (turnsStream s) = []) :
    DrainInv s (v.logs m) where
  handler := i.handler
  fresh := i.fresh
  pollout := i.pollout
  shutdown := by
    rw [logs_log, shutdownIssued_append h]
    exact i.shutdown

/-- An operation leaves the queue. -/
theorem DrainInv.pop {op : Op} {rest : List Op} (i : DrainInv s v) (h : v.tcp.writes = op :: rest) :
    DrainInv s (v.setWrites rest) where
  handler := i.handler
  fresh := fun hst => by
    have := i.fresh hst
    rw [h] at this
    cases this
  pollout := fun _ => i.pollout (by simp [h])
  shutdown := i.shutdown

theorem DrainInv.enqueue {op : Op} (i : DrainInv s v) (hst : v.tcp.status = .active) :
    DrainInv s (v.enqueue s op) := by
  unfold StreamView.enqueue
  split
  · rename_i hout
    exact ⟨i.handler, fun h => by simp_all [StreamView.setWrites], fun _ => hout, fun _ => .inr hout⟩
  · refine DrainInv.logs ⟨i.handler, fun h => ?_, fun _ => rfl, fun _ => .inr rfl⟩ rfl
    simp_all [StreamView.setWrites, StreamView.setPollout]

theorem DrainInv.close (i : DrainInv s v) : DrainInv s (v.close s) := by
  refine DrainInv.logs ⟨fun _ => .inr rfl, ?_, i.pollout, ?_⟩ rfl
  all_goals
    intro h
    cases h

/-- The connection is established: nothing was written before. -/
theorem DrainInv.connected (i : DrainInv s v) (hh : v.tcp.handler = some .connectIo)
    (hst : v.tcp.status ≠ .closed) : DrainInv s (v.connected s) := by
  have hw := i.fresh ((i.handler hh).resolve_right hst)
  refine DrainInv.logs ⟨?_, fun _ => hw, fun h => absurd hw h, ?_⟩ rfl
  all_goals
    intro h
    cases h

theorem DrainInv.exec {f : Frame} (i : DrainInv s v) (h : StreamExec s now v f v' l) :
    DrainInv s v' := by
  cases h with
  | cancel hw => exact (i.pop hw).logs rfl
  | close _ | ioClose _ _ => exact i.close
  | tryQueued hst => exact (i.logs rfl).enqueue hst
  | loopFailed hw | loopCalled hw | loopUncalled hw => exact (i.pop hw).logs rfl
  | loopEnd hw hst =>
    exact DrainInv.logs ⟨i.handler, i.fresh, fun h => absurd hw h, fun h => absurd h hst⟩ rfl
  | loopShut hw hst =>
    refine ⟨i.handler, i.fresh, fun h => absurd hw h, fun _ => .inl ?_⟩
    simp [shutdownIssued, StreamView.setPollout, turnsStream]
  | connected hh hst => exact i.connected hh hst
  | connectedCalled hh hst => exact (i.connected hh hst).logs rfl
  | _ => first | exact i | exact i.logs rfl

theorem DrainInv.api {c : Call} (i : DrainInv s v) (h : StreamApi s v c v' l)
    (hc : ∀ b, c = .tcpConnect s b → v.tcp.status = .none ∨ v.tcp.status = .closed) :
    DrainInv s v' := by
  cases h with
  | accept =>
    constructor
    · intro h
      cases h
    · intro h
      cases h
    · exact i.pollout
    · intro h
      cases h
  | @connectRefused b fd | @connect b fd =>
    exact ⟨fun _ => hc b rfl, i.fresh, fun _ => rfl, fun _ => .inr rfl⟩
  | writeQueued hst _ => exact (i.logs rfl).enqueue hst
  | close _ => exact i.close
  | shut hst hw =>
    constructor
    · intro hh
      have := i.handler hh
      rw [hst] at this
      simp at this
    · intro h
      cases h
    · exact fun h => absurd hw h
    · intro _
      simp [shutdownIssued, turnsStream]
  | shutLater hst hw =>
    refine DrainInv.logs ⟨?_, ?_, fun _ => rfl, fun _ => .inr rfl⟩ rfl
    · intro hh
      have := i.handler hh
      rw [hst] at this
      simp at this
    · intro h
      cases h
  | pause | resume => exact DrainInv.logs ⟨i.handler, i.fresh, i.pollout, i.shutdown⟩ rfl
  | setOnData | setOnClose => exact ⟨i.handler, i.fresh, i.pollout, i.shutdown⟩
  | _ => first | exact i | exact i.logs rfl

end

/-! ## When `shutdown` is issued -/

section
variable {s : Sid} {v v' : StreamView} {now : Nat} {l : List Item}

/-- Entries other than `shutdown` are logged. -/
theorem drainedFirst_append {log m : List Obs} (hp : Past (DrainedFirst s) log)
    (hm : ∀ o ∈ m, ∀ fd, o ≠ .shutdown s fd) : Past (DrainedFirst s) (log ++ m) := by
  induction m generalizing log with
  | nil => simpa using hp
  | cons o m ih =>
    rw [List.append_cons]
    refine ih (hp.snoc fun fd he => absurd he (hm o List.mem_cons_self fd)) fun o' ho' => ?_
    exact hm o' (List.mem_cons_of_mem o ho')

theorem drainedFirst_enqueue {op : Op} (hp : Past (DrainedFirst s) v.log) :
    Past (DrainedFirst s) (v.enqueue s op).log := by
  unfold StreamView.enqueue
  split
  · exact hp
  · exact drainedFirst_append hp (by simp)

/-- The library issues `shutdown` when it finds the queue empty. -/
theorem StreamExec.drainedFirst {f : Frame} (h : StreamExec s now v f v' l)
    (hp : Past (DrainedFirst s) v.log)
    (hf : f = .writeLoop s → v.tcp.writes = [] →
      acceptedOps s v.log = Fifo.finished (writeEvents s v.log)) :
    Past (DrainedFirst s) v'.log := by
  cases h with
  | loopShut hw hst =>
    refine hp.snoc₂ (fun fd he => by cases he) fun fd _ => ?_
    have hctl : writeEvents s [.ctl (.tcp s) v.tcp.fd .mod] = [] := rfl
    simpa [acceptedOps, StreamView.setPollout, hctl] using hf rfl hw
  | tryQueued hst => exact drainedFirst_enqueue (drainedFirst_append hp (by simp))
  | connectedCalled _ _ => exact drainedFirst_append (drainedFirst_append hp (by simp)) (by simp)
  | _ => first | exact hp | exact drainedFirst_append hp (by simp)

/-- So does `pd_tcp_shutdown`. -/
theorem StreamApi.drainedFirst {c : Call} (h : StreamApi s v c v' l)
    (hp : Past (DrainedFirst s) v.log)
    (hw : v.tcp.writes = [] → acceptedOps s v.log = Fifo.finished (writeEvents s v.log)) :
    Past (DrainedFirst s) v'.log := by
  cases h with
  | shut hst hempty => exact hp.snoc fun fd _ => hw hempty
  | writeQueued _ _ => exact drainedFirst_enqueue (drainedFirst_append hp (by simp))
  | _ => first | exact hp | exact drainedFirst_append hp (by simp)

/-! ## What is accepted after `pd_tcp_shutdown` -/

/-- The stream does not send: it was shut down and is not to be connected, or it was closed. -/
def Silent (v : StreamView) : Prop :=
  v.tcp.status = .shutdown ∧ v.tcp.handler ≠ some .connectIo ∨ v.tcp.status = .closed

theorem acceptedOps_append {log m : List Obs} (hm : ∀ o ∈ m, ∀ op, o ≠ .accepted s op) :
    acceptedOps s (log ++ m) = acceptedOps s log := by
  have : acceptedOps s m = [] := by
    apply List.filterMap_eq_nil_iff.mpr
    intro ev hev
    obtain ⟨o, ho, he⟩ := List.mem_filterMap.mp hev
    have hne := hm o ho
    cases o with
    | accepted s' op =>
      simp only [fifoEvent, Option.ite_none_right_eq_some] at he
      exact absurd (by rw [he.1]) (hne op)
    | called s' op st | uncalled s' op | write s' fd op bytes =>
      simp only [fifoEvent, Option.ite_none_right_eq_some, Option.some.injEq] at he
      rw [← he.2]
    | _ => cases he
  unfold acceptedOps at this ⊢
  rw [writeEvents_append, Fifo.accepted_append, this, List.append_nil]

theorem Silent.exec {f : Frame} (hs : Silent v) (h : StreamExec s now v f v' l) :
    Silent v' ∧ acceptedOps s v'.log = acceptedOps s v.log := by
  have open_ : v.tcp.status ≠ .closed → v.tcp.handler ≠ some .connectIo :=
    fun hne => (hs.resolve_right hne).2
  cases h with
  | close _ | ioClose _ _ => exact ⟨.inr rfl, acceptedOps_append (by simp)⟩
  | tryQueued hst =>
    rcases hs with ⟨hs, _⟩ | hs <;> simp_all
  | connected hh hst | connectedCalled hh hst => exact absurd hh (open_ hst)
  | _ => first | exact ⟨hs, rfl⟩ | exact ⟨hs, acceptedOps_append (by simp)⟩

theorem Silent.api {c : Call} (hs : Silent v) (h : StreamApi s v c v' l)
    (hc : (∀ fd, c ≠ .tcpAccept s fd) ∧ ∀ b, c ≠ .tcpConnect s b) :
    Silent v' ∧ acceptedOps s v'.log = acceptedOps s v.log := by
  have idle : v.tcp.status ≠ .active := by
    rcases hs with ⟨hs, _⟩ | hs <;> simp [hs]
  cases h with
  | accept => exact absurd rfl (hc.1 _)
  | connectNothing | connectRefused | connect => exact absurd rfl (hc.2 _)
  | write hst _ | writeQueued hst _ | shut hst _ | shutLater hst _ => exact absurd hst idle
  | close _ => exact ⟨.inr rfl, acceptedOps_append (by simp)⟩
  | _ => first | exact ⟨hs, rfl⟩ | exact ⟨hs, acceptedOps_append (by simp)⟩

end

/-! ## Runs -/

section
variable {c c' : Cfg} {x : Act} {s : Sid}

/-- The step gives the stream a descriptor. -/
def Act.opens (s : Sid) : Act → Bool
  | .api (.tcpAccept s' _) _ | .api (.tcpConnect s' _) _ => s' = s
  | _ => false

theorem acceptedOps_filter (log : List Obs) :
    acceptedOps s (log.filter (isStreamObs s)) = acceptedOps s log ∧
      Fifo.finished (writeEvents s (log.filter (isStreamObs s))) =
        Fifo.finished (writeEvents s log) := by
  have : writeEvents s (log.filter (isStreamObs s)) = writeEvents s log := by
    rw [writeEvents, List.filterMap_filter, writeEvents]
    refine List.filterMap_congr fun o _ => ?_
    cases o with
    | cb k now | ctl h fd k => simp only [fifoEvent, ite_self]
    | _ => simp [isStreamObs, fifoEvent]
  simp only [acceptedOps, this, and_self]

/-- With an empty queue and none on its way, every accepted operation is finished. -/
theorem Run.allFinished {ok : Cfg → Act → Prop} (r : Run ok c) (hf : inFlight s c.stack = [])
    (hw : (c.world.tcp s).writes = []) : acceptedOps s (c.world.streamView s).log =
      Fifo.finished (writeEvents s (c.world.streamView s).log) := by
  have hsplit := ((Run.writeInv r).2 s).trace.split
  simp only [Cfg.writeView, World.writeView, writeEvents_filter, hf, hw, List.append_nil] at hsplit
  obtain ⟨h1, h2⟩ := acceptedOps_filter (s := s) c.world.log
  rw [World.streamView, h1, h2]
  exact hsplit

/-- **How a stream drains.** Operations that wait, and a shutdown that waits for them, have writable
events asked for; `shutdown` is issued after the last accepted operation was finished; after
`pd_tcp_shutdown` of an active stream no operation is accepted until the stream is opened again; and
of another stream it does nothing. -/
structure Drains (s : Sid) (c : Cfg) : Prop where
  pollout : (c.world.tcp s).status ≠ .closed → (c.world.tcp s).writes ≠ [] →
    (c.world.tcp s).flags.pollout = true
  shutdown : (c.world.tcp s).status = .shutdown →
    shutdownIssued s c.world.log = true ∨ (c.world.tcp s).flags.pollout = true
  drained : Past (DrainedFirst s) c.world.log
  refused : ∀ a c1 c2, (c.world.tcp s).status = .active →
    step c (.api (.tcpShutdown s) a) = some c1 →
    Machine.Reach step (fun _ x => x.opens s = false) (· = c1) c2 →
    acceptedOps s c2.world.log = acceptedOps s c.world.log
  ignored : ∀ a c1, (c.world.tcp s).status ≠ .active →
    step c (.api (.tcpShutdown s) a) = some c1 → c1 = c

theorem Run.drainInv (r : Run (ConnectsOnce s) c) : DrainInv s (c.world.streamView s) ∧
    Past (DrainedFirst s) (c.world.streamView s).log := by
  refine Machine.Reach.invariant (P := fun c => DrainInv s (c.world.streamView s) ∧
    Past (DrainedFirst s) (c.world.streamView s).log) ?_ ?_ r
  · rintro c ⟨k, fd, -, -, rfl⟩
    refine ⟨⟨?_, fun _ => rfl, fun h => absurd rfl h, ?_⟩, Past.nil⟩
    all_goals
      intro h
      cases h
  · rintro c x c' r ⟨hi, hp⟩ hok hs
    rcases step_stream (s := s) hs with he | ⟨a, f, rest, l, rfl, hst, _, hm⟩ |
      ⟨k, a, cb, rest, l, rfl, hst, _, hm⟩
    · rw [he]
      exact ⟨hi, hp⟩
    · refine ⟨hi.exec hm, hm.drainedFirst hp ?_⟩
      rintro rfl hw
      exact Run.allFinished r (by rw [hst]; rfl) hw
    · refine ⟨hi.api hm ?_, hm.drainedFirst hp fun hw => Run.allFinished r (by rw [hst]; rfl) hw⟩
      rintro b rfl
      have hne : reconnects s c (.api (.tcpConnect s b) a) = false := hok
      simp only [reconnects, decide_true, Bool.true_and, Bool.or_eq_false_iff,
        decide_eq_false_iff_not] at hne
      rw [← tcp_eq]
      cases hst' : (c.world.tcp s).status with
      | none => exact .inl rfl
      | closed => exact .inr rfl
      | active => exact absurd hst' hne.1
      | shutdown => exact absurd hst' hne.2

/-- `pd_tcp_shutdown` of an active stream silences it, and accepts nothing. -/
theorem DrainInv.shut {a : Answer} (i : DrainInv s (c.world.streamView s))
    (hst : (c.world.tcp s).status = .active) (hs : step c (.api (.tcpShutdown s) a) = some c') :
    Silent (c'.world.streamView s) ∧
      acceptedOps s (c'.world.streamView s).log = acceptedOps s (c.world.streamView s).log := by
  have hidle : (c.world.tcp s).handler ≠ some .connectIo := by
    intro hh
    have := i.handler hh
    rw [← tcp_eq, hst] at this
    simp at this
  rcases step_cases hs with ⟨a, f, rest, r, hx, _⟩ | ⟨k, a, cb, rest, r, hx, _, hr, rfl⟩ |
    ⟨p, cb, rest, hx, _⟩ | ⟨e, w', hx, _⟩
  · cases hx
  · cases hx
    have hm := api_stream (s := s) rfl hr
    generalize r.1.streamView s = v' at hm ⊢
    generalize r.2 = l at hm
    cases hm with
    | shutNothing hne => exact absurd hst hne
    | shut _ _ | shutLater _ _ => exact ⟨.inl ⟨rfl, hidle⟩, acceptedOps_append (by simp)⟩
  · cases hx
  · cases hx

/-- `pd_tcp_shutdown` of a stream that is not active does nothing. -/
theorem step_shutdown_idle {a : Answer} (hst : (c.world.tcp s).status ≠ .active)
    (hs : step c (.api (.tcpShutdown s) a) = some c') : c' = c := by
  rcases step_cases hs with ⟨_, _, _, _, hx, -⟩ | ⟨k, a, cb, rest, r, hx, hstack, hr, rfl⟩ |
    ⟨_, _, _, hx, -⟩ | ⟨_, _, hx, -⟩
  · cases hx
  · cases hx
    cases hr
    have hidle : pdTcpShutdown c.world s a = c.world := if_pos hst
    rw [hidle]
    exact congrArg (Cfg.mk c.world) hstack.symm
  · cases hx
  · cases hx

/-- **Streams drain**, when no open stream is connected once more. -/
theorem stream_drains (r : Run (ConnectsOnce s) c) : Drains s c := by
  obtain ⟨hi, hp⟩ := Run.drainInv r
  refine ⟨fun _ => hi.pollout, ?_, ?_, ?_, fun a c1 hst hs => step_shutdown_idle hst hs⟩
  · intro hst
    rw [← shutdownIssued_filter]
    exact hi.shutdown hst
  · refine hp.of_filter.mono ?_
    rintro past o ho fd rfl
    have := ho (by simp [isStreamObs]) fd rfl
    rwa [(acceptedOps_filter past).1, (acceptedOps_filter past).2] at this
  · intro a c1 c2 hst hs hr
    have hfilter : ∀ c : Cfg, acceptedOps s c.world.log = acceptedOps s (c.world.streamView s).log :=
      fun c => (acceptedOps_filter c.world.log).1.symm
    -- from the shutdown on, no operation is accepted
    have hkeep : ∀ c', Machine.Reach step (fun _ x => x.opens s = false) (· = c1) c' →
        Silent (c'.world.streamView s) ∧ acceptedOps s (c'.world.streamView s).log =
          acceptedOps s (c.world.streamView s).log := by
      refine fun c' hr => Machine.Reach.invariant (P := fun c' => Silent (c'.world.streamView s) ∧
        acceptedOps s (c'.world.streamView s).log = acceptedOps s (c.world.streamView s).log)
        ?_ ?_ hr
      · rintro c1' rfl
        exact hi.shut hst hs
      · rintro c' x c'' _ ⟨hsil, hacc⟩ hok hs
        rcases step_stream (s := s) hs with he | ⟨a, f, rest, l, rfl, hst, _, hm⟩ |
          ⟨k, a, cb, rest, l, rfl, hst, _, hm⟩
        · rw [he]
          exact ⟨hsil, hacc⟩
        · obtain ⟨h1, h2⟩ := hsil.exec hm
          exact ⟨h1, h2.trans hacc⟩
        · obtain ⟨h1, h2⟩ := hsil.api hm (by
            constructor
            · rintro fd rfl
              simp [Act.opens] at hok
            · rintro b rfl
              simp [Act.opens] at hok)
          exact ⟨h1, h2.trans hacc⟩
    rw [hfilter, hfilter]
    exact (hkeep c2 hr).2

/-- A stream is shut down with a write waiting, which is then finished. -/
theorem stream_drains_shutdown : ∃ c, Run (ConnectsOnce 0) c ∧
    (c.world.tcp 0).status = .shutdown ∧ (c.world.tcp 0).flags.pollout = false ∧
    shutdownIssued 0 c.world.log = true ∧ Drains 0 c := by
  have r : Run (ConnectsOnce 0) _ := Run.play (Cfg.start_init [5])
    [.api (.tcpAccept 0 5) (.ok 0 []),
      .api (.tcpWrite 0 0 (pdWriteInit [1, 2] true (by decide))) (.ok 0 []), .lib (.ok 1 []),
      .api (.tcpShutdown 0) (.ok 0 []), .api .ioRun (.ok 0 []),
      .lib (.ok 0 [(5, ⟨false, true, false, false, false⟩)]), .lib (.ok 0 []), .lib (.ok 0 []),
      .lib (.ok 1 []), .ret none, .lib (.ok 0 [])] rfl
  exact ⟨_, r, rfl, rfl, rfl, stream_drains r⟩

/-- An open stream is connected once more, with a write waiting for the new connection: when it is
there, the loop goes on without asking for writable events. -/
theorem connected_again : ∃ c, Run AnyStep c ∧
    c.stack = [.lib .timersRun, .lib .pendingClose, .lib .ioAfterTick, .lib .ioNext, .app .main] ∧
    (c.world.tcp 0).status = .active ∧ (c.world.tcp 0).writes = [0] ∧
    (c.world.tcp 0).flags.pollout = false := by
  have r : Run AnyStep _ := Run.play (Cfg.start_init [5])
    [.api (.tcpAccept 0 5) (.ok 0 []), .api (.tcpConnect 0 false) (.ok 6 []),
      .api (.tcpWrite 0 0 (pdWriteInit [1] true (by decide))) (.ok 0 []), .lib .again,
      .api .ioRun (.ok 0 []), .lib (.ok 0 [(6, ⟨false, true, false, false, false⟩)]),
      .lib (.ok 0 [])] rfl
  exact ⟨_, r, rfl, rfl, rfl, rfl⟩

/-- A stream that is still connecting is shut down, which does nothing, and accepts an operation in
its `on_connect`. -/
theorem shutdown_early : ∃ c c1 c2, Run AnyStep c ∧
    step c (.api (.tcpShutdown 0) (.ok 0 [])) = some c1 ∧
    Machine.Reach step (fun _ x => x.opens 0 = false) (· = c1) c2 ∧
    acceptedOps 0 c.world.log = [] ∧ acceptedOps 0 c2.world.log = [0] := by
  have r : Run AnyStep _ := Run.play (Cfg.start_init [])
    [.api (.tcpConnect 0 true) (.ok 6 [])] rfl
  refine ⟨_, _, _, r, rfl, Machine.Reach.play (.init rfl) (l :=
    [.api .ioRun (.ok 0 []), .lib (.ok 0 [(6, ⟨false, true, false, false, false⟩)]), .lib (.ok 0 []),
      .api (.tcpWrite 0 0 (pdWriteInit [1] true (by decide))) (.ok 0 [])]) rfl, rfl, rfl⟩

/-- Neither holds of every run. -/
theorem not_stream_drains :
    (¬ ∀ c, Run AnyStep c → ∀ s rest, c.stack = .lib .timersRun :: rest →
      (c.world.tcp s).status ≠ .closed → (c.world.tcp s).writes ≠ [] →
      (c.world.tcp s).flags.pollout = true) ∧
    ¬ ∀ c c1 c2 s a, Run AnyStep c → step c (.api (.tcpShutdown s) a) = some c1 →
      Machine.Reach step (fun _ x => x.opens s = false) (· = c1) c2 →
      acceptedOps s c2.world.log = acceptedOps s c.world.log := by
  constructor
  · intro h
    obtain ⟨c, r, hst, hactive, hw, hout⟩ := connected_again
    have := h c r 0 _ hst (by rw [hactive]; decide) (by rw [hw]; decide)
    rw [hout] at this
    cases this
  · intro h
    obtain ⟨c, c1, c2, r, hs, hr, h0, h1⟩ := shutdown_early
    have := h c c1 c2 0 _ r hs hr
    rw [h0, h1] at this
    cases this

end

end Pandio
