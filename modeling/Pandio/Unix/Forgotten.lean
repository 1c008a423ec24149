import Pandio.Unix.AnyPoller

/- Steps that do not look at a piece of memory. What the application does with the memory of
   a stream or of a write operation is seen only by the frames and calls that work for it:
   every other step does the same whatever is there. -/
namespace Pandio
open World

/-- What is written over the memory of streams and operations; `none` leaves it alone. -/
structure Scrap where
  tcp : Sid → Option Tcp
  op : Sid → Op → Option (Option WriteOp)

/-- Something else is written there. -/
def World.overwrite (w : World) (m : Scrap) : World :=
  { w with
    tcp := fun s => (m.tcp s).getD (w.tcp s)
    op := fun s i => (m.op s i).getD (w.op s i) }

/-- The result of a step, in a state that was written over. -/
def overwritten (m : Scrap) (r : World × List Item) : World × List Item := (r.1.overwrite m, r.2)

section
variable (w : World) (m : Scrap)

/-! ## Updates -/

@[simp] theorem overwrite_kernel : (w.overwrite m).kernel = w.kernel := rfl

@[simp] theorem overwrite_server : (w.overwrite m).server = w.server := rfl

@[simp] theorem overwrite_timer : (w.overwrite m).timer = w.timer := rfl

@[simp] theorem overwrite_timers : (w.overwrite m).timers = w.timers := rfl

@[simp] theorem overwrite_now : (w.overwrite m).now = w.now := rfl

@[simp] theorem overwrite_refs : (w.overwrite m).refs = w.refs := rfl

@[simp] theorem overwrite_task : (w.overwrite m).task = w.task := rfl

@[simp] theorem overwrite_ptr : (w.overwrite m).ptr = w.ptr := rfl

@[simp] theorem overwrite_pdErrno : (w.overwrite m).pdErrno = w.pdErrno := rfl

@[simp] theorem overwrite_signaled : (w.overwrite m).signaled = w.signaled := rfl

@[simp] theorem overwrite_pendingCloses : (w.overwrite m).pendingCloses = w.pendingCloses := rfl

@[simp] theorem overwrite_poolTasks : (w.overwrite m).poolTasks = w.poolTasks := rfl

@[simp] theorem overwrite_finishedTasks : (w.overwrite m).finishedTasks = w.finishedTasks := rfl

@[simp] theorem overwrite_afterTick : (w.overwrite m).afterTick = w.afterTick := rfl

@[simp] theorem overwrite_logObs (e : Obs) :
    (w.overwrite m).logObs e = (w.logObs e).overwrite m := rfl

@[simp] theorem overwrite_setKernel (k : Kernel) :
    (w.overwrite m).setKernel k = (w.setKernel k).overwrite m := rfl

@[simp] theorem overwrite_setErrno (r : SysRes) :
    (w.overwrite m).setErrno r = (w.setErrno r).overwrite m := by cases r <;> rfl

@[simp] theorem overwrite_setServer (l : Lid) (r : TcpServer) :
    (w.overwrite m).setServer l r = (w.setServer l r).overwrite m := rfl

@[simp] theorem overwrite_setTimer (i : Tid) (r : Timer) :
    (w.overwrite m).setTimer i r = (w.setTimer i r).overwrite m := rfl

@[simp] theorem overwrite_setTimers (h : Heap Tid) :
    (w.overwrite m).setTimers h = (w.setTimers h).overwrite m := rfl

@[simp] theorem overwrite_setNow (n : Nat) :
    (w.overwrite m).setNow n = (w.setNow n).overwrite m := rfl

@[simp] theorem overwrite_setPendingCloses (q : LinkedQueue Sid) :
    (w.overwrite m).setPendingCloses q = (w.setPendingCloses q).overwrite m := rfl

@[simp] theorem overwrite_setTasks (p f : List Task) (b : Bool) :
    (w.overwrite m).setTasks p f b = (w.setTasks p f b).overwrite m := rfl

@[simp] theorem overwrite_addTask (k : Task) (b : Bool) :
    (w.overwrite m).addTask k b = (w.addTask k b).overwrite m := rfl

@[simp] theorem overwrite_dropTask (k : Task) :
    (w.overwrite m).dropTask k = (w.dropTask k).overwrite m := rfl

@[simp] theorem overwrite_setAfterTick (b : Bool) :
    (w.overwrite m).setAfterTick b = (w.setAfterTick b).overwrite m := rfl

@[simp] theorem overwrite_setPtr (p : Option Nat) :
    (w.overwrite m).setPtr p = (w.setPtr p).overwrite m := rfl

@[simp] theorem overwrite_setResult (n : Int) :
    (w.overwrite m).setResult n = (w.setResult n).overwrite m := rfl

@[simp] theorem overwrite_incRefs (x : Owner) :
    (w.overwrite m).incRefs x = (w.incRefs x).overwrite m := rfl

@[simp] theorem overwrite_decRefs (x : Owner) :
    (w.overwrite m).decRefs x = (w.decRefs x).overwrite m := rfl

@[simp] theorem overwrite_closeQuietly (fd : Fd) (r : SysRes) :
    closeQuietly (w.overwrite m) fd r = (closeQuietly w fd r).overwrite m := by
  simp [closeQuietly]

@[simp] theorem overwrite_failErrno :
    failErrno (w.overwrite m) = (failErrno w).overwrite m := rfl

@[simp] theorem overwrite_goOn (fs : List Frame) :
    (w.overwrite m).goOn fs = overwritten m (w.goOn fs) := rfl

@[simp] theorem overwrite_call (k : Cb) (fs : List Frame) :
    (w.overwrite m).call k fs = overwritten m (w.call k fs) := rfl

/-! ## A stream that is left alone -/

section
variable {s : Sid} (hs : m.tcp s = none)
include hs

theorem overwrite_tcp : (w.overwrite m).tcp s = w.tcp s := by simp [overwrite, hs]

theorem overwrite_setTcp (r : Tcp) :
    (w.overwrite m).setTcp s r = (w.setTcp s r).overwrite m := by
  have htcp : Function.update (w.overwrite m).tcp s r =
      fun x => (m.tcp x).getD (Function.update w.tcp s r x) := by
    funext x
    by_cases hx : x = s
    · subst hx
      simp [hs]
    · simp [hx, overwrite]
  simp only [overwrite, setTcp] at htcp ⊢
  rw [htcp]

theorem overwrite_pd_eventAdd (r : SysRes) :
    pd_eventAdd (w.overwrite m) s r = (pd_eventAdd w s r).overwrite m := by
  simp [pd_eventAdd, overwrite_tcp, hs]

theorem overwrite_pd_eventSet (r : SysRes) :
    pd_eventSet (w.overwrite m) s r = (pd_eventSet w s r).overwrite m := by
  simp [pd_eventSet, overwrite_tcp, hs]

theorem overwrite_pd_eventDel (r : SysRes) :
    pd_eventDel (w.overwrite m) s r = (pd_eventDel w s r).overwrite m := by
  simp [pd_eventDel, overwrite_tcp, hs]

theorem overwrite_setPollin (b : Bool) :
    setPollin (w.overwrite m) s b = (setPollin w s b).overwrite m := by
  simp [setPollin, overwrite_tcp, overwrite_setTcp, hs]

theorem overwrite_setPollout (b : Bool) :
    setPollout (w.overwrite m) s b = (setPollout w s b).overwrite m := by
  simp [setPollout, overwrite_tcp, overwrite_setTcp, hs]

theorem overwrite_shutdownWr (r : SysRes) :
    shutdownWr (w.overwrite m) s r = (shutdownWr w s r).overwrite m := by
  simp [shutdownWr, overwrite_tcp, hs]

theorem overwrite_pdTcpClose (a : Answer) :
    pdTcpClose (w.overwrite m) s a = overwritten m (pdTcpClose w s a) := by
  simp only [pdTcpClose, overwrite_tcp, overwrite_setTcp, overwrite_pd_eventDel, hs,
    overwrite_kernel, overwrite_setKernel, overwrite_goOn]
  split <;> rfl

theorem overwrite_callOnData (buf : Option Nat) (size : Int) (bytes : List UInt8)
    (fs : List Frame) : callOnData (w.overwrite m) s buf size bytes fs =
      (callOnData w s buf size bytes fs).map (overwritten m) := by
  simp only [callOnData, overwrite_tcp _ _ hs]
  split <;> rfl

theorem overwrite_readAlloc :
    readAlloc (w.overwrite m) s = (readAlloc w s).map (overwritten m) := by
  simp only [readAlloc, overwrite_ptr]
  split
  · exact overwrite_callOnData _ _ hs ..
  · rfl

theorem overwrite_readTry (buf : Option Nat) (a : Answer) :
    readTry (w.overwrite m) s buf a = (readTry w s buf a).map (overwritten m) := by
  simp only [readTry, overwrite_tcp _ _ hs, overwrite_kernel, overwrite_setErrno, overwrite_logObs,
    overwrite_setKernel, overwrite_pdErrno, overwrite_callOnData _ _ hs]
  split
  · split
    · rfl
    · split <;> rfl
  · rfl
  · rfl

theorem overwrite_pd_tcpClientIo (ev : Events) :
    pd_tcpClientIo (w.overwrite m) s ev = overwritten m (pd_tcpClientIo w s ev) := by
  simp only [pd_tcpClientIo, pd_tcpRead, overwrite_tcp _ _ hs]
  split
  · split <;> rfl
  · rfl

theorem overwrite_clientIoRest (ev : Events) (a : Answer) :
    clientIoRest (w.overwrite m) s ev a = overwritten m (clientIoRest w s ev a) := by
  simp only [clientIoRest, pd_tcpWrite, overwrite_tcp _ _ hs, overwrite_pdTcpClose _ _ hs]
  split
  · rfl
  · split
    · split <;> rfl
    · rfl

theorem overwrite_pd_tcpConnectIo (ev : Events) (a : Answer) :
    pd_tcpConnectIo (w.overwrite m) s ev a = overwritten m (pd_tcpConnectIo w s ev a) := by
  simp only [pd_tcpConnectIo, overwrite_logObs, overwrite_tcp _ _ hs, overwrite_setTcp _ _ hs,
    overwrite_pd_eventSet _ _ hs]
  split
  · rfl
  · split
    · split <;> rfl
    · split
      · split <;> rfl
      · rfl

theorem overwrite_pdTcpConnect (b : Bool) (a : Answer) :
    pdTcpConnect (w.overwrite m) s b a = (pdTcpConnect w s b a).overwrite m := by
  simp only [pdTcpConnect, overwrite_kernel, overwrite_setErrno, overwrite_setKernel,
    overwrite_failErrno, overwrite_closeQuietly, overwrite_tcp _ _ hs, overwrite_setTcp _ _ hs,
    overwrite_logObs, overwrite_pd_eventAdd _ _ hs, overwrite_incRefs, overwrite_setResult]
  split
  · rfl
  · split
    · rfl
    · split
      · rfl
      · rfl
      · split
        · rfl
        · split <;> rfl

theorem overwrite_pdTcpAccept (fd : Fd) (a : Answer) :
    pdTcpAccept (w.overwrite m) s fd a = (pdTcpAccept w s fd a).overwrite m := by
  simp only [pdTcpAccept, overwrite_tcp _ _ hs, overwrite_setTcp _ _ hs, overwrite_logObs,
    overwrite_pd_eventAdd _ _ hs, overwrite_incRefs]

theorem overwrite_pdTcpShutdown (a : Answer) :
    pdTcpShutdown (w.overwrite m) s a = (pdTcpShutdown w s a).overwrite m := by
  simp only [pdTcpShutdown, overwrite_tcp _ _ hs, overwrite_setTcp _ _ hs,
    overwrite_shutdownWr _ _ hs, overwrite_setPollout _ _ hs, overwrite_pd_eventSet _ _ hs]
  split
  · rfl
  · split <;> rfl

end

/-! ## An operation that is left alone -/

section
variable {s : Sid} {i : Op} (hi : m.op s i = none)
include hi

theorem overwrite_op : (w.overwrite m).op s i = w.op s i := by simp [overwrite, hi]

theorem overwrite_setOp (r : WriteOp) :
    (w.overwrite m).setOp s i r = (w.setOp s i r).overwrite m := by
  have hop : Function.update (w.overwrite m).op s (Function.update ((w.overwrite m).op s) i (some r)) =
      fun x y => (m.op x y).getD
        (Function.update w.op s (Function.update (w.op s) i (some r)) x y) := by
    funext x y
    by_cases hx : x = s
    · subst hx
      by_cases hy : y = i
      · subst hy
        simp [hi]
      · simp [hy, overwrite]
    · simp [hx, overwrite]
  simp only [overwrite, setOp] at hop ⊢
  rw [hop]

theorem overwrite_callWrite (st : Int) (fs : List Frame) :
    callWrite (w.overwrite m) s i st fs = (callWrite w s i st fs).map (overwritten m) := by
  simp only [callWrite, overwrite_op _ _ hi]
  split
  · split <;> rfl
  · rfl

omit hi in
theorem overwrite_finishWrite (r : WriteOp) :
    finishWrite (w.overwrite m) s i r = overwritten m (finishWrite w s i r) := by
  unfold finishWrite
  split <;> rfl

variable (hs : m.tcp s = none)
include hs

theorem overwrite_pdTcpWriteAsync (a : Answer) :
    pdTcpWriteAsync (w.overwrite m) s i a = (pdTcpWriteAsync w s i a).map (overwritten m) := by
  simp only [pdTcpWriteAsync, overwrite_tcp _ _ hs, overwrite_setTcp _ _ hs,
    overwrite_setPollout _ _ hs, overwrite_pd_eventSet _ _ hs, overwrite_callWrite _ _ hi]
  split
  · rfl
  · split <;> rfl

theorem overwrite_pdTcpWrite (r : WriteOp) (a : Answer) :
    pdTcpWrite (w.overwrite m) s i r a = (pdTcpWrite w s i r a).map (overwritten m) := by
  simp only [pdTcpWrite, overwrite_tcp _ _ hs, overwrite_setOp _ _ hi, overwrite_logObs,
    overwrite_pdTcpWriteAsync _ _ hi hs]
  split
  · split <;> rfl
  · split <;> rfl

theorem overwrite_writeTry (a : Answer) :
    writeTry (w.overwrite m) s i a = (writeTry w s i a).map (overwritten m) := by
  simp only [writeTry, overwrite_tcp _ _ hs, overwrite_op _ _ hi, overwrite_kernel,
    overwrite_setErrno, overwrite_logObs, overwrite_pdErrno, overwrite_setOp _ _ hi,
    overwrite_pdTcpWriteAsync _ _ hi hs, overwrite_callWrite _ _ hi]
  split
  · rfl
  · split
    · split
      · rfl
      · split <;> rfl
    · split <;> rfl

end

section
variable {s : Sid} (hs : m.tcp s = none) (hhead : ∀ i ∈ (w.tcp s).writes.head?, m.op s i = none)
include hs hhead

theorem overwrite_closeDrain :
    closeDrain (w.overwrite m) s = (closeDrain w s).map (overwritten m) := by
  simp only [closeDrain, overwrite_tcp _ _ hs, overwrite_setTcp _ _ hs]
  cases hw : (w.tcp s).writes with
  | nil => rfl
  | cons i rest => exact overwrite_callWrite _ _ (hhead i (by rw [hw]; rfl)) ..

theorem overwrite_writeLoop (a : Answer) :
    writeLoop (w.overwrite m) s a = (writeLoop w s a).map (overwritten m) := by
  simp only [writeLoop, overwrite_tcp _ _ hs]
  cases hw : (w.tcp s).writes with
  | nil =>
    simp only [overwrite_setPollout _ _ hs, overwrite_pd_eventSet _ _ hs, overwrite_tcp _ _ hs,
      overwrite_shutdownWr _ _ hs]
    split <;> rfl
  | cons i rest =>
    have hi : m.op s i = none := hhead i (by rw [hw]; rfl)
    simp only [overwrite_op _ _ hi, overwrite_kernel, overwrite_setErrno, overwrite_logObs,
      overwrite_pdErrno, overwrite_tcp _ _ hs, overwrite_setOp _ _ hi, overwrite_setTcp _ _ hs,
      overwrite_callWrite _ _ hi, overwrite_finishWrite]
    split
    · rfl
    · split
      · split
        · rfl
        · split <;> rfl
      · split <;> rfl

end

/-! ## No stream -/

theorem overwrite_pdTimerStart (i : Tid) (b : Bool) (d : Nat) :
    pdTimerStart (w.overwrite m) i b d = (pdTimerStart w i b d).map (·.overwrite m) := by
  cases hact : (w.timer i).active with
  | true => simp [pdTimerStart, hact]
  | false =>
    simp only [pdTimerStart, overwrite_timer, hact, Bool.false_eq_true, ↓reduceIte, Option.map_map]
    rfl

theorem overwrite_pdTimerStop (i : Tid) :
    pdTimerStop (w.overwrite m) i = (pdTimerStop w i).map (·.overwrite m) := by
  cases hact : (w.timer i).active with
  | false => simp [pdTimerStop, hact]
  | true =>
    simp only [pdTimerStop, overwrite_timer, hact, Bool.not_true, Bool.false_eq_true, ↓reduceIte,
      Option.map_map]
    rfl

theorem overwrite_pdTimersRun :
    pdTimersRun (w.overwrite m) = (pdTimersRun w).map (overwritten m) := by
  simp only [pdTimersRun, overwrite_timers, overwrite_timer, overwrite_now, overwrite_pdTimerStop]
  split
  · rfl
  · split
    · rfl
    · rename_i min _ _
      cases pdTimerStop w min with
      | none => rfl
      | some w' =>
        simp only [Option.map_some, Option.bind_eq_bind, Option.bind_some, overwrite_timer]
        by_cases hcb : (w'.timer min).onTimeout = true <;> simp [hcb]

theorem overwrite_pdTimersRearm (i : Tid) :
    pdTimersRearm (w.overwrite m) i = (pdTimersRearm w i).map (overwritten m) := by
  simp only [pdTimersRearm, overwrite_timer, overwrite_pdTimerStart]
  split
  · rw [Option.map_map, Option.map_map]
    rfl
  · rfl

theorem overwrite_pnd_tcpListenerIo (l : Lid) (ev : Events) (a : Answer) :
    pnd_tcpListenerIo (w.overwrite m) l ev a =
      (pnd_tcpListenerIo w l ev a).map (overwritten m) := by
  simp only [pnd_tcpListenerIo, overwrite_server, overwrite_kernel, overwrite_logObs,
    overwrite_setErrno, overwrite_setKernel, overwrite_closeQuietly]
  split
  · rfl
  · split
    · rfl
    · split
      · rfl
      · split
        · rfl
        · split <;> rfl

theorem overwrite_pdTcpListen (l : Lid) (b : Bool) (a : Answer) :
    pdTcpListen (w.overwrite m) l b a = (pdTcpListen w l b a).overwrite m := by
  simp only [pdTcpListen, overwrite_kernel, overwrite_setErrno, overwrite_setKernel,
    overwrite_failErrno, overwrite_closeQuietly, overwrite_server, overwrite_setServer,
    overwrite_logObs]
  split
  · rfl
  · rfl
  · split
    iterate 4 rfl
    split <;> rfl

theorem overwrite_pdTcpServerClose (l : Lid) (a : Answer) :
    pdTcpServerClose (w.overwrite m) l a = (pdTcpServerClose w l a).overwrite m := by
  simp only [pdTcpServerClose, overwrite_server, overwrite_kernel, overwrite_setKernel,
    overwrite_logObs, overwrite_setErrno, overwrite_setResult, overwrite_decRefs]
  split
  · rfl
  · split <;> rfl

theorem overwrite_kqTcpServerClose (l : Lid) (a : Answer) :
    kqTcpServerClose (w.overwrite m) l a = (kqTcpServerClose w l a).overwrite m := by
  simp only [kqTcpServerClose, overwrite_server, overwrite_kernel, overwrite_setKernel,
    overwrite_logObs, overwrite_setErrno, overwrite_setResult, overwrite_decRefs]
  split <;> rfl

theorem overwrite_pd_notifierIo (ev : Events) (a : Answer) :
    pd_notifierIo (w.overwrite m) ev a = overwritten m (pd_notifierIo w ev a) := by
  simp only [pd_notifierIo, overwrite_setErrno, overwrite_signaled]
  split
  · rfl
  · split
    · split <;> rfl
    · split <;> rfl

theorem overwrite_pdTaskSubmit (k : Task) (b : Bool) (a : Answer) :
    pdTaskSubmit (w.overwrite m) k b a = (pdTaskSubmit w k b a).overwrite m := by
  unfold pdTaskSubmit
  split <;> rfl

theorem overwrite_taskDone (l : List Task) :
    taskDone (w.overwrite m) l = overwritten m (taskDone w l) := by
  cases l with
  | nil => rfl
  | cons k l => by_cases hk : w.task k = some true <;> simp [taskDone, hk]


theorem overwrite_ioRun (timeout : Int) (a : Answer) :
    ioRun (w.overwrite m) timeout a = (ioRun w timeout a).map (overwritten m) := by
  simp only [ioRun, overwrite_refs, overwrite_setErrno]
  split
  · rfl
  · split
    · split <;> rfl
    · rfl

theorem overwrite_ioAfterTick :
    ioAfterTick (w.overwrite m) = overwritten m (ioAfterTick w) := by
  cases hh : w.afterTick <;> simp [ioAfterTick, hh]

/-- `pd__tcp_pending_close` looks at the stream whose turn it is. -/
theorem overwrite_pd_tcpPendingClose (hs : ∀ s ∈ w.pendingCloses.nodes.head?, m.tcp s = none) :
    pd_tcpPendingClose (w.overwrite m) = overwritten m (pd_tcpPendingClose w) := by
  simp only [pd_tcpPendingClose, overwrite_pendingCloses]
  cases hp : w.pendingCloses.pop with
  | none => rfl
  | some p =>
    have hs : m.tcp p.1 = none := hs p.1 (by rw [LinkedQueue.pop_nodes hp]; rfl)
    simp only [overwrite_setPendingCloses, overwrite_tcp _ _ hs]
    split <;> rfl

/-! ## Steps of the machine -/

/-- The frame looks at nothing that is written over. -/
def Frame.Spares (m : Scrap) (w : World) : Frame → Prop
  | .closeDrain s | .writeLoop s =>
    m.tcp s = none ∧ ∀ i ∈ (w.tcp s).writes.head?, m.op s i = none
  | .close s | .readAlloc s | .readTry s _ | .clientIoRest s _ | .dispatch (.tcp s) _ => m.tcp s = none
  | .writeTry s i => m.tcp s = none ∧ m.op s i = none
  | .pendingClose => ∀ s ∈ w.pendingCloses.nodes.head?, m.tcp s = none
  | _ => True

/-- The call does not either. -/
def Call.Spares (m : Scrap) : Call → Prop
  | .tcpWrite s i _ => m.tcp s = none ∧ m.op s i = none
  | k => ∀ s, k.stream = some s → m.tcp s = none

/-- **A frame does the same whatever is there.** -/
theorem exec_overwrite {f : Frame} (hf : f.Spares m w) (a : Answer) :
    exec (w.overwrite m) f a = (exec w f a).map (overwritten m) := by
  cases f with
  | closeDrain s => exact overwrite_closeDrain _ _ hf.1 hf.2
  | close s => exact congrArg some (overwrite_pdTcpClose _ _ hf a)
  | readAlloc s => exact overwrite_readAlloc _ _ hf
  | readTry s buf => exact overwrite_readTry _ _ hf buf a
  | clientIoRest s ev => exact congrArg some (overwrite_clientIoRest _ _ hf ev a)
  | writeTry s i => exact overwrite_writeTry _ _ hf.2 hf.1 a
  | writeLoop s => exact overwrite_writeLoop _ _ hf.1 hf.2 a
  | dispatch h ev =>
    cases h with
    | tcp s =>
      have hs : m.tcp s = none := hf
      simp only [exec, dispatch, overwrite_tcp _ _ hs]
      split
      · exact congrArg some (overwrite_pd_tcpClientIo _ _ hs ev)
      · exact congrArg some (overwrite_pd_tcpConnectIo _ _ hs ev a)
      · rfl
    | server l =>
      simp only [exec, dispatch, overwrite_server, overwrite_pnd_tcpListenerIo]
      cases (w.server l).handler <;> rfl
    | taskSignal => exact congrArg some (overwrite_pd_notifierIo _ _ ev a)
  | timersRun => exact overwrite_pdTimersRun _ _
  | timersRearm i => exact overwrite_pdTimersRearm _ _ i
  | pendingClose => exact congrArg some (overwrite_pd_tcpPendingClose _ _ hf)
  | taskDone l => exact congrArg some (overwrite_taskDone _ _ l)
  | ioRun timeout => exact overwrite_ioRun _ _ timeout a
  | ioAfterTick => exact congrArg some (overwrite_ioAfterTick _ _)
  | pendingCloseDec _ | taskDoneDec _ _ | ioNext => rfl

/-- **A call does the same whatever is there.** -/
theorem api_overwrite {k : Call} (hk : k.Spares m) (a : Answer) :
    api (w.overwrite m) k a = (api w k a).map (overwritten m) := by
  cases k with
  | tcpAccept s fd => simp only [api, overwrite_pdTcpAccept _ _ (hk s rfl)]; rfl
  | tcpConnect s b => simp only [api, overwrite_pdTcpConnect _ _ (hk s rfl)]; rfl
  | tcpWrite s i r =>
    simp only [api, overwrite_op _ _ hk.2, overwrite_pdTcpWrite _ _ hk.2 hk.1]
    split <;> rfl
  | tcpClose s => exact congrArg some (overwrite_pdTcpClose _ _ (hk s rfl) a)
  | tcpShutdown s => simp only [api, overwrite_pdTcpShutdown _ _ (hk s rfl)]; rfl
  | tcpPause s =>
    simp only [api, pdTcpPause, overwrite_setPollin _ _ (hk s rfl),
      overwrite_pd_eventSet _ _ (hk s rfl)]
    rfl
  | tcpResume s =>
    simp only [api, pdTcpResume, overwrite_setPollin _ _ (hk s rfl),
      overwrite_pd_eventSet _ _ (hk s rfl)]
    rfl
  | tcpListen l b => simp only [api, overwrite_pdTcpListen]; rfl
  | tcpServerClose l => simp only [api, overwrite_pdTcpServerClose]; rfl
  | timerStart i b d =>
    simp only [api, overwrite_logObs, overwrite_pdTimerStart, Option.map_map]
    rfl
  | timerRepeat i b d =>
    simp only [api, pdTimerRepeat, overwrite_logObs, overwrite_timer, overwrite_setTimer,
      overwrite_pdTimerStart, Option.map_map]
    rfl
  | timerStop i =>
    simp only [api, overwrite_pdTimerStop, Option.map_map]
    rfl
  | taskSubmit k b =>
    simp only [api, overwrite_task, overwrite_pdTaskSubmit]
    split <;> rfl
  | setOnData s b | setOnClose s b =>
    simp only [api, overwrite_tcp _ _ (hk s rfl), overwrite_setTcp _ _ (hk s rfl)]
    rfl
  | ioRun | timersRun | timersNext | setAfterTick b | setErrno e => rfl

/-- A branch that both states take. -/
theorem overwrite_ite {p : Prop} [Decidable p] :
    (if p then some (w.overwrite m) else none) =
      (if p then some w else none).map (·.overwrite m) := by
  split <;> simp [*]

theorem env_overwrite (e : Env) :
    env (w.overwrite m) e = (env w e).map (·.overwrite m) := by
  cases e with
  | closeFd fd => rfl
  | _ =>
    simp only [env, overwrite_kernel, overwrite_poolTasks, overwrite_finishedTasks,
      overwrite_setKernel, overwrite_setTasks]
    exact overwrite_ite ..

end

/-- Something else is written in a configuration's state. -/
def Cfg.overwrite (c : Cfg) (m : Scrap) : Cfg := { c with world := c.world.overwrite m }

/-- Neither the frame on top nor the call looks at what is written over. -/
def Act.Spares (m : Scrap) (c : Cfg) : Act → Prop
  | .lib _ => ∀ f, c.stack.head? = some (.lib f) → f.Spares m c.world
  | .api k _ => k.Spares m
  | _ => True

/-- **A step does the same whatever is there.** -/
theorem step_overwrite {m : Scrap} {c : Cfg} {x : Act} (h : x.Spares m c) :
    step (c.overwrite m) x = (step c x).map (·.overwrite m) := by
  cases x with
  | lib a =>
    cases hst : c.stack with
    | nil => simp [step, Cfg.overwrite, hst]
    | cons i rest =>
      cases i with
      | app k => simp [step, Cfg.overwrite, hst]
      | lib f =>
        have hf : f.Spares m c.world := h f (by rw [hst]; rfl)
        simp only [step, Cfg.overwrite, hst, exec_overwrite _ _ hf, Option.map_map]
        rfl
  | api k a =>
    have hk : k.Spares m := h
    cases hst : c.stack with
    | nil => simp [step, Cfg.overwrite, hst]
    | cons i rest =>
      cases i with
      | lib f => simp [step, Cfg.overwrite, hst]
      | app cb =>
        simp only [step, Cfg.overwrite, hst, api_overwrite _ _ hk, Option.map_map]
        rfl
  | ret p =>
    cases hst : c.stack with
    | nil => simp [step, Cfg.overwrite, hst]
    | cons i rest =>
      cases i with
      | lib f => simp [step, Cfg.overwrite, hst]
      | app cb => by_cases hcb : cb = .main <;> simp [step, Cfg.overwrite, hst, hcb]
  | env e =>
    simp only [step, Cfg.overwrite, env_overwrite, Option.map_map]
    rfl

/-! ## The loop -/

section
variable {m : Scrap} {c : Cfg}

theorem pollWith_overwrite (w : World) (timeout : Int) (r : SysRes)
    (events : List (Handle × Events)) : pollWith (w.overwrite m) timeout r events =
      (pollWith w timeout r events).map (overwritten m) := by
  simp only [pollWith, overwrite_refs, overwrite_setErrno]
  split
  · rfl
  · split
    · split <;> rfl
    · rfl

/-- A poll looks at no memory of the application's. -/
def LoopAct.Spares (m : Scrap) (c : Cfg) : LoopAct → Prop
  | .step y => y.Spares m c
  | _ => True

theorem loopStep_overwrite {x : LoopAct} (h : x.Spares m c) :
    loopStep (c.overwrite m) x = (loopStep c x).map (·.overwrite m) := by
  cases x with
  | poll r events =>
    simp only [loopStep, Cfg.overwrite]
    split
    · simp only [pollWith_overwrite, Option.map_map]
      rfl
    · rfl
  | step y =>
    simp only [loopStep, Cfg.overwrite]
    split
    · rfl
    · exact step_overwrite h
  | serverClose l a =>
    simp only [loopStep, Cfg.overwrite, overwrite_kqTcpServerClose]
    split <;> rfl

/-- Whatever is written over what no step looks at, the same things can happen. -/
theorem play_overwrite {ok : Cfg → LoopAct → Prop} [∀ c x, Decidable (ok c x)] (I : Cfg → Prop)
    (hok : ∀ c x, ok (c.overwrite m) x ↔ ok c x) (hspares : ∀ c x, I c → ok c x → x.Spares m c)
    (hstep : ∀ c x c', I c → ok c x → loopStep c x = some c' → I c') (hc : I c)
    (l : List LoopAct) : Machine.play loopStep ok (c.overwrite m) l =
      (Machine.play loopStep ok c l).map (·.overwrite m) := by
  induction l generalizing c with
  | nil => rfl
  | cons x rest ih =>
    simp only [Machine.play, hok]
    by_cases hx : ok c x
    · rw [if_pos hx, if_pos hx, loopStep_overwrite (hspares c x hc hx)]
      cases hs : loopStep c x with
      | none => rfl
      | some c' =>
        simp only [Option.map_some, Option.bind_some]
        exact ih (hstep c x c' hc hx hs)
    · rw [if_neg hx, if_neg hx]
      rfl

end

/-! ## One stream -/

section
variable {w : World} {s : Sid} {t : Tcp} {o : Op → Option WriteOp}

end

end Pandio
