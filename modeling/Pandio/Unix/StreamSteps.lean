import Pandio.Unix.Footprint

/- What a step does to the stream it works for: the change of its record, what is
   logged of it, and what is left on the stack, in one list for the library's frames
   and one for the calls of the application. An invariant about one stream is a case
   analysis of these lists; the functions need not be looked at again. -/
namespace Pandio
open World

/-! ## The view of one stream -/

/-- A stream's record, and what the log says of it. -/
structure StreamView where
  tcp : Tcp
  log : List Obs

def World.streamView (w : World) (s : Sid) : StreamView :=
  { tcp := w.tcp s, log := w.log.filter (isStreamObs s) }

namespace StreamView

def logs (v : StreamView) (l : List Obs) : StreamView := { v with log := v.log ++ l }

def setWrites (v : StreamView) (l : List Op) : StreamView := { v with tcp := { v.tcp with writes := l } }

def setPollin (v : StreamView) (b : Bool) : StreamView :=
  { v with tcp := { v.tcp with flags := { v.tcp.flags with pollin := b } } }

def setPollout (v : StreamView) (b : Bool) : StreamView :=
  { v with tcp := { v.tcp with flags := { v.tcp.flags with pollout := b } } }

def setStatus (v : StreamView) (st : TcpStatus) : StreamView :=
  { v with tcp := { v.tcp with status := st } }

/-- An operation is queued, and writable events are asked for if they were not. -/
def enqueue (v : StreamView) (s : Sid) (op : Op) : StreamView :=
  if v.tcp.flags.pollout then v.setWrites (v.tcp.writes ++ [op])
  else ((v.setWrites (v.tcp.writes ++ [op])).setPollout true).logs [.ctl (.tcp s) v.tcp.fd .mod]

/-- The descriptor is closed. -/
def close (v : StreamView) (s : Sid) : StreamView :=
  (v.setStatus .closed).logs [.ctl (.tcp s) v.tcp.fd .del, .closed s v.tcp.fd]

/-- A connection is begun. -/
def connecting (v : StreamView) (fd : Fd) (onConnect : Bool) : StreamView :=
  { v with
    tcp := { v.tcp with
      fd := fd, onConnect := onConnect, handler := some .connectIo, flags := ⟨true, true⟩ } }

/-- The connection is established. -/
def connected (v : StreamView) (s : Sid) : StreamView :=
  { v with
    tcp := { v.tcp with
      status := .active, handler := some .clientIo
      flags := { v.tcp.flags with pollout := false } } }.logs [.ctl (.tcp s) v.tcp.fd .mod]

end StreamView

/-! ## Steps for another stream -/

section
variable {w w' : World} {s : Sid} {a : Answer} {r : World × List Item}

theorem streamView_eq (h : w'.tcp s = w.tcp s)
    (hl : w'.log.filter (isStreamObs s) = w.log.filter (isStreamObs s)) :
    w'.streamView s = w.streamView s := by
  simp only [streamView, h, hl]

theorem Touches.streamView {F : Footprint} (t : Touches F w w') (hs : ¬ F.stream s) :
    w'.streamView s = w.streamView s := by
  refine streamView_eq (t.tcp s hs) (t.filter_log fun o ho => ?_)
  by_contra h
  exact hs (ho.stream (by simpa using h))

/-- **A frame that does not work for a stream leaves it alone.** -/
theorem exec_streamView {f : Frame} (hf : f.stream ≠ some s) (h : exec w f a = some r) :
    r.1.streamView s = w.streamView s := (exec_touches h).streamView hf

/-- **A call that does not work for a stream leaves it alone.** -/
theorem api_streamView {c : Call} (hc : c.stream ≠ some s) (h : api w c a = some r) :
    r.1.streamView s = w.streamView s := (api_touches h).streamView hc

theorem env_streamView {e : Env} (h : env w e = some w') : w'.streamView s = w.streamView s := by
  have hu := env_keeps h
  exact streamView_eq (congrFun hu.tcp s) (by rw [hu.log])

end

section
variable (w : World) (s : Sid)

theorem tcp_eq : w.tcp s = (w.streamView s).tcp := rfl

@[simp] theorem logObs_streamView (o : Obs) : (w.logObs o).streamView s =
    (w.streamView s).logs ([o].filter (isStreamObs s)) := by
  simp [streamView, World.logObs, StreamView.logs]

@[simp] theorem setTcp_streamView (r : Tcp) :
    (w.setTcp s r).streamView s = { w.streamView s with tcp := r } := by
  simp [streamView, World.setTcp]

@[simp] theorem setKernel_streamView (k : Kernel) :
    (w.setKernel k).streamView s = w.streamView s := rfl

@[simp] theorem setErrno_streamView (r : SysRes) :
    (w.setErrno r).streamView s = w.streamView s := rfl

@[simp] theorem setOp_streamView (s' : Sid) (o : Op) (r : WriteOp) :
    (w.setOp s' o r).streamView s = w.streamView s := rfl

@[simp] theorem setPendingCloses_streamView (l : LinkedQueue Sid) :
    (w.setPendingCloses l).streamView s = w.streamView s := rfl

@[simp] theorem setResult_streamView (n : Int) :
    (w.setResult n).streamView s = w.streamView s := rfl

@[simp] theorem incRefs_streamView (o : Owner) : (w.incRefs o).streamView s = w.streamView s := by
  simp [incRefs, streamView, World.logObs, setRefs, isStreamObs]

@[simp] theorem goOn_streamView (fs : List Frame) :
    (w.goOn fs).1.streamView s = w.streamView s := rfl

@[simp] theorem call_streamView (k : Cb) (fs : List Frame) : (w.call k fs).1.streamView s =
    (w.streamView s).logs ([.cb k w.now].filter (isStreamObs s)) := by
  simp [World.call]

@[simp] theorem closeQuietly_streamView (fd : Fd) (r : SysRes) :
    (closeQuietly w fd r).streamView s = w.streamView s := by simp [closeQuietly]

@[simp] theorem failErrno_streamView : (failErrno w).streamView s = w.streamView s := rfl

@[simp] theorem pd_eventAdd_streamView (r : SysRes) : (pd_eventAdd w s r).streamView s =
    (w.streamView s).logs [.ctl (.tcp s) (w.streamView s).tcp.fd .add] := by
  simp [pd_eventAdd, isStreamObs, tcp_eq]

@[simp] theorem pd_eventSet_streamView (r : SysRes) : (pd_eventSet w s r).streamView s =
    (w.streamView s).logs [.ctl (.tcp s) (w.streamView s).tcp.fd .mod] := by
  simp [pd_eventSet, isStreamObs, tcp_eq]

@[simp] theorem pd_eventDel_streamView (r : SysRes) : (pd_eventDel w s r).streamView s =
    (w.streamView s).logs [.ctl (.tcp s) (w.streamView s).tcp.fd .del] := by
  simp [pd_eventDel, isStreamObs, tcp_eq]

@[simp] theorem setPollin_streamView (b : Bool) :
    (setPollin w s b).streamView s = (w.streamView s).setPollin b := by
  simp [setPollin, tcp_eq, StreamView.setPollin]

@[simp] theorem setPollout_streamView (b : Bool) :
    (setPollout w s b).streamView s = (w.streamView s).setPollout b := by
  simp [setPollout, tcp_eq, StreamView.setPollout]

@[simp] theorem shutdownWr_streamView (r : SysRes) : (shutdownWr w s r).streamView s =
    (w.streamView s).logs [.shutdown s (w.streamView s).tcp.fd] := by
  simp [shutdownWr, isStreamObs, tcp_eq]

@[simp] theorem logs_tcp (v : StreamView) (l : List Obs) : (v.logs l).tcp = v.tcp := rfl

@[simp] theorem logs_log (v : StreamView) (l : List Obs) : (v.logs l).log = v.log ++ l := rfl

@[simp] theorem logs_nil (v : StreamView) : v.logs [] = v := by simp [StreamView.logs]

@[simp] theorem logs_logs (v : StreamView) (l m : List Obs) :
    (v.logs l).logs m = v.logs (l ++ m) := by simp [StreamView.logs]

end

/-! ## The steps of the library -/

/-- What a frame that works for the stream does to it, and leaves on the stack. -/
inductive StreamExec (s : Sid) (now : Nat) (v : StreamView) :
    Frame → StreamView → List Item → Prop where
  | cancel {op : Op} {rest : List Op} : v.tcp.writes = op :: rest →
      StreamExec s now v (.closeDrain s) ((v.setWrites rest).logs [.called s op PD_ECANCELED])
        [.app (.write s op PD_ECANCELED), .lib (.closeDrain s)]
  | closeQueued : v.tcp.writes = [] →
      StreamExec s now v (.closeDrain s) (v.logs [.closeQueued s]) []
  | closeAgain : v.tcp.status = .closed → StreamExec s now v (.close s) v []
  | close : v.tcp.status ≠ .closed →
      StreamExec s now v (.close s) (v.close s) [.lib (.closeDrain s)]
  | noBuffer : v.tcp.onData = true →
      StreamExec s now v (.readAlloc s) (v.logs [.cb (.onData s none PD_ENOMEM []) now])
        [.app (.onData s none PD_ENOMEM []), .lib (.readTry s none)]
  | buffer {buf : Nat} : StreamExec s now v (.readAlloc s) v [.lib (.readTry s (some buf))]
  | readAgain {buf : Option Nat} : StreamExec s now v (.readTry s buf)
      (v.logs [.read s v.tcp.fd []]) [.lib (.readTry s buf)]
  | readNothing {buf : Option Nat} {size : Int} : v.tcp.onData = true → size ≤ 0 →
      StreamExec s now v (.readTry s buf)
        (v.logs [.read s v.tcp.fd [], .cb (.onData s buf size []) now])
        [.app (.onData s buf size [])]
  | readEnd {buf : Option Nat} : v.tcp.onData = true →
      StreamExec s now v (.readTry s buf)
        (v.logs [.read s v.tcp.fd [], .cb (.onData s buf 0 []) now])
        [.app (.onData s buf 0 []), .lib (.close s)]
  | read {buf : Option Nat} {bytes : List UInt8} : v.tcp.onData = true → bytes ≠ [] →
      StreamExec s now v (.readTry s buf)
        (v.logs [.read s v.tcp.fd bytes, .cb (.onData s buf bytes.length bytes) now])
        [.app (.onData s buf bytes.length bytes)]
  | ioClosed {ev : Events} : ev.close = true → v.tcp.status = .closed →
      StreamExec s now v (.clientIoRest s ev) v []
  | ioClose {ev : Events} : ev.close = true → v.tcp.status ≠ .closed →
      StreamExec s now v (.clientIoRest s ev) (v.close s) [.lib (.closeDrain s)]
  | ioStale {ev : Events} : ev.close = false → ev.pollout = true → v.tcp.status = .closed →
      StreamExec s now v (.clientIoRest s ev) v []
  | ioWrite {ev : Events} : ev.close = false → ev.pollout = true → v.tcp.status ≠ .closed →
      StreamExec s now v (.clientIoRest s ev) v [.lib (.writeLoop s)]
  | ioNothing {ev : Events} : ev.close = false → ev.pollout = false →
      StreamExec s now v (.clientIoRest s ev) v []
  | tryAgain {op : Op} : StreamExec s now v (.writeTry s op)
      (v.logs [.write s v.tcp.fd op []]) [.lib (.writeTry s op)]
  | tryQueued {op : Op} {bytes : List UInt8} : v.tcp.status = .active →
      StreamExec s now v (.writeTry s op)
        ((v.logs [.write s v.tcp.fd op bytes]).enqueue s op) []
  | tryCalled {op : Op} {bytes : List UInt8} {st : Int} : StreamExec s now v (.writeTry s op)
      (v.logs [.write s v.tcp.fd op bytes, .called s op st]) [.app (.write s op st)]
  | loopAgain {op : Op} {rest : List Op} {bytes : List UInt8} : v.tcp.writes = op :: rest →
      StreamExec s now v (.writeLoop s) (v.logs [.write s v.tcp.fd op bytes])
        [.lib (.writeLoop s)]
  | loopWait {op : Op} {rest : List Op} : v.tcp.writes = op :: rest →
      StreamExec s now v (.writeLoop s) (v.logs [.write s v.tcp.fd op []]) []
  | loopFailed {op : Op} {rest : List Op} {st : Int} : v.tcp.writes = op :: rest →
      StreamExec s now v (.writeLoop s)
        ((v.setWrites rest).logs [.write s v.tcp.fd op [], .called s op st])
        [.app (.write s op st)]
  | loopCalled {op : Op} {rest : List Op} {bytes : List UInt8} : v.tcp.writes = op :: rest →
      StreamExec s now v (.writeLoop s)
        ((v.setWrites rest).logs [.write s v.tcp.fd op bytes, .called s op 0])
        [.app (.write s op 0), .lib (.writeLoop s)]
  | loopUncalled {op : Op} {rest : List Op} {bytes : List UInt8} : v.tcp.writes = op :: rest →
      StreamExec s now v (.writeLoop s)
        ((v.setWrites rest).logs [.write s v.tcp.fd op bytes, .uncalled s op])
        [.lib (.writeLoop s)]
  | loopEnd : v.tcp.writes = [] → v.tcp.status ≠ .shutdown →
      StreamExec s now v (.writeLoop s)
        ((v.setPollout false).logs [.ctl (.tcp s) v.tcp.fd .mod]) []
  | loopShut : v.tcp.writes = [] → v.tcp.status = .shutdown →
      StreamExec s now v (.writeLoop s)
        ((v.setPollout false).logs [.ctl (.tcp s) v.tcp.fd .mod, .shutdown s v.tcp.fd]) []
  | clientRead {ev : Events} : v.tcp.handler = some .clientIo → ev.pollin = true →
      v.tcp.onData = true →
      StreamExec s now v (.dispatch (.tcp s) ev) (v.logs [.cb (.allocator s) now])
        [.app (.allocator s), .lib (.readAlloc s), .lib (.clientIoRest s ev)]
  | client {ev : Events} : v.tcp.handler = some .clientIo →
      (ev.pollin = false ∨ v.tcp.onData = false) →
      StreamExec s now v (.dispatch (.tcp s) ev) v [.lib (.clientIoRest s ev)]
  | connectNothing {ev : Events} : v.tcp.handler = some .connectIo →
      StreamExec s now v (.dispatch (.tcp s) ev) v []
  | connectHungUp {ev : Events} : v.tcp.handler = some .connectIo → v.tcp.status ≠ .closed →
      v.tcp.onConnect = false → ev.close = true →
      StreamExec s now v (.dispatch (.tcp s) ev) (v.logs [.sockError s v.tcp.fd]) []
  | connectFailed {ev : Events} {st : Int} : v.tcp.handler = some .connectIo →
      v.tcp.status ≠ .closed → v.tcp.onConnect = true → ev.close = true →
      StreamExec s now v (.dispatch (.tcp s) ev)
        (v.logs [.sockError s v.tcp.fd, .cb (.onConnect s st) now]) [.app (.onConnect s st)]
  | connected {ev : Events} : v.tcp.handler = some .connectIo → v.tcp.status ≠ .closed →
      v.tcp.onConnect = false → ev.pollout = true →
      StreamExec s now v (.dispatch (.tcp s) ev) (v.connected s) []
  | connectedCalled {ev : Events} : v.tcp.handler = some .connectIo → v.tcp.status ≠ .closed →
      v.tcp.onConnect = true → ev.pollout = true →
      StreamExec s now v (.dispatch (.tcp s) ev)
        ((v.connected s).logs [.cb (.onConnect s 0) now]) [.app (.onConnect s 0)]

section
variable {w : World} {s : Sid} {a : Answer} {r : World × List Item}

theorem callWrite_stream {op : Op} {st : Int} {fs : List Frame}
    (h : callWrite w s op st fs = some r) :
    r.1.streamView s = (w.streamView s).logs [.called s op st] ∧
      r.2 = .app (.write s op st) :: fs.map .lib := by
  unfold callWrite at h
  split at h
  · split at h <;> cases h
    simp [isStreamObs]
  · cases h

theorem callOnData_stream {buf : Option Nat} {size : Int} {bytes : List UInt8}
    {fs : List Frame} (h : callOnData w s buf size bytes fs = some r) :
    (w.tcp s).onData = true ∧
      r.1.streamView s = (w.streamView s).logs [.cb (.onData s buf size bytes) w.now] ∧
      r.2 = .app (.onData s buf size bytes) :: fs.map .lib := by
  unfold callOnData at h
  split at h
  · cases h
    simp_all [World.call, isStreamObs]
  · cases h

theorem closeDrain_stream (h : closeDrain w s = some r) :
    StreamExec s w.now (w.streamView s) (.closeDrain s) (r.1.streamView s) r.2 := by
  unfold closeDrain at h
  split at h
  · rename_i op rest hw
    obtain ⟨hv, hi⟩ := callWrite_stream h
    rw [hv, hi, setTcp_streamView]
    exact .cancel hw
  · rename_i hw
    cases h
    rw [goOn_streamView, logObs_streamView, setPendingCloses_streamView]
    simp only [isStreamObs, decide_true, List.filter_cons_of_pos, List.filter_nil]
    exact .closeQueued hw

theorem pdTcpClose_stream : (w.tcp s).status = .closed ∧ pdTcpClose w s a = (w, []) ∨
    (w.tcp s).status ≠ .closed ∧
      (pdTcpClose w s a).1.streamView s = (w.streamView s).close s ∧
      (pdTcpClose w s a).2 = [.lib (.closeDrain s)] := by
  simp only [pdTcpClose]
  split
  · rename_i hst
    exact .inl ⟨hst, rfl⟩
  · rename_i hst
    refine .inr ⟨hst, ?_, rfl⟩
    simp [isStreamObs, StreamView.close, StreamView.setStatus, tcp_eq]

theorem readAlloc_stream (h : readAlloc w s = some r) :
    StreamExec s w.now (w.streamView s) (.readAlloc s) (r.1.streamView s) r.2 := by
  unfold readAlloc at h
  split at h
  · obtain ⟨hd, hv, hi⟩ := callOnData_stream h
    rw [hv, hi]
    exact .noBuffer hd
  · cases h
    exact .buffer

theorem readTry_stream {buf : Option Nat} (h : readTry w s buf a = some r) :
    StreamExec s w.now (w.streamView s) (.readTry s buf) (r.1.streamView s) r.2 := by
  have hread : ∀ bytes, [Obs.read s (w.tcp s).fd bytes].filter (isStreamObs s) =
      [.read s (w.tcp s).fd bytes] := fun bytes => by simp [isStreamObs]
  simp only [readTry] at h
  split at h
  · rename_i e _
    split at h
    · cases h
      rw [goOn_streamView, logObs_streamView, setErrno_streamView, hread]
      exact .readAgain
    · split at h
      · obtain ⟨hd, hv, hi⟩ := callOnData_stream h
        rw [hv, hi, logObs_streamView, setErrno_streamView, hread, logs_logs]
        exact .readNothing hd (le_refl 0)
      · obtain ⟨hd, hv, hi⟩ := callOnData_stream h
        rw [hv, hi, logObs_streamView, setErrno_streamView, hread, logs_logs]
        refine .readNothing hd ?_
        simp [World.pdErrno, World.pdErrmap, World.setErrno, World.logObs]
  · obtain ⟨hd, hv, hi⟩ := callOnData_stream h
    rw [hv, hi, logObs_streamView, hread, logs_logs]
    exact .readEnd hd
  · rename_i n hr
    obtain ⟨hd, hv, hi⟩ := callOnData_stream h
    have hn := (Kernel.readRes_le (by decide) hr).2
    have hlen : ((w.kernel.sock (w.tcp s).fd).rx.take (n + 1)).length = n + 1 := by
      simp only [List.length_take]
      omega
    rw [hv, hi, logObs_streamView, setKernel_streamView, hread, logs_logs]
    generalize (w.kernel.sock (w.tcp s).fd).rx.take (n + 1) = bytes at hlen ⊢
    have hsize : ((n : Int) + 1) = bytes.length := by
      rw [hlen]
      rfl
    rw [hsize]
    exact .read hd (List.ne_nil_of_length_eq_add_one hlen)

theorem clientIoRest_stream {ev : Events} :
    StreamExec s w.now (w.streamView s) (.clientIoRest s ev)
      ((clientIoRest w s ev a).1.streamView s) (clientIoRest w s ev a).2 := by
  unfold clientIoRest
  split
  · rename_i hev
    rcases pdTcpClose_stream (w := w) (s := s) (a := a) with ⟨hst, hr⟩ | ⟨hst, hv, hi⟩
    · rw [hr]
      exact .ioClosed hev hst
    · rw [hv, hi]
      exact .ioClose hev hst
  · rename_i hev
    have hev : ev.close = false := by simpa using hev
    split
    · rename_i hout
      unfold pd_tcpWrite
      split
      · rename_i hst
        exact .ioStale hev hout hst
      · rename_i hst
        exact .ioWrite hev hout hst
    · rename_i hout
      exact .ioNothing hev (by simpa using hout)

theorem pdTcpWriteAsync_stream {op : Op} (h : pdTcpWriteAsync w s op a = some r) :
    (w.tcp s).status = .active ∧ r.1.streamView s = (w.streamView s).enqueue s op ∧ r.2 = [] ∨
    (w.tcp s).status ≠ .active ∧
      r.1.streamView s = (w.streamView s).logs [.called s op PD_ECANCELED] ∧
      r.2 = [.app (.write s op PD_ECANCELED)] := by
  simp only [pdTcpWriteAsync] at h
  split at h
  · rename_i hst
    exact .inr ⟨hst, callWrite_stream h⟩
  · rename_i hst
    have hst : (w.tcp s).status = .active := by simpa using hst
    have hself : (w.setTcp s { w.tcp s with writes := (w.tcp s).writes ++ [op] }).tcp s =
        { w.tcp s with writes := (w.tcp s).writes ++ [op] } := Function.update_self ..
    split at h
    · rename_i hout
      cases h
      refine .inl ⟨hst, ?_, rfl⟩
      have hout : (w.tcp s).flags.pollout = false := by simpa [hself] using hout
      rw [goOn_streamView, pd_eventSet_streamView, setPollout_streamView, setTcp_streamView,
        StreamView.enqueue, if_neg (by rw [← tcp_eq, hout]; simp)]
      rfl
    · rename_i hout
      cases h
      refine .inl ⟨hst, ?_, rfl⟩
      have hout : (w.tcp s).flags.pollout = true := by simpa [hself] using hout
      rw [goOn_streamView, setTcp_streamView, StreamView.enqueue,
        if_pos (show (w.streamView s).tcp.flags.pollout = true from hout)]
      rfl

theorem writeTry_stream {op : Op} (h : writeTry w s op a = some r) :
    StreamExec s w.now (w.streamView s) (.writeTry s op) (r.1.streamView s) r.2 := by
  have hwrite : ∀ bytes, [Obs.write s (w.tcp s).fd op bytes].filter (isStreamObs s) =
      [.write s (w.tcp s).fd op bytes] := fun bytes => by simp [isStreamObs]
  simp only [writeTry] at h
  split at h
  · cases h
  · split at h
    · split at h
      · cases h
        rw [goOn_streamView, logObs_streamView, setErrno_streamView, hwrite]
        exact .tryAgain
      · split at h
        · rcases pdTcpWriteAsync_stream h with ⟨hst, hv, hi⟩ | ⟨_, hv, hi⟩
          · rw [hv, hi, logObs_streamView, setErrno_streamView, hwrite]
            exact .tryQueued hst
          · rw [hv, hi, logObs_streamView, setErrno_streamView, hwrite, logs_logs]
            exact .tryCalled
        · obtain ⟨hv, hi⟩ := callWrite_stream h
          rw [hv, hi, logObs_streamView, setErrno_streamView, hwrite, logs_logs]
          exact .tryCalled
    · split at h
      · rcases pdTcpWriteAsync_stream h with ⟨hst, hv, hi⟩ | ⟨_, hv, hi⟩
        · rw [hv, hi, setOp_streamView, logObs_streamView, hwrite]
          exact .tryQueued hst
        · rw [hv, hi, setOp_streamView, logObs_streamView, hwrite, logs_logs]
          exact .tryCalled
      · obtain ⟨hv, hi⟩ := callWrite_stream h
        rw [hv, hi, logObs_streamView, hwrite, logs_logs]
        exact .tryCalled

theorem writeLoop_stream (h : writeLoop w s a = some r) :
    StreamExec s w.now (w.streamView s) (.writeLoop s) (r.1.streamView s) r.2 := by
  simp only [writeLoop] at h
  split at h
  · rename_i op rest hw
    have hwrite : ∀ bytes, [Obs.write s (w.tcp s).fd op bytes].filter (isStreamObs s) =
        [.write s (w.tcp s).fd op bytes] := fun bytes => by simp [isStreamObs]
    -- the operation leaves the queue
    have hpop : ∀ (w' : World) (bytes), w'.tcp s = w.tcp s →
        w'.streamView s = (w.streamView s).logs [.write s (w.tcp s).fd op bytes] →
        (w'.setTcp s { w'.tcp s with writes := rest }).streamView s =
          ((w.streamView s).setWrites rest).logs [.write s (w.tcp s).fd op bytes] := by
      intro w' bytes ht hv
      rw [setTcp_streamView, hv, ht]
      rfl
    split at h
    · cases h
    · rename_i wr _
      split at h
      · split at h
        · cases h
          rw [goOn_streamView, logObs_streamView, setErrno_streamView, hwrite]
          exact .loopAgain hw
        · split at h
          · cases h
            rw [goOn_streamView, logObs_streamView, setErrno_streamView, hwrite]
            exact .loopWait hw
          · obtain ⟨hv, hi⟩ := callWrite_stream h
            rw [hv, hi, hpop _ [], logs_logs]
            · exact .loopFailed hw
            · rfl
            · rw [logObs_streamView, setErrno_streamView, hwrite]
      · rename_i n _
        split at h
        · cases h
          unfold finishWrite
          split
          · have hcalled : ∀ st, [Obs.called s op st].filter (isStreamObs s) = [.called s op st] :=
              fun st => by simp [isStreamObs]
            rw [logObs_streamView, hpop _ ((wr.data.drop wr.written).take n), hcalled, logs_logs]
            · exact .loopCalled hw
            · rfl
            · rw [setOp_streamView, logObs_streamView, hwrite]
          · have huncalled : [Obs.uncalled s op].filter (isStreamObs s) = [.uncalled s op] := by
              simp [isStreamObs]
            rw [goOn_streamView, logObs_streamView, hpop _ ((wr.data.drop wr.written).take n),
              huncalled, logs_logs]
            · exact .loopUncalled hw
            · rfl
            · rw [setOp_streamView, logObs_streamView, hwrite]
        · cases h
          rw [goOn_streamView, setOp_streamView, logObs_streamView, hwrite]
          exact .loopAgain hw
  · rename_i hw
    have hv : (pd_eventSet (setPollout w s false) s (a.sys 0)).streamView s =
        ((w.streamView s).setPollout false).logs [.ctl (.tcp s) (w.tcp s).fd .mod] := by
      rw [pd_eventSet_streamView, setPollout_streamView]
      rfl
    have hst : ((pd_eventSet (setPollout w s false) s (a.sys 0)).tcp s).status =
        (w.tcp s).status := congrArg (·.tcp.status) hv
    split at h
    · rename_i hshut
      cases h
      rw [goOn_streamView, shutdownWr_streamView, hv, logs_logs]
      exact .loopShut hw (hst.symm.trans hshut)
    · rename_i hshut
      cases h
      rw [goOn_streamView, hv]
      exact .loopEnd hw fun h => hshut (hst.trans h)

theorem pd_tcpClientIo_stream {ev : Events} (hh : (w.tcp s).handler = some .clientIo) :
    StreamExec s w.now (w.streamView s) (.dispatch (.tcp s) ev)
      ((pd_tcpClientIo w s ev).1.streamView s) (pd_tcpClientIo w s ev).2 := by
  simp only [pd_tcpClientIo, pd_tcpRead]
  split
  · rename_i hin
    split
    · rename_i hd
      have hd : (w.tcp s).onData = false := by simpa using hd
      exact .client hh (.inr hd)
    · rename_i hd
      have halloc : [Obs.cb (.allocator s) w.now].filter (isStreamObs s) =
          [.cb (.allocator s) w.now] := by simp [isStreamObs]
      have hd : (w.tcp s).onData = true := by simpa using hd
      rw [call_streamView, halloc]
      exact .clientRead hh hin hd
  · rename_i hin
    exact .client hh (.inl (by simpa using hin))

theorem pd_tcpConnectIo_stream {ev : Events} (hh : (w.tcp s).handler = some .connectIo) :
    StreamExec s w.now (w.streamView s) (.dispatch (.tcp s) ev)
      ((pd_tcpConnectIo w s ev a).1.streamView s) (pd_tcpConnectIo w s ev a).2 := by
  have hcall : ∀ st, [Obs.cb (.onConnect s st) w.now].filter (isStreamObs s) =
      [.cb (.onConnect s st) w.now] := fun st => by simp [isStreamObs]
  have herr : [Obs.sockError s (w.tcp s).fd].filter (isStreamObs s) =
      [.sockError s (w.tcp s).fd] := by simp [isStreamObs]
  simp only [pd_tcpConnectIo]
  split
  · exact .connectNothing hh
  · rename_i hst
    split
    · rename_i hc
      split
      · rename_i hcb
        rw [call_streamView, logObs_streamView, herr, logs_logs]
        exact (hcall _).symm ▸ .connectFailed hh hst hcb hc
      · rename_i hcb
        rw [goOn_streamView, logObs_streamView, herr]
        exact .connectHungUp hh hst (Bool.eq_false_iff.mpr hcb) hc
    · split
      · rename_i ho
        have hv : (pd_eventSet (w.setTcp s
            { w.tcp s with
              status := .active, handler := some .clientIo
              flags := { (w.tcp s).flags with pollout := false } }) s (a.sys 0)).streamView s =
            (w.streamView s).connected s := by
          rw [pd_eventSet_streamView, setTcp_streamView]
          rfl
        have hkeep := congrArg (fun v => v.tcp.onConnect) hv
        split
        · have hnow : [Obs.cb (.onConnect s 0) (pd_eventSet (w.setTcp s
              { w.tcp s with
                status := .active, handler := some .clientIo
                flags := { (w.tcp s).flags with pollout := false } }) s (a.sys 0)).now].filter
              (isStreamObs s) = [.cb (.onConnect s 0) w.now] := hcall 0
          rename_i hcb
          rw [call_streamView, hv, hnow]
          exact .connectedCalled hh hst (hkeep ▸ hcb) ho
        · rename_i hcb
          rw [goOn_streamView, hv]
          exact .connected hh hst (hkeep ▸ Bool.eq_false_iff.mpr hcb) ho
      · exact .connectNothing hh

/-- **What a frame that works for a stream does to it.** -/
theorem exec_stream {f : Frame} (hf : f.stream = some s) (h : exec w f a = some r) :
    StreamExec s w.now (w.streamView s) f (r.1.streamView s) r.2 := by
  cases f with
  | closeDrain s' => cases hf; exact closeDrain_stream h
  | close s' =>
    cases hf
    cases h
    rcases pdTcpClose_stream (w := w) (s := s) (a := a) with ⟨hst, hr⟩ | ⟨hst, hv, hi⟩
    · rw [hr]
      exact .closeAgain hst
    · rw [hv, hi]
      exact .close hst
  | readAlloc s' => cases hf; exact readAlloc_stream h
  | readTry s' buf => cases hf; exact readTry_stream h
  | clientIoRest s' ev => cases hf; cases h; exact clientIoRest_stream
  | writeTry s' op => cases hf; exact writeTry_stream h
  | writeLoop s' => cases hf; exact writeLoop_stream h
  | dispatch hd ev =>
    cases hd with
    | tcp s' =>
      cases hf
      simp only [exec, dispatch] at h
      split at h
      · rename_i hh
        cases h
        exact pd_tcpClientIo_stream hh
      · rename_i hh
        cases h
        exact pd_tcpConnectIo_stream hh
      · cases h
    | _ => cases hf
  | _ => cases hf

end

/-! ## The calls of the application -/

/-- What a call that works for the stream does to it, and leaves on the stack. -/
inductive StreamApi (s : Sid) (v : StreamView) : Call → StreamView → List Item → Prop where
  | accept {fd : Fd} : StreamApi s v (.tcpAccept s fd)
      ({ v with
        tcp := { v.tcp with
          fd := fd, status := .active, handler := some .clientIo
          flags := { v.tcp.flags with pollin := true } } }.logs
        [.opened s fd, .ctl (.tcp s) fd .add]) []
  | connectNothing {b : Bool} : StreamApi s v (.tcpConnect s b) v []
  /-- The stream is given a descriptor, which is closed at once. -/
  | connectRefused {b : Bool} {fd : Fd} :
      StreamApi s v (.tcpConnect s b) ((v.connecting fd b).logs [.abandoned s fd]) []
  /-- The stream is given a descriptor, which is registered. -/
  | connect {b : Bool} {fd : Fd} : StreamApi s v (.tcpConnect s b)
      ((v.connecting fd b).logs [.opened s fd, .ctl (.tcp s) fd .add]) []
  | writeRefused {op : Op} {r : WriteOp} : v.tcp.status ≠ .active →
      StreamApi s v (.tcpWrite s op r) (v.logs [.refused s op]) [.app (.write s op PD_ECANCELED)]
  | write {op : Op} {r : WriteOp} : v.tcp.status = .active → v.tcp.writes = [] →
      StreamApi s v (.tcpWrite s op r) (v.logs [.accepted s op]) [.lib (.writeTry s op)]
  | writeQueued {op : Op} {r : WriteOp} : v.tcp.status = .active → v.tcp.writes ≠ [] →
      StreamApi s v (.tcpWrite s op r) ((v.logs [.accepted s op]).enqueue s op) []
  | closeAgain : v.tcp.status = .closed → StreamApi s v (.tcpClose s) v []
  | close : v.tcp.status ≠ .closed →
      StreamApi s v (.tcpClose s) (v.close s) [.lib (.closeDrain s)]
  | shutNothing : v.tcp.status ≠ .active → StreamApi s v (.tcpShutdown s) v []
  | shut : v.tcp.status = .active → v.tcp.writes = [] →
      StreamApi s v (.tcpShutdown s) ((v.setStatus .shutdown).logs [.shutdown s v.tcp.fd]) []
  | shutLater : v.tcp.status = .active → v.tcp.writes ≠ [] →
      StreamApi s v (.tcpShutdown s)
        (((v.setStatus .shutdown).setPollout true).logs [.ctl (.tcp s) v.tcp.fd .mod]) []
  | pause : StreamApi s v (.tcpPause s)
      ((v.setPollin false).logs [.ctl (.tcp s) v.tcp.fd .mod]) []
  | resume : StreamApi s v (.tcpResume s)
      ((v.setPollin true).logs [.ctl (.tcp s) v.tcp.fd .mod]) []
  | setOnData {b : Bool} :
      StreamApi s v (.setOnData s b) { v with tcp := { v.tcp with onData := b } } []
  | setOnClose {b : Bool} :
      StreamApi s v (.setOnClose s b) { v with tcp := { v.tcp with onClose := b } } []

section
variable {w : World} {s : Sid} {a : Answer} {r : World × List Item}

theorem pdTcpConnect_stream {b : Bool} : StreamApi s (w.streamView s) (.tcpConnect s b)
    ((pdTcpConnect w s b a).streamView s) [] := by
  have hopened : ∀ fd, [Obs.opened s fd].filter (isStreamObs s) = [.opened s fd] :=
    fun fd => by simp [isStreamObs]
  have habandoned : ∀ fd, [Obs.abandoned s fd].filter (isStreamObs s) = [.abandoned s fd] :=
    fun fd => by simp [isStreamObs]
  simp only [pdTcpConnect]
  split
  · rw [failErrno_streamView, setErrno_streamView]
    exact .connectNothing
  · split
    · rw [failErrno_streamView, closeQuietly_streamView, setErrno_streamView, setKernel_streamView]
      exact .connectNothing
    · split
      · rw [failErrno_streamView, closeQuietly_streamView, setErrno_streamView,
          setKernel_streamView]
        exact .connectNothing
      · rw [failErrno_streamView, closeQuietly_streamView, setKernel_streamView]
        exact .connectNothing
      · split
        · rw [setResult_streamView, incRefs_streamView, pd_eventAdd_streamView, logObs_streamView,
            setTcp_streamView, setKernel_streamView, hopened, logs_logs]
          exact .connect
        · split
          · rw [failErrno_streamView, closeQuietly_streamView, logObs_streamView,
              setErrno_streamView, setTcp_streamView, setKernel_streamView, habandoned]
            exact .connectRefused
          · rw [setResult_streamView, incRefs_streamView, pd_eventAdd_streamView,
              logObs_streamView, setErrno_streamView, setTcp_streamView, setKernel_streamView,
              hopened, logs_logs]
            exact .connect

theorem pdTcpWrite_stream {op : Op} {wr : WriteOp} (h : pdTcpWrite w s op wr a = some r) :
    StreamApi s (w.streamView s) (.tcpWrite s op wr) (r.1.streamView s) r.2 := by
  have haccepted : [Obs.accepted s op].filter (isStreamObs s) = [.accepted s op] := by
    simp [isStreamObs]
  simp only [pdTcpWrite] at h
  split at h
  · rename_i hst
    split at h <;> cases h
    rw [logObs_streamView, setOp_streamView]
    simp only [isStreamObs, decide_true, List.filter_cons_of_pos, List.filter_nil]
    exact .writeRefused hst
  · rename_i hst
    have hst : (w.tcp s).status = .active := by simpa [setOp] using hst
    split at h
    · rename_i hw
      cases h
      rw [goOn_streamView, logObs_streamView, setOp_streamView, haccepted]
      exact .write hst hw
    · rename_i hw
      rcases pdTcpWriteAsync_stream h with ⟨_, hv, hi⟩ | ⟨hne, _⟩
      · rw [hv, hi, logObs_streamView, setOp_streamView, haccepted]
        exact .writeQueued hst hw
      · exact absurd hst hne

/-- **What a call that works for a stream does to it.** -/
theorem api_stream {c : Call} (hc : c.stream = some s) (h : api w c a = some r) :
    StreamApi s (w.streamView s) c (r.1.streamView s) r.2 := by
  cases c with
  | tcpAccept s' fd =>
    cases hc
    cases h
    have hopened : [Obs.opened s fd].filter (isStreamObs s) = [.opened s fd] := by
      simp [isStreamObs]
    rw [goOn_streamView, pdTcpAccept, incRefs_streamView, pd_eventAdd_streamView,
      logObs_streamView, setTcp_streamView, hopened, logs_logs]
    exact .accept
  | tcpConnect s' b => cases hc; cases h; exact pdTcpConnect_stream
  | tcpWrite s' op wr =>
    cases hc
    simp only [api] at h
    split at h
    · exact pdTcpWrite_stream h
    · cases h
  | tcpClose s' =>
    cases hc
    cases h
    rcases pdTcpClose_stream (w := w) (s := s) (a := a) with ⟨hst, hr⟩ | ⟨hst, hv, hi⟩
    · rw [hr]
      exact .closeAgain hst
    · rw [hv, hi]
      exact .close hst
  | tcpShutdown s' =>
    cases hc
    cases h
    rw [goOn_streamView]
    simp only [pdTcpShutdown]
    split
    · rename_i hst
      exact .shutNothing hst
    · rename_i hst
      have hst : (w.tcp s).status = .active := by simpa using hst
      have hself : ((w.setTcp s { w.tcp s with status := .shutdown }).tcp s).writes =
          (w.tcp s).writes := by simp [World.setTcp]
      split
      · rename_i hw
        rw [shutdownWr_streamView, setTcp_streamView]
        exact .shut hst (hself.symm.trans hw)
      · rename_i hw
        rw [pd_eventSet_streamView, setPollout_streamView, setTcp_streamView]
        exact .shutLater hst fun h => hw (hself.trans h)
  | tcpPause s' =>
    cases hc
    cases h
    rw [goOn_streamView, pdTcpPause, pd_eventSet_streamView, setPollin_streamView]
    exact .pause
  | tcpResume s' =>
    cases hc
    cases h
    rw [goOn_streamView, pdTcpResume, pd_eventSet_streamView, setPollin_streamView]
    exact .resume
  | setOnData s' b =>
    cases hc
    cases h
    rw [goOn_streamView, setTcp_streamView]
    exact .setOnData
  | setOnClose s' b =>
    cases hc
    cases h
    rw [goOn_streamView, setTcp_streamView]
    exact .setOnClose
  | _ => cases hc

end

/-! ## Steps of the machine -/

section
variable {c c' : Cfg} {x : Act} {s : Sid}

/-- What a step does to one stream: it works for it, or leaves it alone. -/
theorem step_stream (hs : step c x = some c') :
    c'.world.streamView s = c.world.streamView s ∨
    (∃ a f rest l, x = .lib a ∧ c.stack = .lib f :: rest ∧ c'.stack = l ++ rest ∧
      StreamExec s c.world.now (c.world.streamView s) f (c'.world.streamView s) l) ∨
    ∃ k a cb rest l, x = .api k a ∧ c.stack = .app cb :: rest ∧ c'.stack = l ++ .app cb :: rest ∧
      StreamApi s (c.world.streamView s) k (c'.world.streamView s) l := by
  rcases step_cases hs with ⟨a, f, rest, r, rfl, hst, hr, rfl⟩ |
    ⟨k, a, cb, rest, r, rfl, hst, hr, rfl⟩ | ⟨p, cb, rest, rfl, hst, hcb, rfl⟩ |
    ⟨e, w', rfl, he, rfl⟩
  · by_cases hf : f.stream = some s
    · exact .inr (.inl ⟨a, f, rest, r.2, rfl, hst, rfl, exec_stream hf hr⟩)
    · exact .inl (exec_streamView hf hr)
  · by_cases hk : k.stream = some s
    · exact .inr (.inr ⟨k, a, cb, rest, r.2, rfl, hst, rfl, api_stream hk hr⟩)
    · exact .inl (api_streamView hk hr)
  · exact .inl rfl
  · exact .inl (env_streamView he)

end

end Pandio
