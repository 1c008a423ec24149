import Pandio.Iocp.Loop

/- What a step does to the stream it works for: to its record, its socket, its packets
   in the port and the log, and what it leaves on the stack. Steps that work for
   another stream, or for none, leave all of it as it is. -/
namespace Pandio.Iocp
open Pandio.Iocp.World

/-! ## The view of one stream -/

/-- The entries of the log that are about a stream, up to its turn in the queue of closes. -/
def isObs (s : Sid) : Obs → Bool
  | .wsaRecv s' _ | .wsaSend s' _ _ | .received s' _ | .accepted s' | .connected s' | .paused s'
  | .resumed s' | .close s' | .closesocket s' | .pushed s' | .shutdown s' | .cb (.write s' _ _)
  | .cb (.allocator s') | .cb (.onData s' _ _ _) | .cb (.onConnect s' _) => s' = s
  | _ => false

example (s : Sid) : isObs s (.pushed s) = true := by simp [isObs]

/-- What the state holds of a stream. -/
structure View where
  tcp : Tcp
  sock : Sock
  port : List Packet
  log : List Obs

def World.view (w : World) (s : Sid) : View :=
  { tcp := w.tcp s, sock := w.sock s, port := w.port.filter (·.stream = s)
    log := w.log.filter (isObs s) }

namespace View

variable (v : View) (s : Sid)

def logs (l : List Obs) : View := { v with log := v.log ++ l }

def setTcp (t : Tcp) : View := { v with tcp := t }

def setFlags (f : StreamFlags) : View := v.setTcp { v.tcp with flags := f }

def setStatus (st : TcpStatus) : View := v.setTcp { v.tcp with status := st }

def setSock (k : Sock) : View := { v with sock := k }

def packets (l : List Packet) : View := { v with port := v.port ++ l }

/-- The packets of receives that are cancelled. -/
def aborted (recvs : List Nat) : List Packet := recvs.map fun buf => .recv s ⟨buf, [], .aborted⟩

/-- `CancelIoEx` on the receives. -/
def cancelIoEx : View :=
  (v.setSock { v.sock with recvs := [] }).packets (aborted s v.sock.recvs)

/-- `CancelIo`. -/
def cancelIo : View :=
  (v.setSock { v.sock with recvs := [], sends := [], connecting := false }).packets
    (aborted s v.sock.recvs ++ v.sock.sends.map (.send s) ++
      if v.sock.connecting then [.connect s PD_EINTR] else [])

/-- The socket is closed and the stream queued. -/
def finish : View :=
  ((v.cancelIo s).setSock { (v.cancelIo s).sock with isOpen := false }).logs
    [.closesocket s, .pushed s]

/-- `pd__tcp_try_close`. -/
def tryClose : View :=
  if 0 < v.tcp.writesSize ∨ v.tcp.flags.pendingRead = true then v else v.finish s

/-- `pd_tcp_close` of a stream that is not closed, up to `pd__tcp_try_close`. -/
def cancel : View :=
  let v := v.setStatus .closed
  let v := if 0 < v.tcp.writesSize then v.cancelIo s else v
  let v := if v.tcp.flags.pendingRead then v.cancelIoEx s else v
  v.setFlags { v.tcp.flags with reading := false, writing := false }

/-- `pd_tcp_close`. -/
def close : View := if v.tcp.status = .closed then v else (v.cancel s).tryClose s

/-- `pd__tcp_write_io` after the callback. -/
def sent : View :=
  let v := v.setTcp { v.tcp with writesSize := v.tcp.writesSize - 1 }
  if v.tcp.writesSize = 0 then
    let v := v.setFlags { v.tcp.flags with writing := false }
    if v.tcp.status = .shutdown then v.logs [.shutdown s] else v
  else v

end View

section
variable (w : World) (s : Sid)

@[simp] theorem logObs_view (o : Obs) :
    (w.logObs o).view s = (w.view s).logs ([o].filter (isObs s)) := by
  simp [World.view, logObs, View.logs]

@[simp] theorem setTcp_view (t : Tcp) : (w.setTcp s t).view s = (w.view s).setTcp t := by
  simp [World.view, World.setTcp, View.setTcp]

@[simp] theorem setSock_view (k : Sock) : (w.setSock s k).view s = (w.view s).setSock k := by
  simp [World.view, World.setSock, View.setSock]

@[simp] theorem setTcp_view_ne {s' : Sid} (t : Tcp) (h : s' ≠ s) :
    (w.setTcp s' t).view s = w.view s := by
  simp [World.view, World.setTcp, h.symm]

@[simp] theorem setSock_view_ne {s' : Sid} (k : Sock) (h : s' ≠ s) :
    (w.setSock s' k).view s = w.view s := by
  simp [World.view, World.setSock, h.symm]

@[simp] theorem setOp_view (s' : Sid) (o : Op) (r : WriteOp) :
    (w.setOp s' o r).view s = w.view s := rfl

@[simp] theorem setRefs_view (n : Nat) : (w.setRefs n).view s = w.view s := rfl

@[simp] theorem incRefs_view : w.incRefs.view s = w.view s := rfl

@[simp] theorem decRefs_view : w.decRefs.view s = w.view s := rfl

@[simp] theorem setOthers_view (n : Nat) : (w.setOthers n).view s = w.view s := rfl

@[simp] theorem setPendingCloses_view (q : IntrusiveQueue Sid) :
    (w.setPendingCloses q).view s = w.view s := rfl

@[simp] theorem setAfterTick_view (b : Bool) : (w.setAfterTick b).view s = w.view s := rfl

@[simp] theorem setPtr_view (p : Option Nat) : (w.setPtr p).view s = w.view s := rfl

@[simp] theorem setResult_view (n : Int) : (w.setResult n).view s = w.view s := rfl

/-- The kernel's side of a stream changes, and packets of it are added to the port. -/
theorem setSock_setPort_view {k : Sock} {l : List Packet} (hl : ∀ p ∈ l, p.stream = s) :
    ((w.setSock s k).setPort (w.port ++ l)).view s = ((w.view s).setSock k).packets l := by
  have hfilter : l.filter (·.stream = s) = l := by
    apply List.filter_eq_self.mpr
    simpa using hl
  simp [World.view, World.setSock, setPort, View.packets, View.setSock, hfilter]

theorem setSock_setPort_view_ne {s' : Sid} {k : Sock} {l : List Packet} (hs : s' ≠ s)
    (hl : ∀ p ∈ l, p.stream = s') :
    ((w.setSock s' k).setPort (w.port ++ l)).view s = w.view s := by
  have hfilter : l.filter (·.stream = s) = [] := by
    apply List.filter_eq_nil_iff.mpr
    intro p hp
    simpa [hl p hp] using hs
  simp [World.view, World.setSock, setPort, hfilter, hs.symm]

@[simp] theorem goOn_view (fs : List Frame) : (w.goOn fs).1.view s = w.view s := rfl

@[simp] theorem call_view (k : Cb) (fs : List Frame) :
    (w.call k fs).1.view s = (w.view s).logs ([.cb k].filter (isObs s)) := by
  simp [World.call]

theorem tcp_view : (w.view s).tcp = w.tcp s := rfl

theorem sock_view : (w.view s).sock = w.sock s := rfl

@[simp] theorem setFlags_view_ne {s' : Sid} (f : StreamFlags) (h : s' ≠ s) :
    (w.setFlags s' f).view s = w.view s := setTcp_view_ne w s _ h

@[simp] theorem setStatus_view_ne {s' : Sid} (st : TcpStatus) (h : s' ≠ s) :
    (w.setStatus s' st).view s = w.view s := setTcp_view_ne w s _ h

@[simp] theorem logs_nil (v : View) : v.logs [] = v := by simp [View.logs]

@[simp] theorem logs_logs (v : View) (l m : List Obs) :
    (v.logs l).logs m = v.logs (l ++ m) := by simp [View.logs]

@[simp] theorem logs_tcp (v : View) (l : List Obs) : (v.logs l).tcp = v.tcp := rfl

@[simp] theorem logs_sock (v : View) (l : List Obs) : (v.logs l).sock = v.sock := rfl

@[simp] theorem logs_setTcp (v : View) (l : List Obs) (t : Tcp) :
    (v.logs l).setTcp t = (v.setTcp t).logs l := rfl

@[simp] theorem logs_setSock (v : View) (l : List Obs) (k : Sock) :
    (v.logs l).setSock k = (v.setSock k).logs l := rfl

@[simp] theorem setSock_setTcp (v : View) (k : Sock) (t : Tcp) :
    (v.setSock k).setTcp t = (v.setTcp t).setSock k := rfl

@[simp] theorem setTcp_setTcp (v : View) (t t' : Tcp) : (v.setTcp t).setTcp t' = v.setTcp t' := rfl

@[simp] theorem setTcp_tcp (v : View) (t : Tcp) : (v.setTcp t).tcp = t := rfl

@[simp] theorem setTcp_sock (v : View) (t : Tcp) : (v.setTcp t).sock = v.sock := rfl

@[simp] theorem setFlags_view (f : StreamFlags) :
    (w.setFlags s f).view s = (w.view s).setFlags f := by
  simp [World.setFlags, View.setFlags, tcp_view]

@[simp] theorem setStatus_view (st : TcpStatus) :
    (w.setStatus s st).view s = (w.view s).setStatus st := by
  simp [World.setStatus, View.setStatus, tcp_view]

theorem aborted_stream {l : List Nat} : ∀ p ∈ View.aborted s l, p.stream = s := by
  simp [View.aborted, Packet.stream]

theorem cancelIo_stream (k : Sock) : ∀ p ∈ View.aborted s k.recvs ++ k.sends.map (.send s) ++
    (if k.connecting then [.connect s PD_EINTR] else []), p.stream = s := by
  intro p hp
  rcases List.mem_append.mp hp with hp | hp
  · rcases List.mem_append.mp hp with hp | hp
    · exact aborted_stream s p hp
    · obtain ⟨op, _, rfl⟩ := List.mem_map.mp hp
      rfl
  · split at hp
    · rw [List.mem_singleton.mp hp]
      rfl
    · cases hp

theorem cancelIo_eq : w.cancelIo s =
    (w.setSock s { w.sock s with recvs := [], sends := [], connecting := false }).setPort
      (w.port ++ (View.aborted s (w.sock s).recvs ++ (w.sock s).sends.map (.send s) ++
        if (w.sock s).connecting then [.connect s PD_EINTR] else [])) := by
  simp only [World.cancelIo, View.aborted, List.append_assoc]

@[simp] theorem cancelIoEx_view : (w.cancelIoEx s).view s = (w.view s).cancelIoEx s :=
  setSock_setPort_view w s (aborted_stream s)

@[simp] theorem cancelIo_view : (w.cancelIo s).view s = (w.view s).cancelIo s := by
  rw [cancelIo_eq]
  exact setSock_setPort_view w s (cancelIo_stream s _)

@[simp] theorem closesocket_view : (w.closesocket s).view s =
    ((w.view s).cancelIo s).setSock { ((w.view s).cancelIo s).sock with isOpen := false } := by
  simp only [World.closesocket, setSock_view, ← sock_view, cancelIo_view]

theorem cancelIoEx_view_ne {s' : Sid} (hs : s' ≠ s) : (w.cancelIoEx s').view s = w.view s :=
  setSock_setPort_view_ne w s hs (aborted_stream s')

theorem cancelIo_view_ne {s' : Sid} (hs : s' ≠ s) : (w.cancelIo s').view s = w.view s := by
  rw [cancelIo_eq]
  exact setSock_setPort_view_ne w s hs (cancelIo_stream s' _)

end

/-! ## Closing -/

section
variable {w w' : World} {s s' : Sid}

theorem pd_tcpTryClose_view (h : pd_tcpTryClose w s = some w') :
    w'.view s = (w.view s).tryClose s := by
  unfold pd_tcpTryClose at h
  rw [← tcp_view] at h
  split at h
  · rename_i hw
    cases h
    rw [View.tryClose, if_pos (.inl hw)]
  · rename_i hw
    split at h
    · rename_i hr
      cases h
      rw [View.tryClose, if_pos (.inr hr)]
    · rename_i hr
      obtain ⟨q, _, rfl⟩ := Option.map_eq_some_iff.mp h
      rw [View.tryClose, if_neg (not_or.mpr ⟨hw, hr⟩)]
      simp [View.finish, isObs, View.logs]

theorem pdTcpClose_view (h : pdTcpClose w s = some w') : w'.view s = (w.view s).close s := by
  unfold pdTcpClose at h
  rw [View.close, tcp_view]
  split at h
  · rename_i hst
    cases h
    rw [if_pos hst]
  · rename_i hst
    rw [if_neg hst, pd_tcpTryClose_view h]
    simp only [View.cancel, setFlags_view, apply_ite (World.view · s), cancelIoEx_view,
      cancelIo_view, setStatus_view, ← tcp_view]

theorem pd_tcpTryClose_view_ne (hs : s' ≠ s) (h : pd_tcpTryClose w s' = some w') :
    w'.view s = w.view s := by
  unfold pd_tcpTryClose at h
  split at h
  · cases h
    rfl
  · split at h
    · cases h
      rfl
    · obtain ⟨q, _, rfl⟩ := Option.map_eq_some_iff.mp h
      simp [World.closesocket, hs, cancelIo_view_ne _ _ hs, isObs]

theorem pdTcpClose_view_ne (hs : s' ≠ s) (h : pdTcpClose w s' = some w') :
    w'.view s = w.view s := by
  unfold pdTcpClose at h
  split at h
  · cases h
    rfl
  · rw [pd_tcpTryClose_view_ne hs h, setFlags_view_ne _ _ _ hs]
    split <;> split <;> simp [hs, cancelIo_view_ne _ _ hs, cancelIoEx_view_ne _ _ hs]

end

/-! ## The steps of the library -/

/-- The stream a frame works for. -/
def Frame.stream : Frame → Option Sid
  | .postRecv s | .readIoRest s | .writeIoRest s | .connectIoRest s => some s
  | .dispatch p => some p.stream
  | _ => none

/-- A receive is posted with this buffer. -/
def View.post (v : View) (s : Sid) (buf : Nat) : View :=
  (((v.setTcp
    { v.tcp with
      readBuf := some buf
      flags := { v.tcp.flags with reading := true, pendingRead := true } }).setSock
    { v.sock with recvs := v.sock.recvs ++ [buf] }).logs [.wsaRecv s .pending])

/-- `pd__tcp_read_io` has taken a receive from the port. -/
def View.took (v : View) (s : Sid) (r : Recv) : View :=
  (v.setFlags { v.tcp.flags with pendingRead := false }).logs [.received s r]

/-- What a frame that works for the stream does to it, and leaves on the stack. -/
inductive LibStep (s : Sid) (v : View) : Frame → View → List Item → Prop where
  | noBuffer : v.tcp.onData = true → LibStep s v (.postRecv s)
      ((v.setTcp { v.tcp with readBuf := none }).logs [.cb (.onData s none PD_ENOMEM [])])
      [.app (.onData s none PD_ENOMEM [])]
  /-- The kernel gives what has arrived at once, and no packet will come. -/
  | recvAtOnce {buf : Nat} {bytes : List UInt8} : v.tcp.onData = true → v.sock.isOpen = true →
      bytes <+: v.sock.rx → (bytes = [] → v.sock.rx = [] ∧ v.sock.fin = true) →
      LibStep s v (.postRecv s)
        (((v.setTcp { v.tcp with readBuf := some buf }).setSock
          { v.sock with taken := v.sock.taken + bytes.length }).logs
          [.wsaRecv s (.ok bytes.length), .cb (.onData s (some buf) bytes.length bytes)])
        [.app (.onData s (some buf) bytes.length bytes)]
  | recvError {buf : Nat} {e : Int} : v.tcp.onData = true → LibStep s v (.postRecv s)
      ((v.setTcp { v.tcp with readBuf := some buf }).logs
        [.wsaRecv s (.err e), .cb (.onData s (some buf) e [])])
      [.app (.onData s (some buf) e [])]
  | posted {buf : Nat} : v.sock.isOpen = true → v.sock.connected = true →
      LibStep s v (.postRecv s) (v.post s buf) []
  | readData {r : Recv} {bytes : List UInt8} : r.bytes ≠ [] →
      (v.tcp.readBuf = some r.buf → bytes = r.bytes) → LibStep s v (.dispatch (.recv s r))
        ((v.took s r).logs [.cb (.onData s v.tcp.readBuf r.bytes.length bytes)])
        [.app (.onData s v.tcp.readBuf r.bytes.length bytes), .lib (.readIoRest s)]
  | readNothing {r : Recv} : r.bytes = [] →
      LibStep s v (.dispatch (.recv s r)) ((v.took s r).close s) []
  | readClosed : v.tcp.status = .closed → LibStep s v (.readIoRest s) (v.tryClose s) []
  | readAgain : v.tcp.status ≠ .closed → v.tcp.flags.reading = true →
      LibStep s v (.readIoRest s) (v.logs [.cb (.allocator s)])
        [.app (.allocator s), .lib (.postRecv s)]
  | readPaused : v.tcp.status ≠ .closed → v.tcp.flags.reading = false →
      LibStep s v (.readIoRest s) v []
  | wrote {op : Op} : LibStep s v (.dispatch (.send s op)) (v.logs [.cb (.write s op 0)])
      [.app (.write s op 0), .lib (.writeIoRest s)]
  | wroteUncalled {op : Op} : LibStep s v (.dispatch (.send s op)) v [.lib (.writeIoRest s)]
  | writeClosed : v.tcp.status = .closed →
      LibStep s v (.writeIoRest s) ((v.sent s).tryClose s) []
  | writeRest : v.tcp.status ≠ .closed → LibStep s v (.writeIoRest s) (v.sent s) []
  | connected : LibStep s v (.dispatch (.connect s 0))
      (v.logs [.connected s, .cb (.allocator s)])
      [.app (.allocator s), .lib (.postRecv s), .lib (.connectIoRest s)]
  | connectFailed {st : Int} : st ≠ 0 → LibStep s v (.dispatch (.connect s st))
      (v.logs [.cb (.onConnect s st)]) [.app (.onConnect s st)]
  | connectFailedUncalled {st : Int} : st ≠ 0 → LibStep s v (.dispatch (.connect s st)) v []
  | connectRest : LibStep s v (.connectIoRest s)
      ((v.setStatus .active).logs [.cb (.onConnect s 0)]) [.app (.onConnect s 0)]
  | connectRestUncalled : LibStep s v (.connectIoRest s) (v.setStatus .active) []

section
variable {w : World} {s : Sid} {a : Answer} {r : World × List Item}

theorem callOnData_view {buf : Option Nat} {size : Int} {bytes : List UInt8} {fs : List Frame}
    (h : callOnData w s buf size bytes fs = some r) : (w.view s).tcp.onData = true ∧
      r.1.view s = (w.view s).logs [.cb (.onData s buf size bytes)] ∧
      r.2 = .app (.onData s buf size bytes) :: fs.map .lib := by
  unfold callOnData at h
  split at h
  · rename_i hd
    cases h
    exact ⟨hd, by simp [isObs], rfl⟩
  · cases h

theorem pd_tcpPostRecv_view {fs : List Frame} (h : pd_tcpPostRecv w s fs = some r) :
    r.1.view s = (w.view s).logs [.cb (.allocator s)] ∧
      r.2 = .app (.allocator s) :: .lib (.postRecv s) :: fs.map .lib := by
  unfold pd_tcpPostRecv at h
  split at h
  · cases h
    exact ⟨by simp [isObs], rfl⟩
  · cases h

theorem recvRes_ok {k : Sock} {size n : Nat} {x : WsaRes} (h : k.recvRes size x = .ok n) :
    k.isOpen = true ∧ n ≤ max 1 k.rx.length ∧ (n = 0 → k.rx = [] ∧ k.fin = true) ∧
      (k.rx = [] → n = 0) := by
  unfold Sock.recvRes at h
  split at h
  · cases h
  · rename_i ho
    refine ⟨by simpa using ho, ?_⟩
    split at h
    · cases h
    · split at h
      · cases h
      · cases h
      · split at h
        · rename_i hrx
          split at h
          · rename_i hfin
            cases h
            exact ⟨Nat.zero_le _, fun _ => ⟨hrx, hfin⟩, fun _ => rfl⟩
          · cases h
        · rename_i hrx
          have := List.length_pos_iff.mpr hrx
          cases h
          exact ⟨by omega, by omega, fun h => absurd h hrx⟩

theorem recvRes_pending {k : Sock} {size : Nat} {x : WsaRes} (h : k.recvRes size x = .pending) :
    k.isOpen = true ∧ k.connected = true := by
  unfold Sock.recvRes at h
  split at h
  · cases h
  · rename_i ho
    split at h
    · cases h
    · rename_i hc
      exact ⟨by simpa using ho, by simpa using hc⟩

theorem postRecv_view (h : postRecv w s a = some r) :
    LibStep s (w.view s) (.postRecv s) (r.1.view s) r.2 := by
  have hrecv : ∀ x, [Obs.wsaRecv s x].filter (isObs s) = [.wsaRecv s x] := by simp [isObs]
  simp only [postRecv] at h
  split at h
  · rename_i hp
    obtain ⟨hd, hv, hi⟩ := callOnData_view h
    rw [hv, hi, setTcp_view, show w.ptr = none from hp]
    exact .noBuffer (by rw [setTcp_view] at hd; exact hd)
  · rename_i buf hp
    have hbuf : (w.setTcp s { w.tcp s with readBuf := w.ptr }).view s =
        (w.view s).setTcp { (w.view s).tcp with readBuf := some buf } := by
      rw [setTcp_view, show w.ptr = some buf from hp]
      rfl
    have hsock : (w.setTcp s { w.tcp s with readBuf := w.ptr }).sock s = (w.view s).sock := rfl
    generalize w.setTcp s { w.tcp s with readBuf := w.ptr } = w1 at h hbuf hsock
    rw [hsock] at h
    split at h
    · rename_i n hn
      obtain ⟨ho, hle, h0, h1⟩ := recvRes_ok hn
      obtain ⟨hd, hv, hi⟩ := callOnData_view h
      rw [setSock_view, logObs_view, hbuf] at hd hv
      have hlen : ((w.view s).sock.rx.take n).length = n := by
        apply List.length_take_of_le
        rcases List.eq_nil_or_concat (w.view s).sock.rx with hrx | ⟨l, b, hrx⟩
        · rw [h1 hrx]
          exact Nat.zero_le _
        · rw [hrx] at hle ⊢
          simp at hle ⊢
          omega
      have hstep := @LibStep.recvAtOnce s (w.view s) buf ((w.view s).sock.rx.take n) hd ho
        (List.take_prefix ..) (fun hb => h0 (by rw [← hlen, hb]; rfl))
      rw [hlen] at hstep
      rw [hv, hi, hn, hrecv, logs_setSock, logs_logs]
      exact hstep
    · rename_i e hn
      obtain ⟨hd, hv, hi⟩ := callOnData_view h
      rw [logObs_view, hbuf] at hd hv
      rw [hv, hi, hn, hrecv, logs_logs]
      exact .recvError hd
    · rename_i hn
      obtain ⟨ho, hc⟩ := recvRes_pending hn
      cases h
      have hstep := @LibStep.posted s (w.view s) buf ho hc
      have hflags : ∀ o k, (((w1.logObs o).setSock s k).tcp s).flags = (w.view s).tcp.flags :=
        fun o k => congrArg (·.tcp.flags) hbuf
      rw [goOn_view, setFlags_view, setSock_view, logObs_view, hbuf, hn, hrecv, hflags,
        View.setFlags, logs_setSock, logs_setTcp, setSock_setTcp, setTcp_setTcp]
      exact hstep

theorem pd_tcpReadIo_view {x : Recv} (h : pd_tcpReadIo w s x = some r) :
    LibStep s (w.view s) (.dispatch (.recv s x)) (r.1.view s) r.2 := by
  have hrecv : [Obs.received s x].filter (isObs s) = [.received s x] := by simp [isObs]
  have htook : ((w.setFlags s { (w.tcp s).flags with pendingRead := false }).logObs
      (.received s x)).view s = (w.view s).took s x := by
    rw [logObs_view, setFlags_view, hrecv]
    rfl
  simp only [pd_tcpReadIo] at h
  split at h
  · rename_i hb
    obtain ⟨_, hv, hi⟩ := callOnData_view h
    rw [hv, hi, htook]
    generalize (w.setFlags s { (w.tcp s).flags with pendingRead := false }).logObs
      (.received s x) = w1 at htook
    have hbuf : (w1.tcp s).readBuf = (w.view s).tcp.readBuf := congrArg (·.tcp.readBuf) htook
    rw [received, hbuf]
    refine .readData (List.ne_nil_of_length_pos hb) fun hr => ?_
    rw [if_pos hr]
  · rename_i hb
    obtain ⟨w', hw', rfl⟩ := Option.map_eq_some_iff.mp h
    have hstep := LibStep.readNothing (s := s) (v := w.view s) (r := x)
      (List.length_eq_zero_iff.mp (Nat.eq_zero_of_not_pos hb))
    rw [goOn_view, pdTcpClose_view hw', htook]
    exact hstep

theorem readIoRest_view (h : readIoRest w s = some r) :
    LibStep s (w.view s) (.readIoRest s) (r.1.view s) r.2 := by
  unfold readIoRest at h
  split at h
  · rename_i hst
    obtain ⟨w', hw', rfl⟩ := Option.map_eq_some_iff.mp h
    rw [goOn_view, pd_tcpTryClose_view hw']
    exact .readClosed hst
  · rename_i hst
    split at h
    · rename_i hr
      obtain ⟨hv, hi⟩ := pd_tcpPostRecv_view h
      rw [hv, hi]
      exact .readAgain hst hr
    · rename_i hr
      cases h
      exact .readPaused hst (Bool.eq_false_of_not_eq_true hr)

theorem pd_tcpWriteIo_view {op : Op} : LibStep s (w.view s) (.dispatch (.send s op))
    ((pd_tcpWriteIo w s op).1.view s) (pd_tcpWriteIo w s op).2 := by
  unfold pd_tcpWriteIo
  split
  · have hcb : [Obs.cb (.write s op 0)].filter (isObs s) = [.cb (.write s op 0)] := by
      simp [isObs]
    rw [call_view, hcb]
    exact .wrote
  · exact .wroteUncalled

theorem writeDone_view : (writeDone w s).view s = (w.view s).sent s := by
  have hshut : [Obs.shutdown s].filter (isObs s) = [.shutdown s] := by simp [isObs]
  by_cases h0 : (w.view s).tcp.writesSize - 1 = 0
  · by_cases hst : (w.view s).tcp.status = .shutdown
    · simp [writeDone, View.sent, ← tcp_view, h0, hst, hshut, View.setFlags]
    · simp [writeDone, View.sent, ← tcp_view, h0, hst, View.setFlags]
  · simp [writeDone, View.sent, ← tcp_view, h0]

theorem sent_status (v : View) : (v.sent s).tcp.status = v.tcp.status := by
  simp only [View.sent]
  split
  · split <;> rfl
  · rfl

theorem sent_sock (v : View) : (v.sent s).sock = v.sock := by
  simp only [View.sent]
  split
  · split <;> rfl
  · rfl

theorem writeIoRest_view (h : writeIoRest w s = some r) :
    LibStep s (w.view s) (.writeIoRest s) (r.1.view s) r.2 := by
  have hst : ((writeDone w s).tcp s).status = (w.view s).tcp.status := by
    rw [← tcp_view, writeDone_view, sent_status]
  simp only [writeIoRest, hst] at h
  split at h
  · rename_i hc
    obtain ⟨w', hw', rfl⟩ := Option.map_eq_some_iff.mp h
    rw [goOn_view, pd_tcpTryClose_view hw', writeDone_view]
    exact .writeClosed hc
  · rename_i hc
    cases h
    rw [goOn_view, writeDone_view]
    exact .writeRest hc

theorem pd_tcpConnectIo_view {st : Int} (h : pd_tcpConnectIo w s st = some r) :
    LibStep s (w.view s) (.dispatch (.connect s st)) (r.1.view s) r.2 := by
  have hconn : [Obs.connected s].filter (isObs s) = [.connected s] := by simp [isObs]
  have hcb : [Obs.cb (.onConnect s st)].filter (isObs s) = [.cb (.onConnect s st)] := by
    simp [isObs]
  unfold pd_tcpConnectIo at h
  split at h
  · rename_i hst
    obtain ⟨hv, hi⟩ := pd_tcpPostRecv_view h
    rw [hv, hi, logObs_view, hconn, logs_logs, hst]
    exact .connected
  · rename_i hst
    split at h
    · cases h
      rw [call_view, hcb]
      exact .connectFailed hst
    · cases h
      exact .connectFailedUncalled hst

theorem connectIoRest_view : LibStep s (w.view s) (.connectIoRest s)
    ((connectIoRest w s).1.view s) (connectIoRest w s).2 := by
  have hcb : [Obs.cb (.onConnect s 0)].filter (isObs s) = [.cb (.onConnect s 0)] := by
    simp [isObs]
  simp only [connectIoRest]
  split
  · rw [call_view, setStatus_view, hcb]
    exact .connectRest
  · rw [goOn_view, setStatus_view]
    exact .connectRestUncalled

/-- **What a frame that works for a stream does to it.** -/
theorem exec_view {f : Frame} (hf : f.stream = some s) (h : exec w f a = some r) :
    LibStep s (w.view s) f (r.1.view s) r.2 := by
  cases f with
  | postRecv s' => cases hf; exact postRecv_view h
  | readIoRest s' => cases hf; exact readIoRest_view h
  | writeIoRest s' => cases hf; exact writeIoRest_view h
  | connectIoRest s' => cases hf; cases h; exact connectIoRest_view
  | dispatch p =>
    cases p with
    | recv s' x => cases hf; exact pd_tcpReadIo_view h
    | send s' op => cases hf; cases h; exact pd_tcpWriteIo_view
    | connect s' st => cases hf; exact pd_tcpConnectIo_view h
  | _ => cases hf

end

/-! ## The calls of the application -/

/-- The stream a call works for. -/
def Call.stream : Call → Option Sid
  | .tcpAccept s | .tcpConnect s _ | .tcpWrite s _ _ | .tcpClose s | .tcpShutdown s | .tcpPause s
  | .tcpResume s | .setOnData s _ | .setOnClose s _ => some s
  | _ => none

/-- What a call that works for the stream does to it, and leaves on the stack. -/
inductive ApiStep (s : Sid) (v : View) (a : Answer) : Call → View → List Item → Prop where
  | accept : ApiStep s v a (.tcpAccept s)
      (((v.setTcp { v.tcp with status := .active, hasFd := true }).setSock
        (v.sock.replaced (.opened true))).logs [.accepted s, .cb (.allocator s)])
      [.app (.allocator s), .lib (.postRecv s)]
  | connectNothing {b : Bool} : ApiStep s v a (.tcpConnect s b) v []
  /-- The new socket is given back, or is there, unconnected, connecting or connected. -/
  | connect {b : Bool} {k : Sock} : (ConnectFails a ∧ k = .none ∨ ∃ x, k = connectSock x) →
      ApiStep s v a (.tcpConnect s b)
        ((v.setTcp { v.tcp with hasFd := true, onConnect := b }).setSock (v.sock.replaced k)) []
  | writeRefused {op : Op} {r : WriteOp} : v.tcp.status ≠ .active →
      ApiStep s v a (.tcpWrite s op r) (v.logs [.cb (.write s op PD_ECANCELED)])
        [.app (.write s op PD_ECANCELED)]
  | write {op : Op} {r : WriteOp} {x : WsaRes} {st : Int} : v.tcp.status = .active →
      x ≠ .pending → ApiStep s v a (.tcpWrite s op r)
        (v.logs [.wsaSend s op x, .cb (.write s op st)]) [.app (.write s op st)]
  | writePending {op : Op} {r : WriteOp} : v.tcp.status = .active → v.sock.isOpen = true →
      ApiStep s v a (.tcpWrite s op r)
        (((v.setTcp
          { v.tcp with
            writesSize := v.tcp.writesSize + 1
            flags := { v.tcp.flags with writing := true } }).setSock
          { v.sock with sends := v.sock.sends ++ [op] }).logs [.wsaSend s op .pending]) []
  | close : ApiStep s v a (.tcpClose s) ((v.logs [.close s]).close s) []
  | shutNothing : v.tcp.status ≠ .active → ApiStep s v a (.tcpShutdown s) v []
  | shut {l : List Obs} : v.tcp.status = .active → l = [] ∨ l = [.shutdown s] →
      ApiStep s v a (.tcpShutdown s) ((v.setStatus .shutdown).logs l) []
  | pause : v.tcp.flags.pendingRead = false → ApiStep s v a (.tcpPause s)
      ((v.setFlags { v.tcp.flags with reading := false }).logs [.paused s]) []
  | pauseCancel : v.tcp.flags.pendingRead = true → ApiStep s v a (.tcpPause s)
      (((v.setFlags { v.tcp.flags with reading := false }).logs [.paused s]).cancelIoEx s) []
  | resume : v.tcp.flags.pendingRead = true → ApiStep s v a (.tcpResume s)
      ((v.setFlags { v.tcp.flags with reading := true }).logs [.resumed s]) []
  | resumePost : v.tcp.flags.pendingRead = false → ApiStep s v a (.tcpResume s)
      ((v.setFlags { v.tcp.flags with reading := true }).logs [.resumed s, .cb (.allocator s)])
      [.app (.allocator s), .lib (.postRecv s)]
  | setOnData {b : Bool} :
      ApiStep s v a (.setOnData s b) (v.setTcp { v.tcp with onData := b }) []
  | setOnClose {b : Bool} :
      ApiStep s v a (.setOnClose s b) (v.setTcp { v.tcp with onClose := b }) []

section
variable {w : World} {s : Sid} {a : Answer} {r : World × List Item}

theorem pdTcpConnect_view {b : Bool} :
    ApiStep s (w.view s) a (.tcpConnect s b) ((pdTcpConnect w s b a).view s) [] := by
  simp only [pdTcpConnect]
  split
  · exact .connectNothing
  · rename_i hsocket
    split
    · rename_i e he
      rw [setResult_view, setSock_view, setTcp_view]
      exact .connect (.inl ⟨⟨hsocket, by simp [he]⟩, rfl⟩)
    · rw [setResult_view, incRefs_view, setSock_view, setTcp_view]
      exact .connect (.inr ⟨_, rfl⟩)

theorem callWrite_view {op : Op} {x : WriteOp} {st : Int} (h : callWrite w s op x st = some r) :
    r.1.view s = (w.view s).logs [.cb (.write s op st)] ∧ r.2 = [.app (.write s op st)] := by
  unfold callWrite at h
  split at h
  · cases h
    exact ⟨by simp [isObs], rfl⟩
  · cases h

theorem pdTcpWrite_view {op : Op} {x : WriteOp} (h : pdTcpWrite w s op x a = some r) :
    ApiStep s (w.view s) a (.tcpWrite s op x) (r.1.view s) r.2 := by
  have hsend : ∀ y, [Obs.wsaSend s op y].filter (isObs s) = [.wsaSend s op y] := by simp [isObs]
  simp only [pdTcpWrite] at h
  split at h
  · rename_i hst
    obtain ⟨hv, hi⟩ := callWrite_view h
    rw [hv, hi, setOp_view]
    exact .writeRefused hst
  · rename_i hst
    have hst : (w.view s).tcp.status = .active := Classical.not_not.mp hst
    split at h
    · rename_i hres
      obtain ⟨hv, hi⟩ := callWrite_view h
      rw [hv, hi, logObs_view, setOp_view, hsend, logs_logs, hres]
      exact .write hst (by simp)
    · rename_i hres
      obtain ⟨hv, hi⟩ := callWrite_view h
      rw [hv, hi, logObs_view, setOp_view, hsend, logs_logs, hres]
      exact .write hst (by simp)
    · rename_i hres
      have ho : (w.view s).sock.isOpen = true := by
        unfold Sock.sendRes at hres
        split at hres
        · cases hres
        · rename_i ho
          have ho : ((w.setOp s op x).sock s).isOpen = true := by simpa using ho
          exact ho
      cases h
      have hstep := @ApiStep.writePending s (w.view s) a op x hst ho
      rw [goOn_view, setTcp_view, setSock_view, logObs_view, setOp_view, hsend, hres, logs_setSock,
        logs_setTcp, setSock_setTcp]
      exact hstep

/-- **What a call that works for a stream does to it.** -/
theorem api_view {c : Call} (hc : c.stream = some s) (h : api w c a = some r) :
    ApiStep s (w.view s) a c (r.1.view s) r.2 := by
  cases c with
  | tcpAccept s' =>
    cases hc
    simp only [api] at h
    have hacc : [Obs.accepted s].filter (isObs s) = [.accepted s] := by simp [isObs]
    obtain ⟨hv, hi⟩ := pd_tcpPostRecv_view h
    rw [hv, hi, logObs_view, incRefs_view, setSock_view, setTcp_view, hacc, logs_logs]
    exact .accept
  | tcpConnect s' b =>
    cases hc
    cases h
    exact pdTcpConnect_view
  | tcpWrite s' op x =>
    cases hc
    simp only [api] at h
    split at h
    · exact pdTcpWrite_view h
    · cases h
  | tcpClose s' =>
    cases hc
    have hclose : [Obs.close s].filter (isObs s) = [.close s] := by simp [isObs]
    obtain ⟨w', hw', rfl⟩ := Option.map_eq_some_iff.mp h
    rw [goOn_view, pdTcpClose_view hw', logObs_view, hclose]
    exact .close
  | tcpShutdown s' =>
    cases hc
    cases h
    have hshut : [Obs.shutdown s].filter (isObs s) = [.shutdown s] := by simp [isObs]
    simp only [pdTcpShutdown, goOn_view]
    split
    · rename_i hst
      exact .shutNothing hst
    · rename_i hst
      have hst : (w.view s).tcp.status = .active := Classical.not_not.mp hst
      split
      · rw [logObs_view, setStatus_view, hshut]
        exact .shut hst (.inr rfl)
      · rw [setStatus_view, ← logs_nil ((w.view s).setStatus _)]
        exact .shut hst (.inl rfl)
  | tcpPause s' =>
    cases hc
    cases h
    have hpause : [Obs.paused s].filter (isObs s) = [.paused s] := by simp [isObs]
    have hflags : ((w.logObs (.paused s)).tcp s).flags = (w.view s).tcp.flags := rfl
    simp only [pdTcpPause, goOn_view, hflags]
    have hv : ((w.logObs (.paused s)).setFlags s
        { (w.view s).tcp.flags with reading := false }).view s =
        ((w.view s).setFlags { (w.view s).tcp.flags with reading := false }).logs [.paused s] := by
      rw [setFlags_view, logObs_view, hpause]
      rfl
    split
    · rename_i hp
      rw [← tcp_view, hv] at hp
      rw [cancelIoEx_view, hv]
      exact .pauseCancel hp
    · rename_i hp
      rw [← tcp_view, hv] at hp
      rw [hv]
      exact .pause (Bool.eq_false_of_not_eq_true hp)
  | tcpResume s' =>
    cases hc
    have hresume : [Obs.resumed s].filter (isObs s) = [.resumed s] := by simp [isObs]
    have hflags : ((w.logObs (.resumed s)).tcp s).flags = (w.view s).tcp.flags := rfl
    simp only [api, pdTcpResume, hflags] at h
    have hv : ((w.logObs (.resumed s)).setFlags s
        { (w.view s).tcp.flags with reading := true }).view s =
        ((w.view s).setFlags { (w.view s).tcp.flags with reading := true }).logs [.resumed s] := by
      rw [setFlags_view, logObs_view, hresume]
      rfl
    split at h
    · rename_i hp
      rw [← tcp_view, hv] at hp
      cases h
      rw [goOn_view, hv]
      exact .resume hp
    · rename_i hp
      rw [← tcp_view, hv] at hp
      obtain ⟨hpost, hi⟩ := pd_tcpPostRecv_view h
      rw [hpost, hi, hv, logs_logs]
      exact .resumePost (Bool.eq_false_of_not_eq_true hp)
  | setOnData s' b =>
    cases hc
    cases h
    rw [goOn_view, setTcp_view]
    exact .setOnData
  | setOnClose s' b =>
    cases hc
    cases h
    rw [goOn_view, setTcp_view]
    exact .setOnClose
  | _ => cases hc

end

/-! ## The kernel -/

/-- What the kernel does for the stream. -/
inductive EnvStep (s : Sid) (v : View) : View → Prop where
  | arrive {bytes : List UInt8} : v.sock.connected = true → v.sock.fin = false →
      EnvStep s v (v.setSock { v.sock with arrived := v.sock.arrived ++ bytes })
  | peerFin : v.sock.connected = true → EnvStep s v (v.setSock { v.sock with fin := true })
  | recvData {buf : Nat} {rest : List Nat} {bytes : List UInt8} : v.sock.recvs = buf :: rest →
      bytes ≠ [] → bytes <+: v.sock.rx →
      EnvStep s v
        ((v.setSock { v.sock with recvs := rest, taken := v.sock.taken + bytes.length }).packets
          [.recv s ⟨buf, bytes, .success⟩])
  | recvEnd {buf : Nat} {rest : List Nat} {st : RecvStatus} : v.sock.recvs = buf :: rest →
      (st = .success ∧ v.sock.rx = [] ∧ v.sock.fin = true ∨ st = .failed) →
      EnvStep s v ((v.setSock { v.sock with recvs := rest }).packets [.recv s ⟨buf, [], st⟩])
  | sendDone {op : Op} : op ∈ v.sock.sends → EnvStep s v
      ((v.setSock { v.sock with sends := v.sock.sends.erase op }).packets [.send s op])
  | connectDone {st : Int} : v.sock.connecting = true → EnvStep s v
      ((v.setSock { v.sock with connecting := false, connected := decide (st = 0) }).packets
        [.connect s st])
  | leftDone {p : Packet} : p.stream = s → p.pending ∈ v.sock.left → EnvStep s v
      ((v.setSock { v.sock with left := v.sock.left.erase p.pending }).packets [p])

/-- The stream the kernel works for. -/
def Env.stream : Env → Sid
  | .arrive s _ | .peerFin s | .recvDone s _ | .recvFail s | .sendDone s _ | .connectDone s _ => s
  | .leftDone p => p.stream

section
variable {w w' : World} {s : Sid}

theorem endRecv_view {bytes : List UInt8} {st : RecvStatus} (h : w.endRecv s bytes st = some w') :
    ∃ buf rest, (w.view s).sock.recvs = buf :: rest ∧ w'.view s =
      ((w.view s).setSock
        { (w.view s).sock with
          recvs := rest, taken := (w.view s).sock.taken + bytes.length }).packets
        [.recv s ⟨buf, bytes, st⟩] := by
  simp only [World.endRecv] at h
  split at h
  · cases h
  · rename_i buf rest hk
    cases h
    refine ⟨buf, rest, hk, ?_⟩
    rw [setSock_setPort_view w s (by simp [Packet.stream])]
    rfl

/-- **What the kernel does to a stream.** -/
theorem env_view {e : Env} (he : e.stream = s) (h : env w e = some w') :
    EnvStep s (w.view s) (w'.view s) := by
  cases e with
  | arrive s' bytes =>
    obtain rfl : s = s' := he.symm
    simp only [env] at h
    split at h
    · rename_i hk
      cases h
      rw [Bool.and_eq_true, Bool.and_eq_true, Bool.not_eq_true'] at hk
      rw [setSock_view]
      exact .arrive hk.1.2 hk.2
    · cases h
  | peerFin s' =>
    obtain rfl : s = s' := he.symm
    simp only [env] at h
    split at h
    · rename_i hk
      cases h
      rw [Bool.and_eq_true] at hk
      rw [setSock_view]
      exact .peerFin hk.2
    · cases h
  | recvDone s' n =>
    obtain rfl : s = s' := he.symm
    simp only [env] at h
    split at h
    · rename_i hrx
      obtain ⟨buf, rest, hk, hv⟩ := endRecv_view h
      rw [hv]
      refine .recvData hk ?_ (List.take_prefix ..)
      intro hnil
      rcases List.take_eq_nil_iff.mp hnil with h0 | h0
      · omega
      · exact hrx h0
    · rename_i hrx
      split at h
      · rename_i hfin
        obtain ⟨buf, rest, hk, hv⟩ := endRecv_view h
        rw [hv]
        exact .recvEnd hk (.inl ⟨rfl, Classical.not_not.mp hrx, hfin⟩)
      · cases h
  | recvFail s' =>
    obtain rfl : s = s' := he.symm
    obtain ⟨buf, rest, hk, hv⟩ := endRecv_view h
    rw [hv]
    exact .recvEnd hk (.inr rfl)
  | sendDone s' op =>
    obtain rfl : s = s' := he.symm
    simp only [env] at h
    split at h
    · rename_i hop
      cases h
      rw [setSock_setPort_view w s (by simp [Packet.stream])]
      exact .sendDone hop
    · cases h
  | connectDone s' st =>
    obtain rfl : s = s' := he.symm
    simp only [env] at h
    split at h
    · rename_i hc
      cases h
      rw [setSock_setPort_view w s (by simp [Packet.stream])]
      exact .connectDone (by simp_all [World.view])
    · cases h
  | leftDone p =>
    obtain rfl : s = p.stream := he.symm
    simp only [env] at h
    split at h
    · rename_i hp
      cases h
      rw [setSock_setPort_view w _ (by simp)]
      exact .leftDone rfl hp.1
    · cases h

end

/-! ## Steps for another stream -/

section
variable {w w' : World} {s s' : Sid} {a : Answer} {r : World × List Item}

section
variable (hs : s' ≠ s)
include hs

theorem callOnData_view_ne {buf : Option Nat} {size : Int} {bytes : List UInt8} {fs : List Frame}
    (h : callOnData w s' buf size bytes fs = some r) : r.1.view s = w.view s := by
  unfold callOnData at h
  split at h <;> cases h
  simp [isObs, hs]

theorem pd_tcpPostRecv_view_ne {fs : List Frame} (h : pd_tcpPostRecv w s' fs = some r) :
    r.1.view s = w.view s := by
  unfold pd_tcpPostRecv at h
  split at h <;> cases h
  simp [isObs, hs]

theorem postRecv_view_ne (h : postRecv w s' a = some r) : r.1.view s = w.view s := by
  simp only [postRecv] at h
  split at h
  · rw [callOnData_view_ne hs h, setTcp_view_ne _ _ _ hs]
  · split at h
    · rw [callOnData_view_ne hs h, setSock_view_ne _ _ _ hs, logObs_view, setTcp_view_ne _ _ _ hs]
      simp [isObs, hs]
    · rw [callOnData_view_ne hs h, logObs_view, setTcp_view_ne _ _ _ hs]
      simp [isObs, hs]
    · cases h
      simp [isObs, hs]

theorem pd_tcpReadIo_view_ne {x : Recv} (h : pd_tcpReadIo w s' x = some r) :
    r.1.view s = w.view s := by
  simp only [pd_tcpReadIo] at h
  split at h
  · rw [callOnData_view_ne hs h]
    simp [isObs, hs]
  · obtain ⟨w', hw', rfl⟩ := Option.map_eq_some_iff.mp h
    rw [goOn_view, pdTcpClose_view_ne hs hw']
    simp [isObs, hs]

theorem readIoRest_view_ne (h : readIoRest w s' = some r) : r.1.view s = w.view s := by
  unfold readIoRest at h
  split at h
  · obtain ⟨w', hw', rfl⟩ := Option.map_eq_some_iff.mp h
    rw [goOn_view, pd_tcpTryClose_view_ne hs hw']
  · split at h
    · exact pd_tcpPostRecv_view_ne hs h
    · cases h
      rfl

theorem writeDone_view_ne : (writeDone w s').view s = w.view s := by
  simp only [writeDone]
  split
  · split <;> simp [isObs, hs]
  · simp [hs]

theorem writeIoRest_view_ne (h : writeIoRest w s' = some r) : r.1.view s = w.view s := by
  simp only [writeIoRest] at h
  split at h
  · obtain ⟨w', hw', rfl⟩ := Option.map_eq_some_iff.mp h
    rw [goOn_view, pd_tcpTryClose_view_ne hs hw', writeDone_view_ne hs]
  · cases h
    rw [goOn_view, writeDone_view_ne hs]

theorem pd_tcpConnectIo_view_ne {st : Int} (h : pd_tcpConnectIo w s' st = some r) :
    r.1.view s = w.view s := by
  unfold pd_tcpConnectIo at h
  split at h
  · rw [pd_tcpPostRecv_view_ne hs h]
    simp [isObs, hs]
  · cases h
    split <;> simp [isObs, hs]

end

/-- A frame that does not work for the stream, nor polls, leaves it alone. -/
theorem exec_view_ne {f : Frame} (hf : f.stream ≠ some s) (hio : f ≠ .ioRun)
    (h : exec w f a = some r) : r.1.view s = w.view s := by
  cases f with
  | postRecv s' => exact postRecv_view_ne (fun he => hf (congrArg some he)) h
  | readIoRest s' => exact readIoRest_view_ne (fun he => hf (congrArg some he)) h
  | writeIoRest s' => exact writeIoRest_view_ne (fun he => hf (congrArg some he)) h
  | connectIoRest s' =>
    have hs : s' ≠ s := fun he => hf (congrArg some he)
    cases h
    simp only [connectIoRest]
    split <;> simp [isObs, hs]
  | dispatch p =>
    cases p with
    | recv s' x => exact pd_tcpReadIo_view_ne (fun he => hf (congrArg some he)) h
    | send s' op =>
      have hs : s' ≠ s := fun he => hf (congrArg some he)
      cases h
      simp only [pd_tcpWriteIo]
      split <;> simp [isObs, hs]
    | connect s' st => exact pd_tcpConnectIo_view_ne (fun he => hf (congrArg some he)) h
  | timersRun =>
    cases h
    simp only [timersRun]
    split <;> simp [isObs]
  | pendingClose =>
    simp only [exec, pd_tcpPendingClose] at h
    split at h
    · cases h
      rfl
    · obtain ⟨⟨s', q⟩, _, rfl⟩ := Option.map_eq_some_iff.mp h
      split <;> simp [isObs]
  | pendingCloseDec s' =>
    cases h
    simp [pendingCloseDec, isObs]
  | ioRun => exact absurd rfl hio
  | ioAfterTick =>
    cases h
    simp only [ioAfterTick]
    split <;> simp [isObs]
  | ioNext =>
    cases h
    rfl

/-- A call that does not work for the stream leaves it alone. -/
theorem api_view_ne {c : Call} (hc : c.stream ≠ some s) (h : api w c a = some r) :
    r.1.view s = w.view s := by
  cases c with
  | tcpAccept s' =>
    have hs : s' ≠ s := fun he => hc (congrArg some he)
    simp only [api, pdTcpAccept] at h
    rw [pd_tcpPostRecv_view_ne hs h]
    simp [isObs, hs]
  | tcpConnect s' b =>
    have hs : s' ≠ s := fun he => hc (congrArg some he)
    cases h
    simp only [pdTcpConnect, goOn_view]
    split
    · rfl
    · split <;> simp [hs]
  | tcpWrite s' op x =>
    have hs : s' ≠ s := fun he => hc (congrArg some he)
    simp only [api] at h
    split at h
    · simp only [pdTcpWrite, callWrite] at h
      repeat' split at h
      all_goals cases h
      all_goals simp [isObs, hs]
    · cases h
  | tcpClose s' =>
    have hs : s' ≠ s := fun he => hc (congrArg some he)
    obtain ⟨w', hw', rfl⟩ := Option.map_eq_some_iff.mp h
    rw [goOn_view, pdTcpClose_view_ne hs hw']
    simp [isObs, hs]
  | tcpShutdown s' =>
    have hs : s' ≠ s := fun he => hc (congrArg some he)
    cases h
    simp only [pdTcpShutdown, goOn_view]
    split
    · rfl
    · split <;> simp [isObs, hs]
  | tcpPause s' =>
    have hs : s' ≠ s := fun he => hc (congrArg some he)
    cases h
    simp only [pdTcpPause, goOn_view]
    split <;> simp [isObs, hs, cancelIoEx_view_ne _ _ hs]
  | tcpResume s' =>
    have hs : s' ≠ s := fun he => hc (congrArg some he)
    simp only [api, pdTcpResume] at h
    split at h
    · cases h
      simp [isObs, hs]
    · rw [pd_tcpPostRecv_view_ne hs h]
      simp [isObs, hs]
  | setOnData s' b =>
    have hs : s' ≠ s := fun he => hc (congrArg some he)
    cases h
    simp [hs]
  | setOnClose s' b =>
    have hs : s' ≠ s := fun he => hc (congrArg some he)
    cases h
    simp [hs]
  | release =>
    simp only [api] at h
    split at h <;> cases h
    rfl
  | _ =>
    cases h
    rfl

theorem env_view_ne {e : Env} (he : e.stream ≠ s) (h : env w e = some w') :
    w'.view s = w.view s := by
  have hend : ∀ {s' : Sid} {bytes st}, s' ≠ s → w.endRecv s' bytes st = some w' →
      w'.view s = w.view s := by
    intro s' bytes st hs h
    simp only [World.endRecv] at h
    split at h <;> cases h
    exact setSock_setPort_view_ne w s hs (by simp [Packet.stream])
  cases e with
  | arrive s' bytes =>
    have hs : s' ≠ s := he
    simp only [env] at h
    split at h <;> cases h
    simp [hs]
  | peerFin s' =>
    have hs : s' ≠ s := he
    simp only [env] at h
    split at h <;> cases h
    simp [hs]
  | recvDone s' n =>
    have hs : s' ≠ s := he
    simp only [env] at h
    split at h
    · exact hend hs h
    · split at h
      · exact hend hs h
      · cases h
  | recvFail s' => exact hend he h
  | sendDone s' op =>
    have hs : s' ≠ s := he
    simp only [env] at h
    split at h <;> cases h
    exact setSock_setPort_view_ne w s hs (by simp [Packet.stream])
  | connectDone s' st =>
    have hs : s' ≠ s := he
    simp only [env] at h
    split at h <;> cases h
    exact setSock_setPort_view_ne w s hs (by simp [Packet.stream])
  | leftDone p =>
    simp only [env] at h
    split at h <;> cases h
    exact setSock_setPort_view_ne w s he (by simp)

end

/-! ## Steps of the machine -/

/-- The frames on the stack that work for the stream, packets apart. -/
def framesOf (s : Sid) : List Item → List Frame
  | [] => []
  | .lib (.dispatch _) :: rest => framesOf s rest
  | .lib f :: rest => if f.stream = some s then f :: framesOf s rest else framesOf s rest
  | .app _ :: rest => framesOf s rest

/-- The stream's packets on the stack, taken from the port and not handled. -/
def packetsOf (s : Sid) : List Item → List Packet
  | [] => []
  | .lib (.dispatch p) :: rest =>
    if p.stream = s then p :: packetsOf s rest else packetsOf s rest
  | _ :: rest => packetsOf s rest

section
variable {s : Sid} {l m : List Item}

@[simp] theorem framesOf_append : framesOf s (l ++ m) = framesOf s l ++ framesOf s m := by
  fun_induction framesOf s l <;> simp_all [framesOf]

@[simp] theorem packetsOf_append : packetsOf s (l ++ m) = packetsOf s l ++ packetsOf s m := by
  fun_induction packetsOf s l <;> simp_all [packetsOf]

theorem framesOf_dispatch (l : List Packet) :
    framesOf s (l.map fun p => .lib (.dispatch p)) = [] := by
  induction l with
  | nil => rfl
  | cons p l ih => exact ih

theorem packetsOf_dispatch (l : List Packet) :
    packetsOf s (l.map fun p => .lib (.dispatch p)) = l.filter (·.stream = s) := by
  induction l with
  | nil => rfl
  | cons p l ih =>
    rw [List.map_cons, packetsOf, ih]
    by_cases hp : p.stream = s <;> simp [hp]

/-- Items without frames of the stream. -/
theorem framesOf_none (h : ∀ f, .lib f ∈ l → f.stream ≠ some s) :
    framesOf s l = [] ∧ packetsOf s l = [] := by
  induction l with
  | nil => exact ⟨rfl, rfl⟩
  | cons i l ih =>
    have hl := ih fun f hf => h f (List.mem_cons_of_mem _ hf)
    cases i with
    | app k => exact hl
    | lib f =>
      have hf := h f (List.mem_cons_self ..)
      cases f with
      | dispatch p =>
        rw [framesOf, packetsOf, if_neg fun he => hf (congrArg some he)]
        exact hl
      | _ =>
        simp only [framesOf, packetsOf]
        rw [if_neg hf]
        exact hl

theorem LibStep.items {v v' : View} {f : Frame} (h : LibStep s v f v' l) :
    ∀ f', .lib f' ∈ l → f'.stream = some s := by
  cases h <;> simp [Frame.stream]

theorem ApiStep.items {v v' : View} {a : Answer} {c : Call} (h : ApiStep s v a c v' l) :
    ∀ f', .lib f' ∈ l → f'.stream = some s := by
  cases h <;> simp [Frame.stream]

/-- What a frame that does not work for the stream leaves on the stack does not either. -/
theorem exec_items {w : World} {f : Frame} {a : Answer} {r : World × List Item}
    (hf : f.stream ≠ some s) (hio : f ≠ .ioRun) (h : exec w f a = some r) :
    ∀ f', .lib f' ∈ r.2 → f'.stream ≠ some s := by
  intro f' hf'
  cases hfs : f.stream with
  | some s' =>
    rw [(exec_view hfs h).items f' hf', ← hfs]
    exact hf
  | none =>
    cases f with
    | timersRun =>
      cases h
      simp only [timersRun] at hf'
      split at hf' <;> simp_all [World.call, World.goOn, Frame.stream]
    | pendingClose =>
      simp only [exec, pd_tcpPendingClose] at h
      split at h
      · cases h
        cases hf'
      · obtain ⟨⟨s', q⟩, _, rfl⟩ := Option.map_eq_some_iff.mp h
        split at hf' <;> simp_all [World.call, World.goOn, Frame.stream]
    | pendingCloseDec s' =>
      cases h
      simp_all [pendingCloseDec, World.goOn, Frame.stream]
    | ioRun => exact absurd rfl hio
    | ioAfterTick =>
      cases h
      simp only [ioAfterTick] at hf'
      split at hf' <;> simp_all [World.call, World.goOn, Frame.stream]
    | ioNext =>
      cases h
      simp_all [ioNext, World.goOn, Frame.stream]
    | _ => cases hfs

theorem api_items {w : World} {c : Call} {a : Answer} {r : World × List Item}
    (hc : c.stream ≠ some s) (h : api w c a = some r) :
    ∀ f', .lib f' ∈ r.2 → f'.stream ≠ some s := by
  intro f' hf'
  cases hcs : c.stream with
  | some s' =>
    rw [(api_view hcs h).items f' hf', ← hcs]
    exact hc
  | none =>
    cases c with
    | release =>
      simp only [api] at h
      split at h <;> cases h
      cases hf'
    | hold | setAfterTick b =>
      cases h
      cases hf'
    | ioRun =>
      cases h
      simp_all [pdIoRun, World.goOn, Frame.stream]
    | _ => cases hcs

end

/-- The stream's packets that are not handled. -/
def Cfg.flight (c : Cfg) (s : Sid) : List Packet := packetsOf s c.stack ++ (c.world.view s).port

/-- A step does nothing for the stream, but perhaps takes packets from the port. -/
structure Quiet (s : Sid) (c c' : Cfg) : Prop where
  tcp : (c'.world.view s).tcp = (c.world.view s).tcp
  sock : (c'.world.view s).sock = (c.world.view s).sock
  log : (c'.world.view s).log = (c.world.view s).log
  flight : (c'.flight s).Perm (c.flight s)
  frames : framesOf s c'.stack = framesOf s c.stack

/-- The view stays, and the items that come and go are not the stream's. -/
theorem Quiet.of_view {c c' : Cfg} {s : Sid} (hv : c'.world.view s = c.world.view s)
    (hp : packetsOf s c'.stack = packetsOf s c.stack)
    (hf : framesOf s c'.stack = framesOf s c.stack) : Quiet s c c' where
  tcp := by rw [hv]
  sock := by rw [hv]
  log := by rw [hv]
  flight := by rw [Cfg.flight, Cfg.flight, hv, hp]
  frames := hf

section
variable {c c' : Cfg} {x : Act} {s : Sid}

theorem framesOf_lib {f : Frame} {rest : List Item} (hf : f.stream ≠ some s) :
    framesOf s (.lib f :: rest) = framesOf s rest ∧
      packetsOf s (.lib f :: rest) = packetsOf s rest := by
  have h := framesOf_none (s := s) (l := [.lib f]) (by simpa using hf)
  rw [← List.singleton_append, framesOf_append, packetsOf_append, h.1, h.2]
  exact ⟨rfl, rfl⟩

/-- The poll. -/
theorem ioRun_quiet {w : World} {rest : List Item} :
    Quiet s ⟨w, .lib .ioRun :: rest⟩ ⟨(ioRun w).1, (ioRun w).2 ++ rest⟩ := by
  unfold ioRun
  split
  · exact .of_view rfl rfl rfl
  · let polled := w.port.take ENTRIES_MAX
    have hitems : (((w.setPort (w.port.drop ENTRIES_MAX)).goOn (polled.map .dispatch ++
        [.timersRun, .pendingClose, .ioAfterTick, .ioNext])).2 : List Item) =
        polled.map (fun p => .lib (.dispatch p)) ++
          [.lib .timersRun, .lib .pendingClose, .lib .ioAfterTick, .lib .ioNext] := by
      simp [World.goOn, List.map_append, Function.comp_def]
    have htail := framesOf_none (s := s)
      (l := [.lib .timersRun, .lib .pendingClose, .lib .ioAfterTick, .lib .ioNext])
      (by simp [Frame.stream])
    have hport : w.port.filter (·.stream = s) = polled.filter (·.stream = s) ++
        (w.port.drop ENTRIES_MAX).filter (·.stream = s) := by
      rw [← List.filter_append, List.take_append_drop]
    refine ⟨rfl, rfl, rfl, ?_, ?_⟩
    · show (packetsOf s (_ ++ rest) ++ (w.port.drop ENTRIES_MAX).filter (·.stream = s)).Perm
        (packetsOf s rest ++ w.port.filter (·.stream = s))
      rw [hitems, packetsOf_append, packetsOf_append, packetsOf_dispatch, htail.2, hport,
        List.append_nil, List.append_assoc, ← List.append_assoc, ← List.append_assoc]
      exact List.perm_append_comm.append_right _
    · show framesOf s (_ ++ rest) = framesOf s rest
      rw [hitems, framesOf_append, framesOf_append, framesOf_dispatch, htail.1]
      rfl

/-- **What a step does to one stream**: it works for it, or leaves it alone. -/
theorem step_view (hs : step c x = some c') : Quiet s c c' ∨
    (∃ a f rest l, x = .lib a ∧ c.stack = .lib f :: rest ∧ f.stream = some s ∧
      c'.stack = l ++ rest ∧ LibStep s (c.world.view s) f (c'.world.view s) l) ∨
    (∃ k a cb rest l, x = .api k a ∧ c.stack = .app cb :: rest ∧ c'.stack = l ++ c.stack ∧
      ApiStep s (c.world.view s) a k (c'.world.view s) l) ∨
    ∃ e, x = .env e ∧ c'.stack = c.stack ∧ EnvStep s (c.world.view s) (c'.world.view s) := by
  rcases step_cases hs with ⟨a, f, rest, r, rfl, hst, hr, rfl⟩ |
    ⟨k, a, cb, rest, r, rfl, hst, hr, rfl⟩ | ⟨p, cb, rest, rfl, hst, hcb, rfl⟩ |
    ⟨e, w', rfl, he, rfl⟩
  · by_cases hf : f.stream = some s
    · exact .inr (.inl ⟨a, f, rest, r.2, rfl, hst, hf, rfl, exec_view hf hr⟩)
    · left
      by_cases hio : f = .ioRun
      · obtain ⟨w, stack⟩ := c
        subst hio
        cases hst
        cases hr
        exact ioRun_quiet
      · have hitems := framesOf_none (exec_items hf hio hr)
        have htop : framesOf s (.lib f :: rest) = framesOf s rest ∧
            packetsOf s (.lib f :: rest) = packetsOf s rest := framesOf_lib hf
        apply Quiet.of_view (exec_view_ne hf hio hr)
        · rw [hst, htop.2, packetsOf_append, hitems.2]
          rfl
        · rw [hst, htop.1, framesOf_append, hitems.1]
          rfl
  · by_cases hk : k.stream = some s
    · refine .inr (.inr (.inl ⟨k, a, cb, rest, r.2, rfl, hst, ?_, api_view hk hr⟩))
      rw [hst]
    · have hitems := framesOf_none (api_items hk hr)
      refine .inl (.of_view (api_view_ne hk hr) ?_ ?_)
      · rw [hst, packetsOf_append, hitems.2]
        rfl
      · rw [hst, framesOf_append, hitems.1]
        rfl
  · refine .inl (.of_view rfl ?_ ?_) <;>
    · rw [hst]
      rfl
  · by_cases hes : e.stream = s
    · exact .inr (.inr (.inr ⟨e, rfl, rfl, env_view hes he⟩))
    · exact .inl (.of_view (env_view_ne hes he) rfl rfl)

end

end Pandio.Iocp
