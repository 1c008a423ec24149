import Pandio.Lib.Reach

/- The accept operations of a listener on Windows: pd_tcp_listen, pd__tcp_post_acceptex
   and its completion handlers of src/sys/tcp_win32.c, on the loop of
   src/sys/event_iocp.c. The listener posts `SIMULTANEOUS_ACCEPTS` operations, and each
   is posted again when it has ended, from the packet in the completion port or, if
   `AcceptEx` succeeds at once, from the call itself. An operation that `AcceptEx`
   refuses is not.

   There is one listener; other objects of the loop appear as packets and callbacks of
   their own and as units of `ctx->refs`. The listening socket skips the port when an
   operation succeeds at once.

   Correspondence (C ↔ Lean):
     `pd_tcp_listen`                          ↔ `pdTcpListen`, its loop `listenLoop`
     `pd__tcp_post_acceptex`                  ↔ `pd_tcpPostAcceptex`
     `pd__tcp_accept_sync`                    ↔ `pd_tcpAcceptSync`
     `pd__tcp_accept_io`                      ↔ `pd_tcpAcceptIo`
     `pd_tcp_server_close`                    ↔ `pdTcpServerClose`
     `pd_io_run`                              ↔ `ioRun`, `ioRest` -/
namespace Pandio.Iocp.Accept

/-! ## Data -/

/-- A `pd__accept_op_t`. -/
abbrev AcceptOp := Nat

abbrev Socket := Nat

def SIMULTANEOUS_ACCEPTS : Nat := 32

def ENTRIES_MAX : Nat := 128

def PD_UNKNOWN : Int := -7000

def PD_ENOMEM : Int := -12

/-- How a call of `AcceptEx` ends: with a connection, with `WSA_IO_PENDING`, with another error. -/
inductive AcceptRes where
  | success
  | pending
  | failed
  deriving DecidableEq

/-- An entry of the completion port. -/
inductive Packet where
  /-- An accept operation has ended, as `GetOverlappedResult` tells. -/
  | accept (op : AcceptOp) (success : Bool)
  | other
  deriving DecidableEq

inductive Cb where
  | main
  /-- `on_connection(server, socket, status)` -/
  | onConnection (socket : Option Socket) (status : Int)
  | other
  deriving DecidableEq

inductive Obs where
  | cb (k : Cb)
  /-- `pd_tcp_listen` begins to post. -/
  | posting
  | acceptEx (op : AcceptOp) (r : AcceptRes)
  | closesocket (socket : Option Socket)
  /-- `pd_tcp_listen` has posted, and returns. -/
  | listened (r : Int)
  deriving DecidableEq

structure World where
  refs : Nat
  /-- The units of `refs` that other objects hold. -/
  others : Nat
  /-- `server->on_connection` is set. -/
  onConnection : Bool
  /-- `op->socket`, unless it is `INVALID_SOCKET`. -/
  socket : AcceptOp → Option Socket
  /-- The number of operations allocated. -/
  made : Nat
  /-- The operations that the kernel holds. -/
  outstanding : List AcceptOp
  port : List Packet
  /-- What the last call of the application returned. -/
  result : Int
  log : List Obs

inductive Frame where
  /-- The loop of `pd_tcp_listen` after `i` operations. -/
  | listenLoop (i : Nat)
  | postAcceptex (op : AcceptOp)
  | dispatch (p : Packet)
  | ioRun
  /-- Timers, pending closes and the hook, to the end of the loop's body. -/
  | ioRest
  deriving DecidableEq

inductive Item where
  | lib (f : Frame)
  | app (k : Cb)
  deriving DecidableEq

/-- What the calls of a step return. -/
structure Answer where
  /-- `socket` returns a socket. -/
  socket : Option Socket
  accept : AcceptRes
  /-- `malloc` returns memory. -/
  memory : Bool
  /-- The error of the first call of `pd_tcp_listen` that fails, up to `CreateIoCompletionPort`. -/
  setup : Option Int
  /-- Another callback is called. -/
  more : Bool

namespace World

variable (w : World)

def logObs (o : Obs) : World := { w with log := w.log ++ [o] }

def setResult (r : Int) : World := { w with result := r }

def goOn (fs : List Frame) : World × List Item := (w, fs.map .lib)

def call (k : Cb) (fs : List Frame) : World × List Item := (w.logObs (.cb k), .app k :: fs.map .lib)

end World

/-! ## The listener -/

section
variable (w : World)

/-- `AcceptEx` fails for an invalid socket. -/
def acceptRes (socket : Option Socket) (r : AcceptRes) : AcceptRes :=
  if socket.isSome then r else .failed

/-- `pd__tcp_accept_sync`: the operation is posted again after `on_connection`. -/
def pd_tcpAcceptSync (op : AcceptOp) : World × List Item :=
  if w.onConnection then w.call (.onConnection (w.socket op) 0) [.postAcceptex op]
  else w.goOn [.postAcceptex op]

def pd_tcpPostAcceptex (op : AcceptOp) (a : Answer) : World × List Item :=
  let r := acceptRes a.socket a.accept
  let w := { w with socket := Function.update w.socket op a.socket }.logObs (.acceptEx op r)
  match r with
  | .success => pd_tcpAcceptSync w op
  | .pending => { w with outstanding := w.outstanding ++ [op] }.goOn []
  | .failed => (w.logObs (.closesocket a.socket)).goOn []

/-- `pd__tcp_accept_io`. -/
def pd_tcpAcceptIo (op : AcceptOp) (success : Bool) : World × List Item :=
  if success then pd_tcpAcceptSync w op
  else (w.logObs (.closesocket (w.socket op))).goOn [.postAcceptex op]

/-- The loop of `pd_tcp_listen`. -/
def listenLoop (i : Nat) (a : Answer) : World × List Item :=
  if i < SIMULTANEOUS_ACCEPTS then
    if a.memory then { w with made := w.made + 1 }.goOn [.postAcceptex w.made, .listenLoop (i + 1)]
    else ((w.setResult PD_ENOMEM).logObs (.listened PD_ENOMEM)).goOn []
  else (({ w with refs := w.refs + 1 }.setResult 0).logObs (.listened 0)).goOn []

def pdTcpListen (onConnection : Bool) (a : Answer) : World × List Item :=
  let w := { w with onConnection := onConnection }
  match a.setup with
  | some e => (w.setResult e).goOn []
  | none => (w.logObs .posting).goOn [.listenLoop 0]

/-- Not supported on Windows. -/
def pdTcpServerClose : World × List Item := (w.setResult PD_UNKNOWN).goOn []

/-! ## The loop -/

def dispatch (p : Packet) (a : Answer) : World × List Item :=
  match p with
  | .accept op success => pd_tcpAcceptIo w op success
  | .other => if a.more then w.call .other [] else w.goOn []

/-- The head of the loop of `pd_io_run` with `GetQueuedCompletionStatusEx`. -/
def ioRun : World × List Item :=
  if w.refs = 0 then w.goOn []
  else
    World.goOn { w with port := w.port.drop ENTRIES_MAX }
      ((w.port.take ENTRIES_MAX).map Frame.dispatch ++ [.ioRest])

def ioRest (a : Answer) : World × List Item :=
  if a.more then w.call .other [.ioRest] else w.goOn [.ioRun]

def exec (f : Frame) (a : Answer) : World × List Item :=
  match f with
  | .listenLoop i => listenLoop w i a
  | .postAcceptex op => pd_tcpPostAcceptex w op a
  | .dispatch p => dispatch w p a
  | .ioRun => ioRun w
  | .ioRest => ioRest w a

end

/-! ## The machine -/

/-- A call of the application. -/
inductive Call where
  | listen (onConnection : Bool)
  | serverClose
  | ioRun
  /-- Another object begins to hold the loop, or ends. -/
  | hold
  | release

def api (w : World) (k : Call) (a : Answer) : Option (World × List Item) :=
  match k with
  | .listen onConnection => some (pdTcpListen w onConnection a)
  | .serverClose => some (pdTcpServerClose w)
  | .ioRun => some (w.goOn [.ioRun])
  | .hold => some ({ w with refs := w.refs + 1, others := w.others + 1 }.goOn [])
  | .release =>
    if w.others = 0 then none
    else some ({ w with refs := w.refs - 1, others := w.others - 1 }.goOn [])

/-- What the kernel does by itself. -/
inductive Env where
  /-- An accept operation ends. -/
  | acceptDone (op : AcceptOp) (success : Bool)
  | other

def env (w : World) : Env → Option World
  | .acceptDone op success =>
    if op ∈ w.outstanding then
      some { w with outstanding := w.outstanding.erase op, port := w.port ++ [.accept op success] }
    else none
  | .other => some { w with port := w.port ++ [.other] }

structure Cfg where
  world : World
  stack : List Item

inductive Act where
  | lib (a : Answer)
  | api (k : Call) (a : Answer)
  | ret
  | env (e : Env)

def step (c : Cfg) (x : Act) : Option Cfg :=
  match x, c.stack with
  | .lib a, .lib f :: rest => some ⟨(exec c.world f a).1, (exec c.world f a).2 ++ rest⟩
  | .api k a, .app cb :: rest => (api c.world k a).map fun r => ⟨r.1, r.2 ++ .app cb :: rest⟩
  | .ret, .app cb :: rest => if cb = .main then none else some ⟨c.world, rest⟩
  | .env e, stack => (env c.world e).map fun w => ⟨w, stack⟩
  | _, _ => none

/-- `pd_tcp_listen` does not post a second time for the listener. -/
def ListensOnce (c : Cfg) : Act → Prop
  | .api (.listen _) _ => .posting ∉ c.world.log
  | _ => True

instance (c : Cfg) (x : Act) : Decidable (ListensOnce c x) := by
  unfold ListensOnce
  split <;> infer_instance

/-- The application's `main`, with an initialised listener. -/
def Cfg.start : Cfg :=
  { world := { refs := 0, others := 0, onConnection := false, socket := fun _ => none, made := 0
               outstanding := [], port := [], result := 0, log := [] }
    stack := [.app .main] }

abbrev Run : Cfg → Prop := Machine.Reach step ListensOnce (· = Cfg.start)

/-! ## Slots -/

def Packet.isAccept : Packet → Bool
  | .accept _ _ => true
  | .other => false

/-- The accept operations that were posted and whose end the library has not seen yet. -/
def World.accepting (w : World) : Nat := w.outstanding.length + w.port.countP Packet.isAccept

/-- An operation that has ended is about to be posted again, by this item of the stack. -/
def Item.holdsSlot : Item → Bool
  | .lib (.postAcceptex _) => true
  | .lib (.dispatch p) => p.isAccept
  | _ => false

/-- `AcceptEx` has refused an operation. -/
def Obs.isRefusal : Obs → Bool
  | .acceptEx _ .failed => true
  | _ => false

def Item.isListenLoop : Item → Bool
  | .lib (.listenLoop _) => true
  | _ => false

def Obs.isListened : Obs → Bool
  | .listened _ => true
  | _ => false

/-- Every operation allocated is somewhere or was refused; and how many are allocated. -/
structure Slots (c : Cfg) : Prop where
  account : c.world.accepting + c.stack.countP Item.holdsSlot + c.world.log.countP Obs.isRefusal =
    c.world.made
  loop : ∀ i, .lib (.listenLoop i) ∈ c.stack → c.world.made = i ∧ i ≤ SIMULTANEOUS_ACCEPTS
  once : c.stack.countP Item.isListenLoop + c.world.log.countP Obs.isListened =
    c.world.log.count .posting
  one : c.world.log.count .posting ≤ 1
  listened : .listened 0 ∈ c.world.log → c.world.made = SIMULTANEOUS_ACCEPTS
  fresh : .posting ∉ c.world.log → c.world.made = 0

/-! ## The steps -/

section
variable {c c' : Cfg} {w w' : World} {f : Frame} {a : Answer} {l b rest : List Item} {m : List Obs}

/-- A step that allocates nothing, and is no part of `pd_tcp_listen`. -/
theorem Slots.goOn (h : Slots ⟨w, b ++ rest⟩) (hbefore : ∀ i ∈ b, i.isListenLoop = false)
    (hafter : ∀ i ∈ l, i.isListenLoop = false) (hlog : w'.log = w.log ++ m)
    (hm : ∀ o ∈ m, o ≠ .posting ∧ o.isListened = false) (hmade : w'.made = w.made)
    (haccount : w'.accepting + l.countP Item.holdsSlot + m.countP Obs.isRefusal =
      w.accepting + b.countP Item.holdsSlot) : Slots ⟨w', l ++ rest⟩ := by
  have hnone : ∀ {l : List Item}, (∀ i ∈ l, i.isListenLoop = false) →
      l.countP Item.isListenLoop = 0 := fun hl =>
    List.countP_eq_zero.mpr fun i hi => by rw [hl i hi]; simp
  have hposting : m.count .posting = 0 := List.count_eq_zero.mpr fun hp => (hm _ hp).1 rfl
  have hlistened : m.countP Obs.isListened = 0 :=
    List.countP_eq_zero.mpr fun o ho => by rw [(hm o ho).2]; simp
  obtain ⟨account, loop, once, one, listened, fresh⟩ := h
  simp only [List.countP_append] at account once
  refine ⟨?_, fun i hi => ?_, ?_, ?_, fun hl => ?_, fun hn => ?_⟩
  · simp only [hlog, List.countP_append, hmade]
    omega
  · rw [hmade]
    rcases List.mem_append.mp hi with hi | hi
    · exact absurd (hafter _ hi) (by simp [Item.isListenLoop])
    · exact loop i (List.mem_append_right _ hi)
  · simp only [hlog, List.countP_append, List.count_append, hposting, hlistened, hnone hafter]
    rw [hnone hbefore] at once
    omega
  · simp only [hlog, List.count_append, hposting]
    exact one
  · rw [hmade]
    rw [hlog, List.mem_append] at hl
    rcases hl with hl | hl
    · exact listened hl
    · exact absurd (hm _ hl).2 (by simp [Obs.isListened])
  · rw [hmade]
    rw [hlog, List.mem_append, not_or] at hn
    exact fresh hn.1

theorem Slots.sync {op : AcceptOp} (h : Slots ⟨w, .lib f :: rest⟩) (hf : ∀ i, f ≠ .listenLoop i)
    (hlog : w'.log = w.log ++ m) (hm : ∀ o ∈ m, o ≠ .posting ∧ o.isListened = false)
    (hnone : m.countP Obs.isRefusal = 0) (hmade : w'.made = w.made)
    (hsame : w'.accepting = w.accepting) (hslot : Item.holdsSlot (.lib f) = true) :
    Slots ⟨(pd_tcpAcceptSync w' op).1, (pd_tcpAcceptSync w' op).2 ++ rest⟩ := by
  have hbefore : ∀ i ∈ [Item.lib f], i.isListenLoop = false := by
    intro i hi
    obtain rfl := List.mem_singleton.mp hi
    cases f with
    | listenLoop i => exact absurd rfl (hf i)
    | _ => rfl
  have hone : [Item.lib f].countP Item.holdsSlot = 1 := by
    rw [List.countP_cons_of_pos hslot]
    rfl
  unfold pd_tcpAcceptSync
  split
  · refine Slots.goOn (b := [.lib f]) (m := m ++ [.cb (.onConnection (w'.socket op) 0)]) h hbefore
      (by simp [World.call, Item.isListenLoop]) ?_ ?_ hmade ?_
    · show w'.log ++ _ = _
      rw [hlog, List.append_assoc]
    · intro o ho
      rcases List.mem_append.mp ho with ho | ho
      · exact hm o ho
      · obtain rfl := List.mem_singleton.mp ho
        exact ⟨by simp, rfl⟩
    · show w'.accepting + _ + _ = _
      rw [hsame, List.countP_append, hnone, hone]
      rfl
  · refine Slots.goOn (b := [.lib f]) h hbefore (by simp [World.goOn, Item.isListenLoop]) hlog hm
      hmade ?_
    show w'.accepting + _ + _ = _
    rw [hsame, hnone, hone]
    rfl

theorem Slots.listenLoop {i : Nat} (h : Slots ⟨w, .lib (.listenLoop i) :: rest⟩) :
    Slots ⟨(listenLoop w i a).1, (listenLoop w i a).2 ++ rest⟩ := by
  obtain ⟨hmade, hi⟩ : w.made = i ∧ i ≤ SIMULTANEOUS_ACCEPTS := h.loop i (by simp)
  -- the stack has no other loop of `pd_tcp_listen`
  have honly : rest.countP Item.isListenLoop = 0 ∧ w.log.countP Obs.isListened = 0 ∧
      w.log.count .posting = 1 := by
    have hone := h.one
    have honce := h.once
    simp only [List.countP_cons, Item.isListenLoop, if_true] at honce
    simp only at hone honce
    omega
  have hnone : ∀ j, .lib (.listenLoop j) ∉ rest := fun j hj => by
    have := List.countP_eq_zero.mp honly.1 _ hj
    simp [Item.isListenLoop] at this
  have hfresh : .listened 0 ∉ w.log := fun hl => by
    have := List.countP_eq_zero.mp honly.2.1 _ hl
    simp [Obs.isListened] at this
  have hposting : .posting ∈ w.log := List.count_pos_iff.mp (by omega)
  obtain ⟨account, loop, once, one, _, _⟩ := h
  simp only [List.countP_cons, Item.holdsSlot, Item.isListenLoop] at account once
  simp only [Accept.listenLoop]
  split
  · rename_i hlt
    split
    · refine ⟨?_, fun j hj => ?_, ?_, one, fun hl => absurd hl hfresh, absurd hposting⟩
      · show w.accepting + _ + _ = w.made + 1
        simp [World.goOn, List.countP_cons, Item.holdsSlot] at account ⊢
        omega
      · simp only [World.goOn, List.map_cons, List.map_nil, List.cons_append, List.nil_append,
          List.mem_cons, Item.lib.injEq, reduceCtorEq, Frame.listenLoop.injEq, false_or] at hj
        rcases hj with rfl | hj
        · exact ⟨congrArg (· + 1) hmade, hlt⟩
        · exact absurd hj (hnone j)
      · simpa [World.goOn, List.countP_cons, Item.isListenLoop] using once
    · refine ⟨?_, fun j hj => absurd hj (hnone j), ?_, ?_, fun hl => ?_,
        fun hn => absurd (List.mem_append_left _ hposting) hn⟩
      · simpa [World.goOn, World.logObs, World.setResult, Obs.isRefusal, World.accepting] using account
      · simp [World.goOn, World.logObs, World.setResult, Obs.isListened] at once ⊢
        omega
      · simpa [World.goOn, World.logObs, World.setResult] using one
      · simp [World.goOn, World.logObs, World.setResult, hfresh, PD_ENOMEM] at hl
  · rename_i hge
    refine ⟨?_, fun j hj => absurd hj (hnone j), ?_, ?_, fun _ => ?_,
      fun hn => absurd (List.mem_append_left _ hposting) hn⟩
    · simpa [World.goOn, World.logObs, World.setResult, Obs.isRefusal, World.accepting] using account
    · simp [World.goOn, World.logObs, World.setResult, Obs.isListened] at once ⊢
      omega
    · simpa [World.goOn, World.logObs, World.setResult] using one
    · show w.made = _
      omega

theorem Slots.postAcceptex {op : AcceptOp} (h : Slots ⟨w, .lib (.postAcceptex op) :: rest⟩) :
    Slots ⟨(pd_tcpPostAcceptex w op a).1, (pd_tcpPostAcceptex w op a).2 ++ rest⟩ := by
  simp only [pd_tcpPostAcceptex]
  split
  · refine h.sync (m := [_]) (by simp) rfl (by simp [Obs.isListened]) ?_ rfl rfl rfl
    rename_i hr
    simp [hr, Obs.isRefusal]
  · rename_i hr
    refine Slots.goOn (b := [.lib (.postAcceptex op)]) (m := [_]) h
      (by simp [Item.isListenLoop]) (by simp [World.goOn]) rfl (by simp [Obs.isListened]) rfl ?_
    simp [hr, World.goOn, World.logObs, World.accepting, Item.holdsSlot, Obs.isRefusal]
    omega
  · rename_i hr
    refine Slots.goOn (b := [.lib (.postAcceptex op)]) (m := [_, _]) h
      (by simp [Item.isListenLoop]) (by simp [World.goOn]) (List.append_assoc ..)
      (by simp [Obs.isListened]) rfl ?_
    simp [hr, World.goOn, World.logObs, World.accepting, List.countP_cons, Item.holdsSlot,
      Obs.isRefusal]

theorem Slots.dispatch {p : Packet} (h : Slots ⟨w, .lib (.dispatch p) :: rest⟩) :
    Slots ⟨(dispatch w p a).1, (dispatch w p a).2 ++ rest⟩ := by
  cases p with
  | accept op success =>
    simp only [Accept.dispatch, pd_tcpAcceptIo]
    split
    · exact h.sync (m := []) (by simp) (List.append_nil _).symm (by simp) rfl rfl rfl rfl
    · refine Slots.goOn (b := [.lib (.dispatch (.accept op success))]) (m := [_]) h
        (by simp [Item.isListenLoop]) (by simp [World.goOn, Item.isListenLoop]) rfl
        (by simp [Obs.isListened]) rfl ?_
      simp [World.goOn, World.logObs, World.accepting, Item.holdsSlot, Obs.isRefusal,
        Packet.isAccept]
  | other =>
    simp only [Accept.dispatch]
    split
    · refine Slots.goOn (b := [.lib (.dispatch .other)]) (m := [_]) h
        (by simp [Item.isListenLoop]) (by simp [World.call, Item.isListenLoop]) rfl
        (by simp [Obs.isListened]) rfl ?_
      simp [World.call, World.logObs, World.accepting, Item.holdsSlot, Obs.isRefusal,
        Packet.isAccept]
    · refine Slots.goOn (b := [.lib (.dispatch .other)]) (m := []) h
        (by simp [Item.isListenLoop]) (by simp [World.goOn]) (List.append_nil _).symm
        (by simp) rfl ?_
      simp [World.goOn, World.accepting, Item.holdsSlot, Packet.isAccept]

/-- What is taken from the port is on the stack. -/
theorem Slots.ioRun (h : Slots ⟨w, .lib .ioRun :: rest⟩) :
    Slots ⟨(ioRun w).1, (ioRun w).2 ++ rest⟩ := by
  simp only [Accept.ioRun]
  split
  · refine Slots.goOn (b := [.lib .ioRun]) (m := []) h (by simp [Item.isListenLoop])
      (by simp [World.goOn]) (List.append_nil _).symm (by simp) rfl ?_
    simp [World.goOn, World.accepting, Item.holdsSlot]
  · refine Slots.goOn (b := [.lib .ioRun]) (m := []) h (by simp [Item.isListenLoop]) ?_
      (List.append_nil _).symm (by simp) rfl ?_
    · intro i hi
      simp only [World.goOn, List.map_append, List.map_map, List.map_cons, List.map_nil,
        List.mem_append, List.mem_map, List.mem_singleton] at hi
      rcases hi with ⟨p, _, rfl⟩ | rfl <;> rfl
    · have hport : w.port.countP Packet.isAccept = (w.port.take ENTRIES_MAX).countP Packet.isAccept +
          (w.port.drop ENTRIES_MAX).countP Packet.isAccept := by
        rw [← List.countP_append, List.take_append_drop]
      have hmap : (((w.port.take ENTRIES_MAX).map Frame.dispatch).map Item.lib).countP
          Item.holdsSlot = (w.port.take ENTRIES_MAX).countP Packet.isAccept := by
        rw [List.countP_map, List.countP_map]
        rfl
      simp only [World.goOn, World.accepting, List.map_append, List.countP_append, hmap,
        List.map_cons, List.map_nil, List.countP_cons, List.countP_nil, Item.holdsSlot]
      simp
      omega

theorem Slots.ioRest (h : Slots ⟨w, .lib .ioRest :: rest⟩) :
    Slots ⟨(ioRest w a).1, (ioRest w a).2 ++ rest⟩ := by
  simp only [Accept.ioRest]
  split
  · refine Slots.goOn (b := [.lib .ioRest]) (m := [_]) h (by simp [Item.isListenLoop])
      (by simp [World.call, Item.isListenLoop]) rfl (by simp [Obs.isListened]) rfl ?_
    simp [World.call, World.logObs, World.accepting, Item.holdsSlot, Obs.isRefusal]
  · refine Slots.goOn (b := [.lib .ioRest]) (m := []) h (by simp [Item.isListenLoop])
      (by simp [World.goOn, Item.isListenLoop]) (List.append_nil _).symm (by simp) rfl ?_
    simp [World.goOn, World.accepting, Item.holdsSlot]

theorem Slots.exec (h : Slots ⟨w, .lib f :: rest⟩) :
    Slots ⟨(exec w f a).1, (exec w f a).2 ++ rest⟩ := by
  cases f with
  | listenLoop i => exact h.listenLoop
  | postAcceptex op => exact h.postAcceptex
  | dispatch p => exact h.dispatch
  | ioRun => exact h.ioRun
  | ioRest => exact h.ioRest

/-- A call changes no slot, but for one that begins to post. -/
theorem Slots.api {k : Call} {cb : Cb} {r : World × List Item} (h : Slots ⟨w, .app cb :: rest⟩)
    (hok : ListensOnce ⟨w, .app cb :: rest⟩ (.api k a)) (hr : api w k a = some r) :
    Slots ⟨r.1, r.2 ++ .app cb :: rest⟩ := by
  have quiet : ∀ {w' : World} {l : List Item}, w'.log = w.log → w'.made = w.made →
      w'.accepting = w.accepting → (∀ i ∈ l, i.isListenLoop = false ∧ i.holdsSlot = false) →
      Slots ⟨w', l ++ .app cb :: rest⟩ := by
    intro w' l hlog hmade hsame hl
    refine Slots.goOn (b := []) (m := []) h (by simp) (fun i hi => (hl i hi).1)
      (by rw [hlog, List.append_nil]) (by simp) hmade ?_
    have hnone : l.countP Item.holdsSlot = 0 :=
      List.countP_eq_zero.mpr fun i hi => by rw [(hl i hi).2]; simp
    rw [hsame, hnone]
    rfl
  cases k with
  | listen b =>
    cases hr
    simp only [pdTcpListen]
    split
    · exact quiet rfl rfl rfl (by simp [World.goOn])
    · have hok : .posting ∉ w.log := hok
      obtain ⟨account, loop, once, one, listened, fresh⟩ := h
      have hmade : w.made = 0 := fresh hok
      have hcount : w.log.count .posting = 0 := List.count_eq_zero.mpr hok
      simp only [hcount, Nat.add_eq_zero_iff, List.countP_cons, Item.isListenLoop] at once
      refine ⟨?_, fun i hi => ?_, ?_, ?_, fun hl => ?_, fun hn => ?_⟩
      · simp [World.goOn, World.logObs, World.accepting, Item.holdsSlot, Obs.isRefusal] at account ⊢
        omega
      · simp only [World.goOn, List.map_cons, List.map_nil, List.cons_append, List.nil_append,
          List.mem_cons, Item.lib.injEq, Frame.listenLoop.injEq, reduceCtorEq, false_or] at hi
        rcases hi with rfl | hi
        · exact ⟨hmade, Nat.zero_le _⟩
        · have := List.countP_eq_zero.mp (by omega : rest.countP Item.isListenLoop = 0) _ hi
          simp [Item.isListenLoop] at this
      · simp [World.goOn, World.logObs, List.countP_cons, Item.isListenLoop, Obs.isListened, hcount]
        omega
      · simp [World.goOn, World.logObs, hcount]
      · refine listened ?_
        simpa [World.goOn, World.logObs] using hl
      · simp [World.goOn, World.logObs] at hn
  | serverClose =>
    cases hr
    exact quiet rfl rfl rfl (by simp [World.goOn, pdTcpServerClose])
  | ioRun =>
    cases hr
    exact quiet rfl rfl rfl (by simp [World.goOn, Item.isListenLoop, Item.holdsSlot])
  | hold =>
    cases hr
    exact quiet rfl rfl rfl (by simp [World.goOn])
  | release =>
    simp only [Accept.api] at hr
    split at hr
    · cases hr
    · cases hr
      exact quiet rfl rfl rfl (by simp [World.goOn])

theorem Slots.env {e : Env} (h : Slots c) (he : env c.world e = some w') : Slots ⟨w', c.stack⟩ := by
  have quiet : w'.log = c.world.log → w'.made = c.world.made →
      w'.accepting = c.world.accepting → Slots ⟨w', c.stack⟩ := fun hlog hmade hsame =>
    Slots.goOn (b := []) (l := []) (m := []) h (by simp) (by simp)
      (by rw [hlog, List.append_nil]) (by simp) hmade (by rw [hsame]; rfl)
  cases e with
  | acceptDone op success =>
    simp only [Accept.env] at he
    split at he
    · rename_i hm
      cases he
      refine quiet rfl rfl ?_
      have hpos : 0 < c.world.outstanding.length := List.length_pos_of_mem hm
      simp [World.accepting, List.length_erase_of_mem hm, Packet.isAccept]
      omega
    · cases he
  | other =>
    cases he
    refine quiet rfl rfl ?_
    simp [World.accepting, Packet.isAccept]

theorem Slots.step {x : Act} (h : Slots c) (hok : ListensOnce c x) (hs : step c x = some c') :
    Slots c' := by
  obtain ⟨w, stack⟩ := c
  cases x with
  | lib a =>
    match stack, h, hs with
    | .lib f :: rest, h, hs =>
      cases hs
      exact h.exec
  | api k a =>
    match stack, h, hok, hs with
    | .app cb :: rest, h, hok, hs =>
      obtain ⟨r, hr, rfl⟩ := Option.map_eq_some_iff.mp hs
      exact h.api hok hr
  | ret =>
    match stack, h, hs with
    | .app cb :: rest, h, hs =>
      simp only [Accept.step] at hs
      split at hs
      · cases hs
      · cases hs
        exact Slots.goOn (b := [.app cb]) (l := []) (m := []) h (by simp [Item.isListenLoop])
          (by simp) (List.append_nil _).symm (by simp) rfl (by simp [Item.holdsSlot])
  | env e =>
    obtain ⟨w', he, rfl⟩ := Option.map_eq_some_iff.mp hs
    exact h.env he

/-! ## Runs -/

theorem Run.slots (r : Run c) : Slots c := by
  refine Machine.Reach.invariant (P := Slots) ?_ (fun c x c' _ h hok hs => h.step hok hs) r
  rintro c rfl
  exact ⟨rfl, by simp [Cfg.start], rfl, by simp [Cfg.start], by simp [Cfg.start], fun _ => rfl⟩

/-- **The listener has all its accept operations in the loop exactly if `AcceptEx` has refused none**,
and the loop does not run in a callback before an operation is posted again. -/
theorem accept_slots_iff (r : Run c) (hret : .listened 0 ∈ c.world.log)
    (hloop : c.stack = .lib .ioRun :: rest) :
    c.world.accepting = SIMULTANEOUS_ACCEPTS ↔
      (∀ op, .acceptEx op .failed ∉ c.world.log) ∧ ∀ i ∈ rest, i.holdsSlot = false := by
  have h := r.slots
  have haccount := h.account
  rw [h.listened hret, hloop, List.countP_cons_of_neg (by simp [Item.holdsSlot])] at haccount
  constructor
  · intro hall
    have hlog : c.world.log.countP Obs.isRefusal = 0 := by omega
    have hstack : rest.countP Item.holdsSlot = 0 := by omega
    refine ⟨fun op hop => ?_, fun i hi => ?_⟩
    · exact List.countP_eq_zero.mp hlog _ hop rfl
    · simpa using List.countP_eq_zero.mp hstack i hi
  · rintro ⟨hlog, hstack⟩
    have hlog : c.world.log.countP Obs.isRefusal = 0 := by
      refine List.countP_eq_zero.mpr fun o ho href => ?_
      unfold Obs.isRefusal at href
      split at href
      · exact hlog _ ho
      · cases href
    have hstack : rest.countP Item.holdsSlot = 0 :=
      List.countP_eq_zero.mpr fun i hi => by rw [hstack i hi]; simp
    omega

end

/-- Memory and sockets are there, and `AcceptEx` ends like this. -/
def Answer.of (r : AcceptRes) : Answer :=
  { socket := some 9, accept := r, memory := true, setup := none, more := false }

/-- `pd_tcp_listen` with these results of `AcceptEx`, and `pd_io_run`. -/
def listenRun (l : List AcceptRes) : List Act :=
  .api (.listen true) (.of .pending) :: l.flatMap (fun r => [.lib (.of .pending), .lib (.of r)]) ++
    [.lib (.of .pending), .api .ioRun (.of .pending)]

/-- All are pending. One ends with a connection, another fails, and both are posted again. -/
theorem accept_slots_two : ∃ c, Run c ∧ c.stack = [.lib .ioRun, .app .main] ∧
    .cb (.onConnection (some 9) 0) ∈ c.world.log ∧ c.world.accepting = SIMULTANEOUS_ACCEPTS := by
  have hplay : (Machine.play step ListensOnce Cfg.start (listenRun (.replicate 32 .pending) ++
      [.env (.acceptDone 3 true), .env (.acceptDone 5 false), .lib (.of .pending),
        .lib (.of .pending), .ret, .lib (.of .pending), .lib (.of .pending), .lib (.of .pending),
        .lib (.of .pending)])).map (fun c => (c.stack,
          decide (.listened 0 ∈ c.world.log ∧ .cb (.onConnection (some 9) 0) ∈ c.world.log ∧
            ∀ o ∈ c.world.log, o.isRefusal = false))) =
      some ([.lib .ioRun, .app .main], true) := by
    decide +kernel
  obtain ⟨c, hc, he⟩ := Option.map_eq_some_iff.mp hplay
  obtain ⟨hst, he⟩ := Prod.mk.inj he
  obtain ⟨hret, hcb, hnone⟩ := of_decide_eq_true he
  have r : Run c := Machine.Reach.play (.init rfl) hc
  refine ⟨c, r, hst, hcb, (accept_slots_iff r hret hst).mpr ⟨fun op hop => ?_, by simp [Item.holdsSlot]⟩⟩
  cases hnone _ hop

/-- `AcceptEx` fails once, and the listener goes on with one operation less. -/
theorem not_accept_slots : ∃ c, Run c ∧ c.stack = [.lib .ioRun, .app .main] ∧
    .listened 0 ∈ c.world.log ∧ c.world.accepting = 31 := by
  have hplay : (Machine.play step ListensOnce Cfg.start
      (listenRun (.failed :: .replicate 31 .pending))).map (fun c => (c.stack,
        decide (.listened 0 ∈ c.world.log), c.world.accepting)) =
      some ([.lib .ioRun, .app .main], true, 31) := by
    decide +kernel
  obtain ⟨c, hc, he⟩ := Option.map_eq_some_iff.mp hplay
  simp only [Prod.mk.injEq, decide_eq_true_eq] at he
  exact ⟨c, Machine.Reach.play (.init rfl) hc, he⟩

end Pandio.Iocp.Accept
