import Pandio.Unix.Loop

/- `pd_tcp_connect` and `pd_tcp_listen` as transactions. Each makes a descriptor, may
   fail in several places, and ends by registering the descriptor with the poller; it
   should do all of that or nothing. What it does is computed here from the state and
   the results of its system calls, for every state and every results, and compared
   with what a transaction does.

   There are three slips. The errors are taken from `errno`, which `inet_pton` does
   not set when it finds no address; `pd_tcp_connect` writes the handle before
   `connect` can fail; and the result of `epoll_ctl` is not looked at. `pd_tcp_listen`
   takes descriptor 0 for a failure and keeps it open. -/
namespace Pandio
open World

/-! ## Transactions -/

/-- What the poller reports of a descriptor, which ends when the descriptor is closed. -/
def Kernel.registration (k : Kernel) (fd : Fd) : Option (Handle × Flags) :=
  if k.isOpen fd then k.interest fd else none

/-- The descriptor and the event of a handle. -/
structure HandleState (β : Type) where
  fd : Fd
  flags : Flags
  handler : β
  deriving DecidableEq

def World.tcpState (w : World) (s : Sid) : HandleState (Option TcpHandler) :=
  { fd := (w.tcp s).fd, flags := (w.tcp s).flags, handler := (w.tcp s).handler }

def World.serverState (w : World) (l : Lid) : HandleState Bool :=
  { fd := (w.server l).fd, flags := (w.server l).flags, handler := (w.server l).handler }

/-- The call has succeeded: it returns 0, the handle's descriptor is new, open and registered with
the handle's flags, and counted in `ctx->refs`. -/
structure HandleOpened {β : Type} (w w' : World) (h : Handle) (e' : HandleState β) : Prop where
  result : w'.result = 0
  fresh : w.kernel.isOpen e'.fd = false
  isOpen : w'.kernel.isOpen = Function.update w.kernel.isOpen e'.fd true
  registration : w'.kernel.registration =
    Function.update w.kernel.registration e'.fd (some (h, e'.flags))
  refs : w'.refs = (w.refs + 1) % 2 ^ 64

/-- The call has failed, and left no trace. -/
structure Failed (w w' : World) : Prop where
  result : w'.result < 0
  isOpen : w'.kernel.isOpen = w.kernel.isOpen
  registration : w'.kernel.registration = w.kernel.registration
  refs : w'.refs = w.refs

/-- All or nothing. -/
def AllOrNothing {β : Type} (w w' : World) (h : Handle) (e e' : HandleState β) : Prop :=
  HandleOpened w w' h e' ∨ Failed w w' ∧ e' = e

/-! ## The conditions -/

/-- The system calls of `pd_tcp_connect` do not meet one of its slips. -/
structure ConnectSound (w : World) (s : Sid) (a : Answer) (fd : Fd) : Prop where
  /-- With no valid address, an error is left from before or from closing. -/
  address : a.sys 3 = .ok 0 → w.errno ≠ 0 ∨ ∃ e, a.sys 5 = .err e
  /-- When `connect` fails at once, the handle happens to hold the values written before. -/
  connect : ∀ n e, a.sys 3 = .ok (n + 1) → a.sys 4 = .err e → e ≠ EINPROGRESS →
    w.tcpState s = ⟨fd, ⟨true, true⟩, some .connectIo⟩
  /-- When it goes on, the registration succeeds. -/
  register : ∀ n, a.sys 3 = .ok (n + 1) → (∀ e, a.sys 4 = .err e → e = EINPROGRESS) →
    ∃ m, a.sys 6 = .ok m

/-- `pd_tcp_connect` comes to the calls that can go wrong with a new descriptor only. -/
def ConnectOk (w : World) (s : Sid) (a : Answer) : Prop :=
  ∀ fd n, (w.kernel.newSocket (a.sys 0)).2 = .ok fd → pd_setNonblocking (a.sys 1) (a.sys 2) = .ok n →
    ConnectSound w s a fd

/-- The new descriptor of `pd_tcp_listen` is not 0, and when it listens its registration succeeds. -/
def ListenOk (w : World) (a : Answer) : Prop :=
  ∀ fd, (w.kernel.newSocket (a.sys 0)).2 = .ok fd → fd ≠ 0 ∧
    ∀ n1 n2 n3 n4, a.sys 1 = .ok n1 → a.sys 2 = .ok n2 →
      pd_setNonblocking (a.sys 3) (a.sys 4) = .ok n3 → a.sys 5 = .ok n4 → ∃ m, a.sys 7 = .ok m

/-! ## Descriptors -/

section
variable {k : Kernel} {r : SysRes} {fd : Nat}

theorem newSocket_err {e : Nat} (hpos : ∀ e, r = .err e → 0 < e)
    (h : (k.newSocket r).2 = .err e) : (k.newSocket r).1 = k ∧ 0 < e := by
  cases r with
  | err e' =>
    cases h
    exact ⟨rfl, hpos e rfl⟩
  | ok n =>
    by_cases ho : k.isOpen n = true
    · simp only [Kernel.newSocket, ho, if_true] at h ⊢
      cases h
      exact ⟨trivial, by decide⟩
    · simp [Kernel.newSocket, ho] at h

/-- The kernel after `socket`, as far as descriptors and registrations go. -/
structure Kernel.HasNew (k k' : Kernel) (fd : Fd) : Prop where
  fresh : k.isOpen fd = false
  isOpen : k'.isOpen = Function.update k.isOpen fd true
  interest : k'.interest = Function.update k.interest fd none

theorem newSocket_hasNew (h : (k.newSocket r).2 = .ok fd) : k.HasNew (k.newSocket r).1 fd := by
  obtain ⟨hfresh, hk⟩ := Kernel.newSocket_ok h
  rw [hk]
  exact ⟨hfresh, rfl, rfl⟩

namespace Kernel.HasNew

variable {k' : Kernel} {fd : Fd} (n : k.HasNew k' fd)
include n

theorem open_self : k'.isOpen fd = true := by rw [n.isOpen, Function.update_self]

/-- Closing the new descriptor undoes `socket`. -/
theorem close (r : SysRes) : (k'.close fd r).1.isOpen = k.isOpen ∧
    (k'.close fd r).1.registration = k.registration := by
  have hopen : (k'.close fd r).1.isOpen = k.isOpen := by
    simp only [Kernel.close, n.open_self, Bool.not_true, Bool.false_eq_true, if_false]
    rw [n.isOpen, Function.update_idem, ← n.fresh, Function.update_eq_self]
  refine ⟨hopen, ?_⟩
  funext x
  rw [Kernel.registration, Kernel.registration, hopen]
  by_cases hx : k.isOpen x = true
  · -- another descriptor
    have hne : x ≠ fd := by
      intro he
      rw [he, n.fresh] at hx
      cases hx
    simp only [hx, if_true, Kernel.close, n.open_self, Bool.not_true, Bool.false_eq_true, if_false]
    rw [Function.update_of_ne hne, n.interest, Function.update_of_ne hne]
  · simp only [hx, Bool.false_eq_true, if_false]

/-- Registering it adds its registration. -/
theorem add (h : Handle) (f : Flags) (m : Nat) : (k'.ctl .add fd h f (.ok m)).1.registration =
    Function.update k.registration fd (some (h, f)) := by
  funext x
  have hnone : k'.interest fd = none := by rw [n.interest, Function.update_self]
  by_cases hx : x = fd
  · subst hx
    simp [Kernel.registration, Kernel.ctl, n.open_self, hnone]
  · simp [Kernel.registration, Kernel.ctl, n.open_self, hnone, n.isOpen, n.interest, hx]

/-- A registration that fails is missing. -/
theorem add_err (h : Handle) (f : Flags) (e : Nat) :
    (k'.ctl .add fd h f (.err e)).1.registration fd = none := by
  simp [Kernel.registration, Kernel.ctl, n.open_self, n.interest]

end Kernel.HasNew

theorem Kernel.ctl_isOpen (c : Ctl) (fd : Fd) (h : Handle) (f : Flags) :
    (k.ctl c fd h f r).1.isOpen = k.isOpen := by
  unfold Kernel.ctl
  split
  · rfl
  · split <;> rfl

end

/-! ## The exits of the two functions -/

section
variable {w w' : World} {fd : Fd} {a : Answer}

@[simp] theorem failErrno_kernel : (failErrno w).kernel = w.kernel := rfl
@[simp] theorem failErrno_refs : (failErrno w).refs = w.refs := rfl
@[simp] theorem failErrno_result : (failErrno w).result = -(w.errno : Int) := rfl

theorem closeQuietly_eq (w : World) (fd : Fd) (r : SysRes) :
    ∃ e, closeQuietly w fd r = { w with kernel := (w.kernel.close fd r).1, errno := e } := by
  simp only [closeQuietly]
  cases (w.kernel.close fd r).2 with
  | ok _ => exact ⟨w.errno, rfl⟩
  | err e => exact ⟨e, rfl⟩

theorem closeQuietly_kernel (r : SysRes) :
    (closeQuietly w fd r).kernel = (w.kernel.close fd r).1 := by
  obtain ⟨e, h⟩ := closeQuietly_eq w fd r
  rw [h]

/-- `errno` after closing an open descriptor is positive if it was before, or closing failed. -/
theorem closeQuietly_errno_pos {r : SysRes} (hpos : ∀ e, r = .err e → 0 < e)
    (ho : w.kernel.isOpen fd = true) :
    0 < (closeQuietly w fd r).errno ↔ w.errno ≠ 0 ∨ ∃ e, r = .err e := by
  cases r with
  | ok n =>
    simp [closeQuietly, Kernel.close, ho, World.setErrno, World.setKernel, Nat.pos_iff_ne_zero]
  | err e =>
    have he := hpos e rfl
    by_cases hi : e = EINTR
    · simp [closeQuietly, Kernel.close, ho, World.setErrno, World.setKernel, hi, EBADF]
    · simp [closeQuietly, Kernel.close, ho, World.setErrno, World.setKernel, hi, he]

/-- An exit through `pd__closesocket` leaves no descriptor, and fails if `errno` is set. -/
theorem closeQuietly_failed_iff (n : w.kernel.HasNew w'.kernel fd) (hrefs : w'.refs = w.refs)
    {r : SysRes} (hpos : ∀ e, r = .err e → 0 < e) :
    Failed w (failErrno (closeQuietly w' fd r)) ↔ w'.errno ≠ 0 ∨ ∃ e, r = .err e := by
  rw [← closeQuietly_errno_pos hpos n.open_self]
  constructor
  · intro h
    have := h.result
    rw [failErrno_result] at this
    omega
  · intro h
    refine ⟨?_, ?_, ?_, ?_⟩
    · rw [failErrno_result]
      omega
    · rw [failErrno_kernel, closeQuietly_kernel]
      exact (n.close r).1
    · rw [failErrno_kernel, closeQuietly_kernel]
      exact (n.close r).2
    · obtain ⟨e, he⟩ := closeQuietly_eq w' fd r
      rw [failErrno_refs, he]
      exact hrefs

/-- It cannot pass for a success. -/
theorem closeQuietly_not_opened {β : Type} (n : w.kernel.HasNew w'.kernel fd) {r : SysRes}
    {h : Handle} {e : HandleState β} : ¬ HandleOpened w (failErrno (closeQuietly w' fd r)) h e := by
  intro ho
  have hopen := ho.isOpen
  rw [failErrno_kernel, closeQuietly_kernel, (n.close r).1] at hopen
  have hfd := congrFun hopen e.fd
  rw [Function.update_self, ho.fresh] at hfd
  cases hfd

/-- The exit through `pd__closesocket` is all-or-nothing if `errno` is set and the handle is as it
was. -/
theorem closeQuietly_allOrNothing_iff {β : Type} {h : Handle} {e e' : HandleState β}
    (n : w.kernel.HasNew w'.kernel fd) (hrefs : w'.refs = w.refs) {r : SysRes}
    (hpos : ∀ e, r = .err e → 0 < e) :
    AllOrNothing w (failErrno (closeQuietly w' fd r)) h e e' ↔
      (w'.errno ≠ 0 ∨ ∃ e, r = .err e) ∧ e' = e := by
  rw [AllOrNothing, or_iff_right (closeQuietly_not_opened n), closeQuietly_failed_iff n hrefs hpos]

/-- The exit through `pd__event_add` is all-or-nothing if the registration succeeds. -/
theorem register_allOrNothing_iff {β : Type} {h : Handle} {e : HandleState β} {k : Kernel}
    (e' : HandleState β) (n : w.kernel.HasNew k e'.fd) {r : SysRes}
    (hk : w'.kernel = (k.ctl .add e'.fd h e'.flags r).1) (hrefs : w'.refs = (w.refs + 1) % 2 ^ 64)
    (hres : w'.result = 0) : AllOrNothing w w' h e e' ↔ ∃ m, r = .ok m := by
  constructor
  · rintro (ho | ⟨hf, -⟩)
    · cases r with
      | ok m => exact ⟨m, rfl⟩
      | err err =>
        have hreg := congrFun ho.registration e'.fd
        rw [Function.update_self, hk, n.add_err] at hreg
        cases hreg
    · exact absurd hf.result (by rw [hres]; exact Int.lt_irrefl 0)
  · rintro ⟨m, rfl⟩
    refine .inl ⟨hres, n.fresh, ?_, ?_, hrefs⟩
    · rw [hk, Kernel.ctl_isOpen, n.isOpen]
    · rw [hk, n.add]

end

/-! ## The theorem -/

section
variable {w : World} {s : Sid} {l : Lid} {b : Bool} {a : Answer}

theorem socket_failed {e : Nat} (h : (w.kernel.newSocket (a.sys 0)).2 = .err e) :
    Failed w (failErrno (w.setErrno (.err e))) := by
  have he := (newSocket_err (a.errno_pos 0) h).2
  refine ⟨?_, rfl, rfl, rfl⟩
  rw [failErrno_result]
  show -(e : Int) < 0
  omega

/-- The exit of `pd_tcp_connect` that has not written the handle yet. -/
theorem closeQuietly_tcpState {w : World} {fd : Fd} (r : SysRes) :
    (failErrno (closeQuietly w fd r)).tcpState s = w.tcpState s := by
  obtain ⟨e, h⟩ := closeQuietly_eq w fd r
  rw [h]
  rfl

theorem closeQuietly_serverState {w : World} {fd : Fd} (r : SysRes) :
    (failErrno (closeQuietly w fd r)).serverState l = w.serverState l := by
  obtain ⟨e, h⟩ := closeQuietly_eq w fd r
  rw [h]
  rfl

theorem setTcp_tcpState {w : World} {t : Tcp} :
    (w.setTcp s t).tcpState s = ⟨t.fd, t.flags, t.handler⟩ := by
  simp [World.tcpState, World.setTcp]

theorem setNonblocking_errno {r1 r2 : SysRes} {e : Nat} (h1 : ∀ e, r1 = .err e → 0 < e)
    (h2 : ∀ e, r2 = .err e → 0 < e) (h : pd_setNonblocking r1 r2 = .err e) : e ≠ 0 := by
  apply Nat.pos_iff_ne_zero.mp
  cases r1 with
  | ok m => exact h2 e h
  | err e' =>
    cases h
    exact h1 e rfl

/-- An exit of `pd_tcp_connect` through `pd__closesocket`. -/
theorem connect_exit_iff {r w' : World} {k : Kernel} {fd : Fd}
    (hret : r = failErrno (closeQuietly w' fd (a.sys 5))) (hk : w'.kernel = k)
    (n : w.kernel.HasNew k fd) (hrefs : w'.refs = w.refs) :
    AllOrNothing w r (.tcp s) (w.tcpState s) (r.tcpState s) ↔
      (w'.errno ≠ 0 ∨ ∃ e, a.sys 5 = .err e) ∧ w'.tcpState s = w.tcpState s := by
  subst hk
  rw [hret, closeQuietly_allOrNothing_iff n hrefs (a.errno_pos 5), closeQuietly_tcpState]

/-- Its exit through `pd__event_add`. -/
theorem connect_register_iff {r w' : World} {k : Kernel} {fd : Fd}
    (hret : r = ((pd_eventAdd (w'.logObs (.opened s fd)) s (a.sys 6)).incRefs (.tcp s)).setResult 0)
    (hk : w'.kernel = k) (n : w.kernel.HasNew k fd) (hfd : (w'.tcp s).fd = fd)
    (hrefs : w'.refs = w.refs) :
    AllOrNothing w r (.tcp s) (w.tcpState s) (r.tcpState s) ↔ ∃ m, a.sys 6 = .ok m := by
  subst hk hfd hret
  refine register_allOrNothing_iff (w'.tcpState s) n rfl ?_ rfl
  rw [← hrefs]
  rfl

/-- Once the handle is written, `connect` and the registration decide. -/
theorem connect_written_iff {fd m found : Nat}
    (hsock : (w.kernel.newSocket (a.sys 0)).2 = .ok fd)
    (hnb : pd_setNonblocking (a.sys 1) (a.sys 2) = .ok m) (haddr : a.sys 3 = .ok (found + 1)) :
    AllOrNothing w (pdTcpConnect w s b a) (.tcp s) (w.tcpState s)
      ((pdTcpConnect w s b a).tcpState s) ↔ ConnectSound w s a fd := by
  have n := newSocket_hasNew hsock
  let w1 := (w.setKernel (w.kernel.newSocket (a.sys 0)).1).setTcp s
    { w.tcp s with
      fd := fd, onConnect := b, handler := some .connectIo
      flags := ⟨true, true⟩ }
  have hstate : w1.tcpState s = ⟨fd, ⟨true, true⟩, some .connectIo⟩ := setTcp_tcpState
  have hfd : (w1.tcp s).fd = fd := congrArg HandleState.fd hstate
  cases hconn : a.sys 4 with
  | ok k =>
    have hret : pdTcpConnect w s b a =
        ((pd_eventAdd (w1.logObs (.opened s fd)) s (a.sys 6)).incRefs (.tcp s)).setResult 0 := by
      simp only [pdTcpConnect, hsock, hnb, haddr, hconn]
      rfl
    rw [connect_register_iff hret rfl n hfd rfl]
    constructor
    · intro h
      refine ⟨?_, ?_, fun _ _ _ => h⟩ <;> simp [haddr, hconn]
    · intro h
      exact h.register found haddr fun e he => by rw [hconn] at he; cases he
  | err e =>
    by_cases he : e = EINPROGRESS
    · have hret : pdTcpConnect w s b a =
          ((pd_eventAdd ((w1.setErrno (.err e)).logObs (.opened s fd)) s (a.sys 6)).incRefs
            (.tcp s)).setResult 0 := by
        simp only [pdTcpConnect, hsock, hnb, haddr, hconn, he, ne_eq, not_true, if_false]
        rfl
      rw [connect_register_iff hret rfl n hfd rfl]
      constructor
      · intro h
        refine ⟨?_, ?_, fun _ _ _ => h⟩ <;> simp [haddr, hconn, he]
      · intro h
        refine h.register found haddr fun e' he' => ?_
        rw [hconn] at he'
        cases he'
        exact he
    · have hret : pdTcpConnect w s b a = failErrno (closeQuietly
          ((w1.setErrno (.err e)).logObs (.abandoned s fd)) fd (a.sys 5)) := by
        simp only [pdTcpConnect, hsock, hnb, haddr, hconn, he, ne_eq, not_false_iff, if_true]
        rfl
      rw [connect_exit_iff hret rfl n rfl]
      have hpos : e ≠ 0 := Nat.pos_iff_ne_zero.mp (a.errno_pos 4 e hconn)
      have hlate : ((w1.setErrno (.err e)).logObs (.abandoned s fd)).tcpState s =
          ⟨fd, ⟨true, true⟩, some .connectIo⟩ := hstate
      rw [hlate]
      constructor
      · rintro ⟨-, h⟩
        refine ⟨?_, fun _ _ _ _ _ => h.symm, ?_⟩
        · simp [haddr]
        · intro n' _ hall
          exact absurd (hall e hconn) he
      · intro h
        exact ⟨.inl hpos, (h.connect found e haddr hconn he).symm⟩

/-- With a new descriptor that does not block, the three slips decide. -/
theorem connect_nonblocking_iff {fd m : Nat}
    (hsock : (w.kernel.newSocket (a.sys 0)).2 = .ok fd)
    (hnb : pd_setNonblocking (a.sys 1) (a.sys 2) = .ok m) :
    AllOrNothing w (pdTcpConnect w s b a) (.tcp s) (w.tcpState s)
      ((pdTcpConnect w s b a).tcpState s) ↔ ConnectSound w s a fd := by
  have n := newSocket_hasNew hsock
  cases haddr : a.sys 3 with
  | err e =>
    have hret : pdTcpConnect w s b a = failErrno (closeQuietly
        ((w.setKernel (w.kernel.newSocket (a.sys 0)).1).setErrno (.err e)) fd (a.sys 5)) := by
      simp only [pdTcpConnect, hsock, hnb, haddr]
    have he : e ≠ 0 := Nat.pos_iff_ne_zero.mp (a.errno_pos 3 e haddr)
    rw [connect_exit_iff hret rfl n rfl]
    refine iff_of_true ⟨.inl he, rfl⟩ ⟨?_, ?_, ?_⟩ <;> simp [haddr]
  | ok found =>
    cases found with
    | zero =>
      have hret : pdTcpConnect w s b a = failErrno (closeQuietly
          (w.setKernel (w.kernel.newSocket (a.sys 0)).1) fd (a.sys 5)) := by
        simp only [pdTcpConnect, hsock, hnb, haddr]
      rw [connect_exit_iff hret rfl n rfl]
      constructor
      · rintro ⟨h, -⟩
        refine ⟨fun _ => h, ?_, ?_⟩ <;> simp [haddr]
      · intro h
        exact ⟨h.address haddr, rfl⟩
    | succ found => exact connect_written_iff hsock hnb haddr

theorem pdTcpConnect_allOrNothing_iff :
    AllOrNothing w (pdTcpConnect w s b a) (.tcp s) (w.tcpState s)
      ((pdTcpConnect w s b a).tcpState s) ↔ ConnectOk w s a := by
  unfold ConnectOk
  cases hsock : (w.kernel.newSocket (a.sys 0)).2 with
  | err e =>
    have hret : pdTcpConnect w s b a = failErrno (w.setErrno (.err e)) := by
      simp only [pdTcpConnect, hsock]
    rw [hret]
    exact iff_of_true (.inr ⟨socket_failed hsock, rfl⟩) fun _ _ h => by cases h
  | ok fd =>
    cases hnb : pd_setNonblocking (a.sys 1) (a.sys 2) with
    | err e =>
      have he := setNonblocking_errno (a.errno_pos 1) (a.errno_pos 2) hnb
      have hret : pdTcpConnect w s b a = failErrno (closeQuietly
          ((w.setKernel (w.kernel.newSocket (a.sys 0)).1).setErrno (.err e)) fd (a.sys 5)) := by
        simp only [pdTcpConnect, hsock, hnb]
      rw [connect_exit_iff hret rfl (newSocket_hasNew hsock) rfl]
      exact iff_of_true ⟨.inl he, rfl⟩ fun _ _ _ h => by cases h
    | ok m =>
      rw [connect_nonblocking_iff hsock hnb]
      constructor
      · intro h fd' n' hfd _
        cases hfd
        exact h
      · intro h
        exact h fd m rfl rfl

/-- An exit of `pd_tcp_listen` through `pd__closesocket`, before the handle is written. -/
theorem listen_exit {r w' : World} {k : Kernel} {fd : Fd}
    (hret : r = failErrno (closeQuietly w' fd (a.sys 6))) (hk : w'.kernel = k)
    (n : w.kernel.HasNew k fd) (hrefs : w'.refs = w.refs) (hserver : w'.server = w.server)
    (he : w'.errno ≠ 0) :
    AllOrNothing w r (.server l) (w.serverState l) (r.serverState l) := by
  subst hk
  rw [hret, closeQuietly_allOrNothing_iff n hrefs (a.errno_pos 6), closeQuietly_serverState]
  refine ⟨.inl he, ?_⟩
  rw [World.serverState, World.serverState, hserver]

/-- When all calls before it succeed, the registration decides. -/
theorem listen_register_iff {fd n1 n2 n3 n4 : Nat}
    (hsock : (w.kernel.newSocket (a.sys 0)).2 = .ok (fd + 1)) (h1 : a.sys 1 = .ok n1)
    (h2 : a.sys 2 = .ok n2) (h3 : pd_setNonblocking (a.sys 3) (a.sys 4) = .ok n3)
    (h5 : a.sys 5 = .ok n4) :
    AllOrNothing w (pdTcpListen w l b a) (.server l) (w.serverState l)
      ((pdTcpListen w l b a).serverState l) ↔ ∃ m, a.sys 7 = .ok m := by
  let w2 := (w.setKernel (w.kernel.newSocket (a.sys 0)).1).setServer l
    { w.server l with
      fd := (fd : Fd) + 1, handler := true, status := .active, onConnection := b
      flags := { (w.server l).flags with pollin := true } }
  obtain ⟨w3, hret, hserver, hkernel, hrefs⟩ : ∃ w3 : World,
      pdTcpListen w l b a = (w3.incRefs (.server l)).setResult 0 ∧ w3.server = w2.server ∧
      w3.kernel = (w2.kernel.ctl .add ((fd : Fd) + 1) (.server l) (w2.server l).flags (a.sys 7)).1 ∧
      w3.refs = w.refs := by
    simp only [pdTcpListen, hsock, h1, h2, h3, h5]
    refine ⟨_, rfl, ?_, ?_, ?_⟩ <;> split <;> rfl
  have n : w.kernel.HasNew (w.kernel.newSocket (a.sys 0)).1 ((fd : Fd) + 1) := by
    simpa using newSocket_hasNew hsock
  have hstate : (pdTcpListen w l b a).serverState l =
      ⟨(fd : Fd) + 1, (w2.server l).flags, true⟩ := by
    rw [hret]
    show (⟨(w3.server l).fd, (w3.server l).flags, (w3.server l).handler⟩ : HandleState Bool) = _
    simp [hserver, w2, World.setServer]
  rw [hstate]
  refine register_allOrNothing_iff _ (n : w.kernel.HasNew w2.kernel _) ?_ ?_ ?_
  · rw [hret]
    exact hkernel
  · rw [hret, ← hrefs]
    rfl
  · rw [hret]
    rfl

/-- With a new descriptor other than 0, only the registration can go wrong. -/
theorem listen_opened_iff {fd : Nat} (hsock : (w.kernel.newSocket (a.sys 0)).2 = .ok (fd + 1)) :
    AllOrNothing w (pdTcpListen w l b a) (.server l) (w.serverState l)
      ((pdTcpListen w l b a).serverState l) ↔
      ∀ n1 n2 n3 n4, a.sys 1 = .ok n1 → a.sys 2 = .ok n2 →
        pd_setNonblocking (a.sys 3) (a.sys 4) = .ok n3 → a.sys 5 = .ok n4 →
        ∃ m, a.sys 7 = .ok m := by
  have n : w.kernel.HasNew (w.kernel.newSocket (a.sys 0)).1 ((fd : Fd) + 1) := by
    simpa using newSocket_hasNew hsock
  let w1 := w.setKernel (w.kernel.newSocket (a.sys 0)).1
  -- the failures, one after the other
  have hfail : ∀ e, e ≠ 0 → pdTcpListen w l b a = failErrno (closeQuietly
      (w1.setErrno (.err e)) ((fd : Fd) + 1) (a.sys 6)) →
      AllOrNothing w (pdTcpListen w l b a) (.server l) (w.serverState l)
        ((pdTcpListen w l b a).serverState l) := by
    intro e he hret
    exact listen_exit hret rfl n rfl rfl he
  cases h1 : a.sys 1 with
  | err e =>
    have he : e ≠ 0 := Nat.pos_iff_ne_zero.mp (a.errno_pos 1 e h1)
    refine iff_of_true (hfail e he ?_) fun _ _ _ _ h => by cases h
    simp only [pdTcpListen, hsock, h1]
    rfl
  | ok n1 =>
    cases h2 : a.sys 2 with
    | err e =>
      have he : e ≠ 0 := Nat.pos_iff_ne_zero.mp (a.errno_pos 2 e h2)
      refine iff_of_true (hfail e he ?_) fun _ _ _ _ _ h => by cases h
      simp only [pdTcpListen, hsock, h1, h2]
      rfl
    | ok n2 =>
      cases h3 : pd_setNonblocking (a.sys 3) (a.sys 4) with
      | err e =>
        have he := setNonblocking_errno (a.errno_pos 3) (a.errno_pos 4) h3
        refine iff_of_true (hfail e he ?_) fun _ _ _ _ _ _ h => by cases h
        simp only [pdTcpListen, hsock, h1, h2, h3]
        rfl
      | ok n3 =>
        cases h5 : a.sys 5 with
        | err e =>
          have he : e ≠ 0 := Nat.pos_iff_ne_zero.mp (a.errno_pos 5 e h5)
          refine iff_of_true (hfail e he ?_) fun _ _ _ _ _ _ _ h => by cases h
          simp only [pdTcpListen, hsock, h1, h2, h3, h5]
          rfl
        | ok n4 =>
          rw [listen_register_iff hsock h1 h2 h3 h5]
          constructor
          · intro h _ _ _ _ _ _ _ _
            exact h
          · intro h
            exact h n1 n2 n3 n4 rfl rfl rfl rfl

theorem pdTcpListen_allOrNothing_iff :
    AllOrNothing w (pdTcpListen w l b a) (.server l) (w.serverState l)
      ((pdTcpListen w l b a).serverState l) ↔ ListenOk w a := by
  unfold ListenOk
  cases hsock : (w.kernel.newSocket (a.sys 0)).2 with
  | err e =>
    have hret : pdTcpListen w l b a = failErrno (w.setErrno (.err e)) := by
      simp only [pdTcpListen, hsock]
    rw [hret]
    exact iff_of_true (.inr ⟨socket_failed hsock, rfl⟩) fun _ h => by cases h
  | ok fd =>
    cases fd with
    | zero =>
      have n := newSocket_hasNew hsock
      have hret : pdTcpListen w l b a =
          failErrno (w.setKernel (w.kernel.newSocket (a.sys 0)).1) := by
        simp only [pdTcpListen, hsock]
      rw [hret]
      refine iff_of_false ?_ fun h => (h 0 rfl).1 rfl
      rintro (ho | ⟨hf, -⟩)
      · -- nothing was counted
        have hrefs : w.refs = (w.refs + 1) % 2 ^ 64 := ho.refs
        omega
      · -- the descriptor is still open
        have hopen : (w.kernel.newSocket (a.sys 0)).1.isOpen = w.kernel.isOpen := hf.isOpen
        have hself := n.open_self
        rw [hopen, n.fresh] at hself
        cases hself
    | succ fd =>
      rw [listen_opened_iff hsock]
      constructor
      · intro h fd' hfd
        cases hfd
        exact ⟨Nat.succ_ne_zero fd, h⟩
      · intro h
        exact (h (fd + 1) rfl).2

/-- **`pd_tcp_connect` and `pd_tcp_listen` are all-or-nothing exactly when their system calls meet
none of the slips**, in every state. -/
theorem opening_allOrNothing_iff (w : World) (s : Sid) (l : Lid) (b : Bool) (a : Answer) :
    (AllOrNothing w (pdTcpConnect w s b a) (.tcp s) (w.tcpState s)
      ((pdTcpConnect w s b a).tcpState s) ↔ ConnectOk w s a) ∧
    (AllOrNothing w (pdTcpListen w l b a) (.server l) (w.serverState l)
      ((pdTcpListen w l b a).serverState l) ↔ ListenOk w a) :=
  ⟨pdTcpConnect_allOrNothing_iff, pdTcpListen_allOrNothing_iff⟩

/-- The first call of a program, with a string that is no address: `pd_tcp_connect` returns 0, and
there is no connection. -/
theorem not_connect_allOrNothing : ∃ c c', Run AnyStep c ∧
    step c (.api (.tcpConnect 0 true) (.ok 0 [])) = some c' ∧ c'.world.result = 0 ∧
    c'.world.kernel.isOpen 0 = false ∧
    ¬ AllOrNothing c.world c'.world (.tcp 0) (c.world.tcpState 0) (c'.world.tcpState 0) := by
  refine ⟨Cfg.start [], _, .init (Cfg.start_init []), rfl, rfl, rfl, ?_⟩
  intro h
  have hcond : ConnectOk (Cfg.start []).world 0 (.ok 0 []) :=
    (pdTcpConnect_allOrNothing_iff (b := true)).mp h
  obtain hset | ⟨e, he⟩ := (hcond 0 0 rfl rfl).address rfl
  · exact hset rfl
  · cases he

end

end Pandio
