import Pandio.Unix.Inflow
import Pandio.Unix.OwnerSteps

/- Where a step may register something with the poller. A frame or a call that works for a
   stream registers the descriptor of its field and no other, a registration is of an open
   descriptor, and closing one ends it. -/
namespace Pandio
open World

/-! ## The kernel -/

/-- Only open descriptors are registered. -/
def Kernel.Sound (k : Kernel) : Prop := ∀ fd, k.interest fd ≠ none → k.isOpen fd = true

/-- What is registered was there before, up to its flags, or is where `P` allows it. -/
structure Kernel.Moves (P : Fd → Handle → Prop) (k k' : Kernel) : Prop where
  sound : k.Sound → k'.Sound
  known : ∀ fd h f, k'.interest fd = some (h, f) → P fd h ∨ ∃ g, k.interest fd = some (h, g)

namespace Kernel.Moves

variable {P : Fd → Handle → Prop} {k k' : Kernel}

theorem refl : k.Moves P k := ⟨id, fun _ _ f h => .inr ⟨f, h⟩⟩

theorem of_eq (h : k' = k) : k.Moves P k' := by
  subst h
  exact .refl

theorem mono {Q : Fd → Handle → Prop} (g : k.Moves P k') (h : ∀ fd x, P fd x → Q fd x) :
    k.Moves Q k' := ⟨g.sound, fun fd x f hi => (g.known fd x f hi).imp (h fd x) id⟩

variable (g : k.Moves P k')
include g

theorem sock {sock : Fd → Sock} {clock : Nat} : k.Moves P ⟨k'.isOpen, k'.interest, sock, clock⟩ :=
  ⟨g.sound, g.known⟩

theorem consume {fd : Fd} {n : Nat} : k.Moves P (k'.consume fd n) := g.sock

/-- A descriptor is opened, or closed, and not registered. -/
theorem turn {fd : Fd} {b : Bool} {sock : Fd → Sock} {clock : Nat} :
    k.Moves P ⟨Function.update k'.isOpen fd b, Function.update k'.interest fd none, sock, clock⟩ := by
  constructor
  · intro hk fd' hi
    by_cases hfd : fd' = fd
    · simp [hfd] at hi
    · simp only [Function.update_of_ne hfd] at hi ⊢
      exact g.sound hk fd' hi
  · intro fd' h f hi
    by_cases hfd : fd' = fd
    · simp [hfd] at hi
    · simp only [Function.update_of_ne hfd] at hi
      exact g.known fd' h f hi

theorem close {fd : Fd} {r : SysRes} : k.Moves P (k'.close fd r).1 := by
  unfold Kernel.close
  split
  · exact g
  · exact g.turn

theorem newSocket {r : SysRes} : k.Moves P (k'.newSocket r).1 := by
  unfold Kernel.newSocket
  split
  · exact g
  · split
    · exact g
    · exact g.turn

/-- A registration is put at an open descriptor, or taken away. -/
theorem put {fd : Fd} {x : Option (Handle × Flags)} (ho : k'.isOpen fd = true)
    (hx : ∀ h f, x = some (h, f) → P fd h) :
    k.Moves P { k' with interest := Function.update k'.interest fd x } := by
  constructor
  · intro hk fd' hi
    by_cases hfd : fd' = fd
    · rw [hfd]
      exact ho
    · simp only [Function.update_of_ne hfd] at hi
      exact g.sound hk fd' hi
  · intro fd' h f hi
    by_cases hfd : fd' = fd
    · simp only [hfd, Function.update_self] at hi ⊢
      exact .inl (hx h f hi)
    · simp only [Function.update_of_ne hfd] at hi
      exact g.known fd' h f hi

theorem ctl {c : Ctl} {fd : Fd} {h : Handle} {f : Flags} {r : SysRes} (hp : P fd h) :
    k.Moves P (k'.ctl c fd h f r).1 := by
  unfold Kernel.ctl
  split
  · exact g
  · rename_i ho
    have ho : k'.isOpen fd = true := by simpa using ho
    split
    · exact g
    · exact g
    · exact g
    · exact g.put ho (by simp)
    · exact g
    · refine g.put ho fun h' f' he => ?_
      cases he
      exact hp

theorem del {fd : Fd} {h : Handle} {f : Flags} {r : SysRes} :
    k.Moves P (k'.ctl .del fd h f r).1 := by
  by_cases ho : k'.isOpen fd = true
  · cases hi : k'.interest fd with
    | none =>
      simp only [Kernel.ctl, ho, hi]
      exact g
    | some p =>
      simp only [Kernel.ctl, ho, hi]
      exact g.put ho (by simp)
  · simp only [Kernel.ctl, ho]
    exact g

end Kernel.Moves

/-! ## Functions -/

section
variable {P : Fd → Handle → Prop} {w w' : World} {s : Sid} {a : Answer} {r : World × List Item}

theorem callWrite_kernel {op : Op} {st : Int} {fs : List Frame}
    (h : callWrite w s op st fs = some r) : r.1.kernel = w.kernel := by
  unfold callWrite at h
  split at h
  · split at h <;> cases h
    rfl
  · cases h

theorem pd_eventSet_moves (v : World) (g : w.kernel.Moves P v.kernel) (x : SysRes)
    (hp : P (v.tcp s).fd (.tcp s)) : w.kernel.Moves P (pd_eventSet v s x).kernel := g.ctl hp

theorem setPollout_fd (v : World) (b : Bool) : ((setPollout v s b).tcp s).fd = (v.tcp s).fd := by
  simp [setPollout, setTcp]

theorem pdTcpWriteAsync_moves {op : Op} (v : World) (g : w.kernel.Moves P v.kernel)
    (hp : (v.tcp s).status = .active → P (v.tcp s).fd (.tcp s))
    (h : pdTcpWriteAsync v s op a = some r) : w.kernel.Moves P r.1.kernel := by
  simp only [pdTcpWriteAsync] at h
  split at h
  · rw [callWrite_kernel h]
    exact g
  · rename_i hst
    have hst : (v.tcp s).status = .active := not_not.mp hst
    split at h <;> cases h
    · refine pd_eventSet_moves (setPollout (v.setTcp s _) s true) g _ ?_
      rw [setPollout_fd]
      simpa [setTcp] using hp hst
    · exact g

theorem readTry_moves {buf : Option Nat} (h : readTry w s buf a = some r) :
    w.kernel.Moves P r.1.kernel := by
  have g : w.kernel.Moves P w.kernel := .refl
  simp only [readTry] at h
  split at h
  · split at h
    · cases h
      exact g
    · split at h
      all_goals
        rw [callOnData_kernel h]
        exact g
  · rw [callOnData_kernel h]
    exact g
  · rw [callOnData_kernel h]
    exact g.consume

theorem writeTry_moves {op : Op} (hp : (w.tcp s).status = .active → P (w.tcp s).fd (.tcp s))
    (h : writeTry w s op a = some r) : w.kernel.Moves P r.1.kernel := by
  have g : w.kernel.Moves P w.kernel := .refl
  have gerr : ∀ e o, w.kernel.Moves P ((w.setErrno (.err e)).logObs o).kernel := fun _ _ => g
  simp only [writeTry] at h
  split at h
  · cases h
  · split at h
    · split at h
      · cases h
        exact g
      · split at h
        · exact pdTcpWriteAsync_moves _ (gerr _ _) hp h
        · rw [callWrite_kernel h]
          exact g
    · split at h
      · exact pdTcpWriteAsync_moves ((w.logObs _).setOp s op _) g hp h
      · rw [callWrite_kernel h]
        exact g

theorem writeLoop_moves (hp : P (w.tcp s).fd (.tcp s)) (h : writeLoop w s a = some r) :
    w.kernel.Moves P r.1.kernel := by
  have g : w.kernel.Moves P w.kernel := .refl
  have hset : w.kernel.Moves P (pd_eventSet (setPollout w s false) s (a.sys 0)).kernel := by
    refine pd_eventSet_moves (setPollout w s false) g _ ?_
    rwa [setPollout_fd]
  simp only [writeLoop] at h
  split at h
  · split at h
    · cases h
    · split at h
      · split at h
        · cases h
          exact g
        · split at h
          · cases h
            exact g
          · rw [callWrite_kernel h]
            exact g
      · split at h <;> cases h
        · unfold finishWrite
          split <;> exact g
        · exact g
  · split at h <;> cases h <;> exact hset

theorem pdTcpClose_moves : w.kernel.Moves P (pdTcpClose w s a).1.kernel := by
  simp only [pdTcpClose]
  split
  · exact .refl
  · exact (Kernel.Moves.refl.del).close

theorem clientIoRest_moves {ev : Events} : w.kernel.Moves P (clientIoRest w s ev a).1.kernel := by
  unfold clientIoRest
  split
  · exact pdTcpClose_moves
  · split
    · unfold pd_tcpWrite
      split <;> exact .refl
    · exact .refl

theorem pd_tcpConnectIo_moves {ev : Events}
    (hp : (w.tcp s).status ≠ .closed → P (w.tcp s).fd (.tcp s)) :
    w.kernel.Moves P (pd_tcpConnectIo w s ev a).1.kernel := by
  simp only [pd_tcpConnectIo]
  split
  · exact .refl
  · rename_i hst
    split
    · split <;> exact .refl
    · split
      · have hset : ∀ t : Tcp, t.fd = (w.tcp s).fd →
            w.kernel.Moves P (pd_eventSet (w.setTcp s t) s (a.sys 0)).kernel := by
          intro t ht
          refine pd_eventSet_moves (w.setTcp s t) .refl _ ?_
          simpa [setTcp, ht] using hp hst
        split <;> exact hset _ rfl
      · exact .refl

theorem closeQuietly_moves (v : World) (g : w.kernel.Moves P v.kernel) (fd : Fd) (x : SysRes) :
    w.kernel.Moves P (closeQuietly v fd x).kernel := by
  exact g.close

theorem pnd_tcpListenerIo_moves {l : Lid} {ev : Events} (h : pnd_tcpListenerIo w l ev a = some r) :
    w.kernel.Moves P r.1.kernel := by
  have hsock : w.kernel.Moves P (w.kernel.newSocket (a.sys 0)).1 := Kernel.Moves.refl.newSocket
  simp only [pnd_tcpListenerIo] at h
  split at h
  · cases h
  · split at h
    · cases h
      exact .refl
    · split at h
      · cases h
        exact .refl
      · split at h
        · cases h
          exact closeQuietly_moves (((w.logObs _).setKernel _).setErrno _) hsock _ _
        · split at h <;> cases h
          · exact hsock
          · exact closeQuietly_moves ((w.logObs _).setKernel _) hsock _ _

theorem pdTcpConnect_moves {b : Bool}
    (hp : ∀ fd, owned s (pdTcpConnect w s b a).log = some fd → P fd (.tcp s)) :
    w.kernel.Moves P (pdTcpConnect w s b a).kernel := by
  have hsock : w.kernel.Moves P (w.kernel.newSocket (a.sys 0)).1 := Kernel.Moves.refl.newSocket
  revert hp
  simp only [pdTcpConnect]
  split
  · exact fun _ => .refl
  · rename_i fd _
    split
    · exact fun _ => closeQuietly_moves ((w.setKernel _).setErrno _) hsock _ _
    · split
      · exact fun _ => closeQuietly_moves ((w.setKernel _).setErrno _) hsock _ _
      · exact fun _ => closeQuietly_moves (w.setKernel _) hsock _ _
      · have hadd : ∀ v : World, v.kernel = (w.kernel.newSocket (a.sys 0)).1 →
            (∀ fd', owned s (((pd_eventAdd v s (a.sys 6)).incRefs (.tcp s)).setResult 0).log =
              some fd' → P fd' (.tcp s)) →
            w.kernel.Moves P (((pd_eventAdd v s (a.sys 6)).incRefs (.tcp s)).setResult 0).kernel := by
          intro v hv hp
          have g : w.kernel.Moves P v.kernel := hv ▸ hsock
          refine g.ctl (hp _ ?_)
          have hlog : (((pd_eventAdd v s (a.sys 6)).incRefs (.tcp s)).setResult 0).log =
              v.log ++ [.ctl (.tcp s) (v.tcp s).fd .add] ++ [.refInc (.tcp s)] := rfl
          rw [hlog]
          simp [owned_append, ownAfter]
        split
        · exact hadd _ rfl
        · split
          · intro _
            exact closeQuietly_moves ((((w.setKernel _).setTcp s _).setErrno _).logObs _) hsock _ _
          · exact hadd _ rfl

theorem pdTcpAccept_moves {fd : Fd} (hp : P fd (.tcp s)) :
    w.kernel.Moves P (pdTcpAccept w s fd a).kernel := by
  have hfd : (((w.setTcp s
      { w.tcp s with
        fd := fd, status := .active, handler := some .clientIo
        flags := { (w.tcp s).flags with pollin := true } }).logObs (.opened s fd)).tcp s).fd = fd := by
    simp [setTcp, World.logObs]
  exact Kernel.Moves.refl.ctl (hfd.symm ▸ hp)

theorem pdTcpListen_moves {l : Lid} {b : Bool} (hp : ∀ fd, P fd (.server l)) :
    w.kernel.Moves P (pdTcpListen w l b a).kernel := by
  have hsock : w.kernel.Moves P (w.kernel.newSocket (a.sys 0)).1 := Kernel.Moves.refl.newSocket
  simp only [pdTcpListen]
  split
  · exact .refl
  · exact hsock
  · rename_i n _
    split
    iterate 4 exact closeQuietly_moves ((w.setKernel _).setErrno _) hsock _ _
    split <;> exact hsock.ctl (hp _)

theorem pdTcpServerClose_moves {l : Lid} : w.kernel.Moves P (pdTcpServerClose w l a).kernel := by
  have hdel : w.kernel.Moves P
      (w.kernel.ctl .del (w.server l).fd (.server l) (w.server l).flags (a.sys 0)).1 :=
    Kernel.Moves.refl.del
  simp only [pdTcpServerClose]
  split
  · exact hdel
  · split
    · exact hdel.close
    · exact hdel.close

theorem pdTimerStart_kernel {t : Tid} {cb : Bool} {timeout : Nat} {w' : World}
    (h : pdTimerStart w t cb timeout = some w') : w'.kernel = w.kernel := by
  simp only [pdTimerStart] at h
  split at h
  · cases h
    rfl
  · obtain ⟨hp, _, rfl⟩ := Option.map_eq_some_iff.mp h
    rfl

theorem pdTimerStop_kernel {t : Tid} {w' : World} (h : pdTimerStop w t = some w') :
    w'.kernel = w.kernel := by
  simp only [pdTimerStop] at h
  split at h
  · cases h
    rfl
  · obtain ⟨hp, _, rfl⟩ := Option.map_eq_some_iff.mp h
    rfl

theorem pdTimersRun_kernel (h : pdTimersRun w = some r) : r.1.kernel = w.kernel := by
  unfold pdTimersRun at h
  split at h
  · cases h
    rfl
  · split at h
    · cases h
      rfl
    · obtain ⟨w1, hw, h⟩ := Option.bind_eq_some_iff.mp h
      rw [← pdTimerStop_kernel hw]
      split at h <;> cases h <;> rfl

theorem pdTimersRearm_kernel {t : Tid} (h : pdTimersRearm w t = some r) :
    r.1.kernel = w.kernel := by
  unfold pdTimersRearm at h
  split at h
  · obtain ⟨w1, hw, rfl⟩ := Option.map_eq_some_iff.mp h
    exact pdTimerStart_kernel hw
  · cases h
    rfl

theorem pd_notifierIo_kernel {ev : Events} : (pd_notifierIo w ev a).1.kernel = w.kernel := by
  unfold pd_notifierIo
  split
  · rfl
  · split
    · dsimp only
      split <;> rfl
    · split <;> rfl

end

/-! ## Steps -/

/-- The frame may set the events of its stream, which has the record `t`. -/
def Frame.sets (s : Sid) (t : Tcp) : Frame → Bool
  | .dispatch (.tcp s') _ => s' = s ∧ t.status ≠ .closed
  | .writeTry s' _ => s' = s ∧ t.status = .active
  | .writeLoop s' => s' = s
  | _ => false

/-- The call may set the events of its stream, which has the record `t`. -/
def Call.sets (s : Sid) (t : Tcp) : Call → Bool
  | .tcpWrite s' _ _ | .tcpShutdown s' => s' = s ∧ t.status = .active
  | .tcpPause s' | .tcpResume s' => s' = s
  | _ => false

section
variable {w : World} {a : Answer} {r : World × List Item}

/-- **What a frame registers**: its stream, where the field says. -/
theorem exec_moves {f : Frame} (h : exec w f a = some r) : w.kernel.Moves
    (fun fd x => ∃ s, x = .tcp s ∧ f.sets s (w.tcp s) = true ∧ fd = (w.tcp s).fd) r.1.kernel := by
  cases f with
  | closeDrain s =>
    simp only [exec, closeDrain] at h
    split at h
    · refine .of_eq ?_
      rw [callWrite_kernel h]
      rfl
    · cases h
      exact .refl
  | close s =>
    cases h
    exact pdTcpClose_moves
  | readAlloc s =>
    simp only [exec, readAlloc] at h
    split at h
    · exact .of_eq (callOnData_kernel h)
    · cases h
      exact .refl
  | readTry s buf => exact readTry_moves h
  | clientIoRest s ev =>
    cases h
    exact clientIoRest_moves
  | writeTry s op =>
    exact writeTry_moves (fun hst => ⟨s, rfl, by simpa [Frame.sets] using hst, rfl⟩) h
  | writeLoop s => exact writeLoop_moves ⟨s, rfl, by simp [Frame.sets], rfl⟩ h
  | dispatch hd ev =>
    cases hd with
    | tcp s =>
      simp only [exec, dispatch] at h
      split at h <;> cases h
      · unfold pd_tcpClientIo pd_tcpRead
        split
        · split <;> exact .refl
        · exact .refl
      · exact pd_tcpConnectIo_moves fun hst => ⟨s, rfl, by simpa [Frame.sets] using hst, rfl⟩
    | server l =>
      simp only [exec, dispatch] at h
      split at h
      · exact pnd_tcpListenerIo_moves h
      · cases h
    | taskSignal =>
      cases h
      exact .of_eq pd_notifierIo_kernel
  | timersRun => exact .of_eq (pdTimersRun_kernel h)
  | timersRearm t => exact .of_eq (pdTimersRearm_kernel h)
  | pendingClose =>
    cases h
    unfold pd_tcpPendingClose
    split
    · exact .refl
    · dsimp only
      split <;> exact .refl
  | taskDone l =>
    cases h
    unfold taskDone
    split
    · exact .refl
    · split <;> exact .refl
  | ioRun timeout =>
    simp only [exec, ioRun] at h
    split at h
    · cases h
      exact .refl
    · split at h
      · split at h <;> cases h
        exact .refl
      · cases h
        exact .refl
  | ioAfterTick =>
    cases h
    unfold ioAfterTick
    split <;> exact .refl
  | pendingCloseDec s | taskDoneDec k l | ioNext =>
    cases h
    exact .refl

/-- **What a call registers**: a listener, or its stream, where the field says or where it is
opened. -/
theorem api_moves {k : Call} (h : api w k a = some r) : w.kernel.Moves
    (fun fd x => (∃ l, x = .server l) ∨ ∃ s, x = .tcp s ∧
      (k.sets s (w.tcp s) = true ∧ fd = (w.tcp s).fd ∨
        k.opens s = true ∧ owned s r.1.log = some fd)) r.1.kernel := by
  cases k with
  | tcpAccept s fd =>
    cases h
    refine pdTcpAccept_moves (.inr ⟨s, rfl, .inr ⟨by simp [Call.opens], ?_⟩⟩)
    show owned s (pdTcpAccept w s fd a).log = some fd
    rw [pdTcpAccept_log]
    simp [owned_append, ownAfter]
  | tcpConnect s b =>
    cases h
    exact pdTcpConnect_moves fun fd hfd => .inr ⟨s, rfl, .inr ⟨by simp [Call.opens], hfd⟩⟩
  | tcpWrite s op wr =>
    simp only [api] at h
    split at h
    · simp only [pdTcpWrite] at h
      split at h
      · split at h <;> cases h
        exact .refl
      · split at h
        · cases h
          exact .refl
        · refine pdTcpWriteAsync_moves ((w.setOp s op wr).logObs _) .refl (fun hst => ?_) h
          have hst' : (w.tcp s).status = .active := hst
          exact .inr ⟨s, rfl, .inl ⟨by simpa [Call.sets] using hst', rfl⟩⟩
    · cases h
  | tcpClose s =>
    cases h
    exact pdTcpClose_moves
  | tcpShutdown s =>
    cases h
    simp only [pdTcpShutdown, goOn]
    split
    · exact .refl
    · rename_i hst
      have hst : (w.tcp s).status = .active := not_not.mp hst
      split
      · exact .refl
      · refine pd_eventSet_moves (setPollout (w.setTcp s _) s true) .refl _ ?_
        rw [setPollout_fd]
        exact .inr ⟨s, rfl, .inl ⟨by simpa [Call.sets] using hst, by simp [setTcp]⟩⟩
  | tcpPause s =>
    cases h
    refine pd_eventSet_moves (setPollin w s false) .refl _ ?_
    exact .inr ⟨s, rfl, .inl ⟨by simp [Call.sets], by simp [setPollin, setTcp]⟩⟩
  | tcpResume s =>
    cases h
    refine pd_eventSet_moves (setPollin w s true) .refl _ ?_
    exact .inr ⟨s, rfl, .inl ⟨by simp [Call.sets], by simp [setPollin, setTcp]⟩⟩
  | tcpListen l b =>
    cases h
    exact pdTcpListen_moves fun _ => .inl ⟨l, rfl⟩
  | tcpServerClose l =>
    cases h
    exact pdTcpServerClose_moves
  | timerStart t b d | timerRepeat t b d =>
    obtain ⟨w1, hw, rfl⟩ := Option.map_eq_some_iff.mp h
    have hk := pdTimerStart_kernel hw
    exact .of_eq hk
  | timerStop t =>
    obtain ⟨w1, hw, rfl⟩ := Option.map_eq_some_iff.mp h
    have hk := pdTimerStop_kernel hw
    exact .of_eq hk
  | taskSubmit k b =>
    simp only [api] at h
    split at h <;> cases h
    simp only [pdTaskSubmit, goOn]
    split <;> exact .refl
  | ioRun | timersRun | timersNext | setOnData s b | setOnClose s b | setAfterTick b
  | setErrno e =>
    cases h
    exact .refl

theorem env_moves {P : Fd → Handle → Prop} {e : Env} {w' : World} (h : env w e = some w') :
    w.kernel.Moves P w'.kernel := by
  have g : w.kernel.Moves P w.kernel := .refl
  cases e with
  | arrive fd bytes | peerFin fd | tick n =>
    simp only [env] at h
    split at h <;> cases h
    exact g.sock
  | workDone k =>
    simp only [env] at h
    split at h <;> cases h
    exact g
  | openFd fd =>
    simp only [env] at h
    split at h <;> cases h
    exact g.newSocket
  | closeFd fd =>
    cases h
    exact g.close

end

end Pandio
