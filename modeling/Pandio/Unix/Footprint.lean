import Pandio.Unix.Frames

/- What a step may change. The footprint of a frame or of a call says for which stream
   it works, whether it may change that stream's writes, the timers, or what holds a
   reference to the context, and which handles it may register with the poller; all
   else is as it was, and the log says nothing of it. The relation is carried forward
   through the body of a function, one update after the other, and this is done once
   for each function. -/
namespace Pandio
open World

/-! ## The entries of the log -/

/-- The entries of the log that are about a stream, up to its turn in the queue of closes. -/
def isStreamObs (s : Sid) : Obs → Bool
  | .accepted s' _ | .refused s' _ | .called s' _ _ | .uncalled s' _ | .write s' _ _ _
  | .read s' _ _ | .shutdown s' _ | .sockError s' _ | .ctl (.tcp s') _ _ | .opened s' _
  | .abandoned s' _
  | .closed s' _ | .closeQueued s' | .cb (.allocator s') _ | .cb (.onData s' _ _ _) _
  | .cb (.onConnect s' _) _ => s' = s
  | _ => false

/-- The entries that are about the writes of a stream. -/
def isWriteObs (s : Sid) : Obs → Bool
  | .accepted s' _ | .refused s' _ | .called s' _ _ | .uncalled s' _ | .write s' _ _ _
  | .closeQueued s' => s' = s
  | _ => false

/-- The entries that are about timers. -/
def isTimerObs : Obs → Bool
  | .timerStart _ | .timerStop _ | .cb (.onTimeout _ _) _ | .refInc (.timer _)
  | .refDec (.timer _) => true
  | _ => false

/-- The entries that are about references, and about what is opened to hold them. -/
def isOwnerObs : Obs → Bool
  | .refInc _ | .refDec _ | .accept _ _ | .cb (.onConnection _ _) _ | .ctl (.server _) _ .add
  | .opened _ _ | .closeQueued _ | .listening _ _ | .serverClosed _ _ => true
  | _ => false

/-! ## Footprints -/

/-- What may be changed. -/
structure Footprint where
  stream : Sid → Prop
  /-- The streams whose writes may change. -/
  writes : Sid → Prop
  /-- The timers and the time. -/
  timers : Prop
  /-- What holds references. -/
  owners : Prop
  /-- Which tasks are submitted and not done. -/
  tasks : Prop
  /-- The handles that may be registered. -/
  handle : Handle → Prop

/-- The entries that may be logged. -/
def Footprint.logs (F : Footprint) : Obs → Prop
  | .accepted s _ | .refused s _ | .called s _ _ | .uncalled s _ | .write s _ _ _ =>
    F.stream s ∧ F.writes s
  | .closeQueued s => F.stream s ∧ F.writes s ∧ F.owners
  | .read s _ _ | .shutdown s _ | .sockError s _ | .ctl (.tcp s) _ _ | .abandoned s _ | .closed s _
  | .cb (.allocator s) _
  | .cb (.onData s _ _ _) _ | .cb (.onConnect s _) _ => F.stream s
  | .opened s _ => F.stream s ∧ F.owners
  | .timerStart _ | .timerStop _ | .cb (.onTimeout _ _) _ => F.timers
  | .refInc (.timer _) | .refDec (.timer _) => F.timers ∧ F.owners
  | .refInc _ | .refDec _ | .accept _ _ | .cb (.onConnection _ _) _ | .ctl (.server _) _ .add
  | .listening _ _ | .serverClosed _ _ => F.owners
  | _ => True

namespace Footprint

variable {F : Footprint} {s : Sid} {o : Obs}

theorem logs.stream (h : F.logs o) (ho : isStreamObs s o = true) : F.stream s := by
  unfold isStreamObs at ho
  split at ho <;> simp_all [logs]

theorem logs.writes (h : F.logs o) (ho : isWriteObs s o = true) : F.writes s := by
  unfold isWriteObs at ho
  split at ho <;> simp_all [logs]

theorem logs.timers (h : F.logs o) (ho : isTimerObs o = true) : F.timers := by
  unfold isTimerObs at ho
  split at ho <;> simp_all [logs]

theorem logs.owners (h : F.logs o) (ho : isOwnerObs o = true) : F.owners := by
  unfold isOwnerObs at ho
  split at ho
  · rename_i ow
    cases ow <;> simp_all [logs]
  · rename_i ow
    cases ow <;> simp_all [logs]
  all_goals simp_all [logs]

end Footprint

/-- Every registration was there before, up to its flags, or is of one of the handles `H`. -/
def Kernel.Registers (H : Handle → Prop) (k k' : Kernel) : Prop :=
  ∀ fd h f, k'.interest fd = some (h, f) → H h ∨ ∃ g, k.interest fd = some (h, g)

/-- The timers and the time are as they were. -/
def SameTimers (w w' : World) : Prop :=
  w'.timers = w.timers ∧ w'.timer = w.timer ∧ w'.now = w.now ∧
    w'.kernel.clock = w.kernel.clock

/-- What holds references is as it was. -/
def SameOwners (w w' : World) : Prop :=
  w'.refs = w.refs ∧ (∀ t, (w'.timer t).active = (w.timer t).active) ∧
    (∀ s, (w'.tcp s).status = .closed ↔ (w.tcp s).status = .closed) ∧ w'.server = w.server ∧
    w'.pendingCloses = w.pendingCloses ∧ w'.poolTasks = w.poolTasks ∧
    w'.finishedTasks = w.finishedTasks

/-- From `w` to `w'` nothing has changed but what the footprint allows. -/
structure Touches (F : Footprint) (w w' : World) : Prop where
  tcp : ∀ s, ¬ F.stream s → w'.tcp s = w.tcp s
  writes : ∀ s, ¬ F.writes s → (w'.tcp s).writes = (w.tcp s).writes
  op : ∀ s, ¬ F.writes s → w'.op s = w.op s
  timers : ¬ F.timers → SameTimers w w'
  owners : ¬ F.owners → SameOwners w w'
  task : ¬ F.tasks → w'.task = w.task
  interest : w.kernel.Registers F.handle w'.kernel
  log : ∃ l, w'.log = w.log ++ l ∧ ∀ o ∈ l, F.logs o

/-! ## Registrations -/

namespace Kernel

variable {H : Handle → Prop} {k k' : Kernel}

theorem Registers.refl : k.Registers H k := fun _ _ f h => .inr ⟨f, h⟩

theorem Registers.of_eq (h : k' = k) : k.Registers H k' := by
  subst h
  exact .refl

/-- Registrations may go. -/
theorem Registers.remove (g : k.Registers H k') {fd : Fd} {isOpen : Fd → Bool}
    {sock : Fd → Sock} {clock : Nat} :
    k.Registers H ⟨isOpen, Function.update k'.interest fd none, sock, clock⟩ := by
  intro fd' h f hi
  by_cases hfd : fd' = fd
  · simp [hfd] at hi
  · simp only [Function.update_of_ne hfd] at hi
    exact g fd' h f hi

theorem Registers.ctl (g : k.Registers H k') {c : Ctl} {fd : Fd} {h : Handle} {f : Flags}
    {r : SysRes} (hh : H h) : k.Registers H (k'.ctl c fd h f r).1 := by
  have put : k.Registers H { k' with interest := Function.update k'.interest fd (some (h, f)) } := by
    intro fd' h' f' hi
    by_cases hfd : fd' = fd
    · simp only [hfd, Function.update_self, Option.some.injEq, Prod.mk.injEq] at hi
      exact .inl (hi.1 ▸ hh)
    · simp only [Function.update_of_ne hfd] at hi
      exact g fd' h' f' hi
  unfold Kernel.ctl
  split
  · exact g
  · split
    · exact g
    · exact g
    · exact g
    · exact g.remove
    · exact g
    · exact put

/-- Removing a registration adds none. -/
theorem Registers.del (g : k.Registers H k') {fd : Fd} {h : Handle} {f : Flags} {r : SysRes} :
    k.Registers H (k'.ctl .del fd h f r).1 := by
  cases hi : k'.interest fd with
  | none =>
    simp only [Kernel.ctl, hi]
    split <;> exact g
  | some p =>
    simp only [Kernel.ctl, hi]
    split
    · exact g
    · exact g.remove

theorem Registers.close (g : k.Registers H k') {fd : Fd} {r : SysRes} :
    k.Registers H (k'.close fd r).1 := by
  unfold Kernel.close
  split
  · exact g
  · exact g.remove

theorem Registers.newSocket (g : k.Registers H k') {r : SysRes} :
    k.Registers H (k'.newSocket r).1 := by
  unfold Kernel.newSocket
  split
  · exact g
  · split
    · exact g
    · exact g.remove

variable (k)

@[simp] theorem ctl_clock (c : Ctl) (fd : Fd) (h : Handle) (f : Flags) (r : SysRes) :
    (k.ctl c fd h f r).1.clock = k.clock := by
  unfold Kernel.ctl
  split
  · rfl
  · split <;> rfl

@[simp] theorem close_clock (fd : Fd) (r : SysRes) : (k.close fd r).1.clock = k.clock := by
  unfold Kernel.close
  split <;> rfl

@[simp] theorem newSocket_clock (r : SysRes) : (k.newSocket r).1.clock = k.clock := by
  unfold Kernel.newSocket
  split
  · rfl
  · split <;> rfl

end Kernel

/-! ## Updates -/

theorem SameTimers.refl {w : World} : SameTimers w w := ⟨rfl, rfl, rfl, rfl⟩

theorem SameOwners.refl {w : World} : SameOwners w w :=
  ⟨rfl, fun _ => rfl, fun _ => Iff.rfl, rfl, rfl, rfl, rfl⟩

section
variable {F : Footprint} {w w' : World}

theorem Touches.refl : Touches F w w :=
  ⟨fun _ _ => rfl, fun _ _ => rfl, fun _ _ => rfl, fun _ => .refl, fun _ => .refl,
    fun _ => rfl, .refl, [], (List.append_nil _).symm, by simp⟩

namespace Touches

variable (t : Touches F w w') {s : Sid} {a : Answer} {r : World × List Item}
include t

/-- The footprint may be larger. -/
theorem mono {G : Footprint} (hs : ∀ s, F.stream s → G.stream s)
    (hw : ∀ s, F.writes s → G.writes s) (ht : F.timers → G.timers) (ho : F.owners → G.owners)
    (hk : F.tasks → G.tasks) (hh : ∀ h, F.handle h → G.handle h) : Touches G w w' := by
  have hlogs : ∀ o, F.logs o → G.logs o := by
    intro o h
    unfold Footprint.logs at h ⊢
    split at h <;> grind
  obtain ⟨l, hl, hall⟩ := t.log
  exact
    { tcp := fun s h => t.tcp s (mt (hs s) h)
      writes := fun s h => t.writes s (mt (hw s) h)
      op := fun s h => t.op s (mt (hw s) h)
      timers := fun h => t.timers (mt ht h)
      owners := fun h => t.owners (mt ho h)
      task := fun h => t.task (mt hk h)
      interest := fun fd h f hi => (t.interest fd h f hi).imp (hh h) id
      log := ⟨l, hl, fun o ho => hlogs o (hall o ho)⟩ }

theorem logObs {o : Obs} (ho : F.logs o) : Touches F w (w'.logObs o) := by
  obtain ⟨l, hl, hall⟩ := t.log
  refine { t with log := ⟨l ++ [o], ?_, ?_⟩ }
  · rw [← List.append_assoc, ← hl]
    rfl
  · intro o' ho'
    rcases List.mem_append.mp ho' with h | h
    · exact hall o' h
    · rwa [List.mem_singleton.mp h]

/-- An update of a stream that keeps its queue of writes, and does not close it or open it again,
changes the stream only. -/
theorem setTcp {x : Tcp} (hs : F.stream s) (hw : x.writes = (w'.tcp s).writes ∨ F.writes s)
    (ho : (x.status = .closed ↔ (w'.tcp s).status = .closed) ∨ F.owners) :
    Touches F w (w'.setTcp s x) := by
  have other : ∀ {s'}, s' ≠ s → (w'.setTcp s x).tcp s' = w'.tcp s' := fun h => by
    simp [World.setTcp, h]
  have self : (w'.setTcp s x).tcp s = x := by simp [World.setTcp]
  refine { t with tcp := fun s' h => ?_, writes := fun s' h => ?_, owners := fun h => ?_ }
  · rw [other (by rintro rfl; exact h hs)]
    exact t.tcp s' h
  · by_cases hss : s' = s
    · subst hss
      rw [self]
      exact (hw.resolve_right h).trans (t.writes s' h)
    · rw [other hss]
      exact t.writes s' h
  · obtain ⟨h1, h2, h3, h4⟩ := t.owners h
    refine ⟨h1, h2, fun s' => ?_, h4⟩
    by_cases hss : s' = s
    · subst hss
      rw [self]
      exact (ho.resolve_right h).trans (h3 s')
    · rw [other hss]
      exact h3 s'

theorem setOp {o : Op} {x : WriteOp} (hw : F.writes s) : Touches F w (w'.setOp s o x) := by
  refine { t with op := fun s' h => ?_ }
  have hne : s' ≠ s := by
    rintro rfl
    exact h hw
  simpa [World.setOp, hne] using t.op s' h

theorem setKernel {k : Kernel} (hk : w.kernel.Registers F.handle k)
    (hc : k.clock = w'.kernel.clock ∨ F.timers) : Touches F w (w'.setKernel k) := by
  refine { t with interest := hk, timers := fun h => ?_ }
  obtain ⟨h1, h2, h3, h4⟩ := t.timers h
  exact ⟨h1, h2, h3, (hc.resolve_right h).trans h4⟩

theorem setTimer {x : Tid} {y : Timer} (ht : F.timers)
    (ho : y.active = (w'.timer x).active ∨ F.owners) : Touches F w (w'.setTimer x y) := by
  refine { t with timers := fun h => absurd ht h, owners := fun h => ?_ }
  obtain ⟨h1, h2, h3⟩ := t.owners h
  refine ⟨h1, fun x' => ?_, h3⟩
  by_cases hx : x' = x
  · subst hx
    simpa [World.setTimer] using (ho.resolve_right h).trans (h2 x')
  · simpa [World.setTimer, hx] using h2 x'

theorem setTimers {h : Heap Tid} (ht : F.timers) : Touches F w (w'.setTimers h) :=
  { t with timers := fun h => absurd ht h }

theorem setNow {n : Nat} (ht : F.timers) : Touches F w (w'.setNow n) :=
  { t with timers := fun h => absurd ht h }

theorem setServer {l : Lid} {x : TcpServer} (ho : F.owners) : Touches F w (w'.setServer l x) :=
  { t with owners := fun h => absurd ho h }

theorem setRefs {n : Nat} (ho : F.owners) : Touches F w (w'.setRefs n) :=
  { t with owners := fun h => absurd ho h }

theorem setPendingCloses {q : LinkedQueue Sid} (ho : F.owners) :
    Touches F w (w'.setPendingCloses q) := { t with owners := fun h => absurd ho h }

theorem setTasks {p f : List Task} {b : Bool}
    (ho : p = w'.poolTasks ∧ f = w'.finishedTasks ∨ F.owners) :
    Touches F w (w'.setTasks p f b) := by
  refine { t with owners := fun h => ?_ }
  obtain ⟨h1, h2, h3, h4, h5, h6, h7⟩ := t.owners h
  obtain ⟨hp, hf⟩ := ho.resolve_right h
  exact ⟨h1, h2, h3, h4, h5, hp.trans h6, hf.trans h7⟩

theorem addTask {k : Task} {b : Bool} (ho : F.owners) (hk : F.tasks) :
    Touches F w (w'.addTask k b) :=
  { t with owners := fun h => absurd ho h, task := fun h => absurd hk h }

theorem dropTask {k : Task} (hk : F.tasks) : Touches F w (w'.dropTask k) :=
  { t with task := fun h => absurd hk h }

theorem setErrno {x : SysRes} : Touches F w (w'.setErrno x) := { t with }

theorem setAfterTick {b : Bool} : Touches F w (w'.setAfterTick b) := { t with }

theorem setResult {n : Int} : Touches F w (w'.setResult n) := { t with }

theorem incRefs {o : Owner} (ho : F.owners) (hl : F.logs (.refInc o)) :
    Touches F w (w'.incRefs o) := (t.setRefs ho).logObs hl

theorem decRefs {o : Owner} (ho : F.owners) (hl : F.logs (.refDec o)) :
    Touches F w (w'.decRefs o) := (t.setRefs ho).logObs hl

/-- Entries that the footprint does not allow are not logged. -/
theorem filter_log {p : Obs → Bool} (hp : ∀ o, F.logs o → p o = false) :
    w'.log.filter p = w.log.filter p := by
  obtain ⟨l, hl, hall⟩ := t.log
  have hnone : l.filter p = [] := by
    rw [List.filter_eq_nil_iff]
    intro o ho
    simp [hp o (hall o ho)]
  rw [hl, List.filter_append, hnone, List.append_nil]

theorem goOn {fs : List Frame} : Touches F w (w'.goOn fs).1 := t

theorem call {k : Cb} {fs : List Frame} (hk : F.logs (.cb k w'.now)) :
    Touches F w (w'.call k fs).1 := t.logObs hk

theorem failErrno : Touches F w (Pandio.failErrno w') := t.setResult

theorem closeQuietly {fd : Fd} {x : SysRes} : Touches F w (Pandio.closeQuietly w' fd x) :=
  (t.setKernel t.interest.close (.inl (Kernel.close_clock ..))).setErrno

theorem newSocket {x : SysRes} : Touches F w (w'.setKernel (w'.kernel.newSocket x).1) :=
  t.setKernel t.interest.newSocket (.inl (Kernel.newSocket_clock ..))

/-- `epoll_ctl`, with `errno` as it leaves it. -/
theorem ctl {c : Ctl} {fd : Fd} {h : Handle} {f : Flags} {x : SysRes} (hh : F.handle h)
    (hl : F.logs (.ctl h fd c)) :
    Touches F w (((w'.setKernel (w'.kernel.ctl c fd h f x).1).setErrno
      (w'.kernel.ctl c fd h f x).2).logObs (.ctl h fd c)) :=
  ((t.setKernel (t.interest.ctl hh) (.inl (Kernel.ctl_clock ..))).setErrno).logObs hl

/-! ## Functions of a stream -/

section
variable (hs : F.stream s)
include hs

theorem pd_eventAdd {x : SysRes} (hh : F.handle (.tcp s)) :
    Touches F w (Pandio.pd_eventAdd w' s x) := t.ctl hh hs

theorem pd_eventSet {x : SysRes} (hh : F.handle (.tcp s)) :
    Touches F w (Pandio.pd_eventSet w' s x) := t.ctl hh hs

theorem pd_eventDel {x : SysRes} : Touches F w (Pandio.pd_eventDel w' s x) :=
  ((t.setKernel t.interest.del (.inl (Kernel.ctl_clock ..))).setErrno).logObs hs

theorem setPollin {b : Bool} : Touches F w (Pandio.setPollin w' s b) :=
  t.setTcp hs (.inl rfl) (.inl Iff.rfl)

theorem setPollout {b : Bool} : Touches F w (Pandio.setPollout w' s b) :=
  t.setTcp hs (.inl rfl) (.inl Iff.rfl)

theorem setWrites {l : List Op} (hw : F.writes s) :
    Touches F w (w'.setTcp s { w'.tcp s with writes := l }) :=
  t.setTcp hs (.inr hw) (.inl Iff.rfl)

theorem shutdownWr {x : SysRes} : Touches F w (Pandio.shutdownWr w' s x) := t.setErrno.logObs hs

theorem callOnData {buf : Option Nat} {size : Int} {bytes : List UInt8} {fs : List Frame}
    (h : Pandio.callOnData w' s buf size bytes fs = some r) : Touches F w r.1 := by
  unfold Pandio.callOnData at h
  split at h <;> cases h
  exact t.call hs

theorem pdTcpClose (ho : F.owners) : Touches F w (Pandio.pdTcpClose w' s a).1 := by
  simp only [Pandio.pdTcpClose]
  split
  · exact t
  · have hd := (t.setTcp (x := { w'.tcp s with status := .closed }) hs (.inl rfl)
      (.inr ho)).pd_eventDel (x := a.sys 0) hs
    exact ((hd.setKernel hd.interest.close (.inl (Kernel.close_clock ..))).setErrno).logObs hs

theorem readAlloc (h : Pandio.readAlloc w' s = some r) : Touches F w r.1 := by
  unfold Pandio.readAlloc at h
  split at h
  · exact t.callOnData hs h
  · cases h
    exact t

theorem readTry {buf : Option Nat} (h : Pandio.readTry w' s buf a = some r) :
    Touches F w r.1 := by
  simp only [Pandio.readTry] at h
  split at h
  · rename_i e _
    have hread : Touches F w ((w'.setErrno (.err e)).logObs (.read s (w'.tcp s).fd [])) :=
      t.setErrno.logObs hs
    split at h
    · cases h
      exact hread
    · split at h
      · exact hread.callOnData hs h
      · exact hread.callOnData hs h
  · exact (t.logObs (o := .read s (w'.tcp s).fd []) hs).callOnData hs h
  · rename_i n _
    have hk := t.setKernel (k := w'.kernel.consume (w'.tcp s).fd (n + 1)) t.interest (.inl rfl)
    exact (hk.logObs (o := .read s (w'.tcp s).fd _) hs).callOnData hs h

theorem pd_tcpClientIo {ev : Events} : Touches F w (Pandio.pd_tcpClientIo w' s ev).1 := by
  simp only [Pandio.pd_tcpClientIo, pd_tcpRead]
  split
  · split
    · exact t
    · exact t.logObs (o := .cb (.allocator s) w'.now) hs
  · exact t

theorem clientIoRest {ev : Events} (ho : F.owners) :
    Touches F w (Pandio.clientIoRest w' s ev a).1 := by
  unfold Pandio.clientIoRest
  split
  · exact t.pdTcpClose hs ho
  · split
    · unfold pd_tcpWrite
      split <;> exact t
    · exact t

theorem pd_tcpConnectIo {ev : Events} (hh : F.handle (.tcp s)) :
    Touches F w (Pandio.pd_tcpConnectIo w' s ev a).1 := by
  simp only [Pandio.pd_tcpConnectIo]
  split
  · exact t
  · rename_i hst
    split
    · have herr := t.logObs (o := .sockError s (w'.tcp s).fd) hs
      split
      · exact herr.call hs
      · exact herr.goOn
    · split
      · have hset := (t.setTcp (x := { w'.tcp s with
            status := .active, handler := some .clientIo
            flags := { (w'.tcp s).flags with pollout := false } }) hs (.inl rfl)
            (.inl (by simp [hst]))).pd_eventSet (x := a.sys 0) hs hh
        split
        · exact hset.call hs
        · exact hset
      · exact t

theorem pdTcpShutdown (hh : F.handle (.tcp s)) :
    Touches F w (Pandio.pdTcpShutdown w' s a) := by
  simp only [Pandio.pdTcpShutdown]
  split
  · exact t
  · rename_i hst
    have hset := t.setTcp (x := { w'.tcp s with status := .shutdown }) hs (.inl rfl)
      (.inl (by simp_all))
    split
    · exact hset.shutdownWr hs
    · exact (hset.setPollout hs).pd_eventSet hs hh

theorem pdTcpAccept {fd : Fd} (ho : F.owners) (hh : F.handle (.tcp s)) :
    Touches F w (Pandio.pdTcpAccept w' s fd a) := by
  have hset := t.setTcp (x := { w'.tcp s with
    fd := fd, status := .active, handler := some .clientIo
    flags := { (w'.tcp s).flags with pollin := true } }) hs (.inl rfl) (.inr ho)
  exact ((hset.logObs (o := .opened s fd) ⟨hs, ho⟩).pd_eventAdd hs hh).incRefs (o := .tcp s) ho ho

theorem pdTcpConnect {b : Bool} (ho : F.owners) (hh : F.handle (.tcp s)) :
    Touches F w (Pandio.pdTcpConnect w' s b a) := by
  simp only [Pandio.pdTcpConnect]
  split
  · exact t.setErrno.failErrno
  · rename_i fd _
    have hsock := t.newSocket (x := a.sys 0)
    split
    · exact hsock.setErrno.closeQuietly.failErrno
    · split
      · exact hsock.setErrno.closeQuietly.failErrno
      · exact hsock.closeQuietly.failErrno
      · have hset := hsock.setTcp (s := s) (x := { w'.tcp s with
          fd := fd, onConnect := b, handler := some .connectIo, flags := ⟨true, true⟩ }) hs
          (.inl rfl) (.inl Iff.rfl)
        have register : ∀ {v : World}, Touches F w v → Touches F w (((Pandio.pd_eventAdd
            (v.logObs (.opened s fd)) s (a.sys 6)).incRefs (.tcp s)).setResult 0) := fun tv =>
          (((tv.logObs (o := .opened s fd) ⟨hs, ho⟩).pd_eventAdd hs hh).incRefs (o := .tcp s) ho
            ho).setResult
        split
        · exact register hset
        · split
          · exact (hset.setErrno.logObs (o := .abandoned s fd) hs).closeQuietly.failErrno
          · exact register hset.setErrno

/-! ## Functions of a stream's writes -/

variable (hw : F.writes s)
include hw

theorem callWrite {op : Op} {st : Int} {fs : List Frame}
    (h : Pandio.callWrite w' s op st fs = some r) : Touches F w r.1 := by
  unfold Pandio.callWrite at h
  split at h
  · split at h <;> cases h
    exact t.logObs ⟨hs, hw⟩
  · cases h

theorem closeDrain (ho : F.owners) (h : Pandio.closeDrain w' s = some r) : Touches F w r.1 := by
  unfold Pandio.closeDrain at h
  split at h
  · exact (t.setWrites hs hw).callWrite hs hw h
  · cases h
    exact (t.setPendingCloses ho).logObs ⟨hs, hw, ho⟩

theorem pdTcpWriteAsync {op : Op} (hh : F.handle (.tcp s))
    (h : Pandio.pdTcpWriteAsync w' s op a = some r) : Touches F w r.1 := by
  simp only [Pandio.pdTcpWriteAsync] at h
  split at h
  · exact t.callWrite hs hw h
  · split at h <;> cases h
    · exact ((t.setWrites hs hw).setPollout hs).pd_eventSet hs hh
    · exact t.setWrites hs hw

theorem pdTcpWrite {op : Op} {x : WriteOp} (hh : F.handle (.tcp s))
    (h : Pandio.pdTcpWrite w' s op x a = some r) : Touches F w r.1 := by
  simp only [Pandio.pdTcpWrite] at h
  split at h
  · split at h <;> cases h
    exact (t.setOp hw).logObs ⟨hs, hw⟩
  · have haccept : Touches F w ((w'.setOp s op x).logObs (.accepted s op)) :=
      (t.setOp hw).logObs ⟨hs, hw⟩
    split at h
    · cases h
      exact haccept
    · exact haccept.pdTcpWriteAsync hs hw hh h

theorem writeTry {op : Op} (hh : F.handle (.tcp s)) (h : Pandio.writeTry w' s op a = some r) :
    Touches F w r.1 := by
  simp only [Pandio.writeTry] at h
  split at h
  · cases h
  · split at h
    · rename_i e _
      have hwrite : Touches F w ((w'.setErrno (.err e)).logObs (.write s (w'.tcp s).fd op [])) :=
        t.setErrno.logObs ⟨hs, hw⟩
      split at h
      · cases h
        exact hwrite
      · split at h
        · exact hwrite.pdTcpWriteAsync hs hw hh h
        · exact hwrite.callWrite hs hw h
    · have hwrite : ∀ {b}, Touches F w (w'.logObs (.write s (w'.tcp s).fd op b)) :=
        t.logObs ⟨hs, hw⟩
      split at h
      · exact (hwrite.setOp hw).pdTcpWriteAsync hs hw hh h
      · exact hwrite.callWrite hs hw h

theorem writeLoop (hh : F.handle (.tcp s)) (h : Pandio.writeLoop w' s a = some r) :
    Touches F w r.1 := by
  simp only [Pandio.writeLoop] at h
  split at h
  · rename_i op rest _
    split at h
    · cases h
    · split at h
      · rename_i e _
        have hwrite : Touches F w ((w'.setErrno (.err e)).logObs
            (.write s (w'.tcp s).fd op [])) := t.setErrno.logObs ⟨hs, hw⟩
        split at h
        · cases h
          exact hwrite
        · split at h
          · cases h
            exact hwrite
          · exact (hwrite.setWrites hs hw).callWrite hs hw h
      · have hwrite : ∀ {b}, Touches F w (w'.logObs (.write s (w'.tcp s).fd op b)) :=
          t.logObs ⟨hs, hw⟩
        split at h <;> cases h
        · unfold finishWrite
          split
          · exact ((hwrite.setOp hw).setWrites hs hw).logObs ⟨hs, hw⟩
          · exact ((hwrite.setOp hw).setWrites hs hw).logObs ⟨hs, hw⟩
        · exact hwrite.setOp hw
  · have hset := (t.setPollout (b := false) hs).pd_eventSet (x := a.sys 0) hs hh
    split at h <;> cases h
    · exact hset.shutdownWr hs
    · exact hset

end

/-! ## Timers, listeners and tasks -/

section
variable (ht : F.timers) (ho : F.owners)
include ht ho

theorem pdTimerStart {x : Tid} {cb : Bool} {d : Nat} {w'' : World}
    (h : Pandio.pdTimerStart w' x cb d = some w'') : Touches F w w'' := by
  simp only [Pandio.pdTimerStart] at h
  split at h
  · cases h
    exact t
  · obtain ⟨hp, _, rfl⟩ := Option.map_eq_some_iff.mp h
    exact ((t.setTimer ht (.inr ho)).incRefs (o := .timer x) ho ⟨ht, ho⟩).setTimers ht

theorem pdTimerStop {x : Tid} {w'' : World} (h : Pandio.pdTimerStop w' x = some w'') :
    Touches F w w'' := by
  simp only [Pandio.pdTimerStop] at h
  split at h
  · cases h
    exact t
  · obtain ⟨hp, _, rfl⟩ := Option.map_eq_some_iff.mp h
    exact ((t.setTimer ht (.inr ho)).setTimers ht).decRefs (o := .timer x) ho ⟨ht, ho⟩

theorem pdTimersRun (h : Pandio.pdTimersRun w' = some r) : Touches F w r.1 := by
  unfold Pandio.pdTimersRun at h
  split at h
  · cases h
    exact t
  · split at h
    · cases h
      exact t
    · obtain ⟨w1, hw, h⟩ := Option.bind_eq_some_iff.mp h
      have hstop := t.pdTimerStop ht ho hw
      split at h <;> cases h
      · exact hstop.call ht
      · exact hstop

theorem pdTimersRearm {x : Tid} (h : Pandio.pdTimersRearm w' x = some r) : Touches F w r.1 := by
  unfold Pandio.pdTimersRearm at h
  split at h
  · obtain ⟨w1, hw, rfl⟩ := Option.map_eq_some_iff.mp h
    exact t.pdTimerStart ht ho hw
  · cases h
    exact t

end

theorem ioRun {timeout : Int} (ht : F.timers) (h : Pandio.ioRun w' timeout a = some r) :
    Touches F w r.1 := by
  simp only [Pandio.ioRun] at h
  split at h
  · cases h
    exact t
  · split at h
    · split at h <;> cases h
      exact t.setErrno.goOn
    · cases h
      exact t.setNow ht

section
variable (ho : F.owners)
include ho

theorem pnd_tcpListenerIo {l : Lid} {ev : Events}
    (h : Pandio.pnd_tcpListenerIo w' l ev a = some r) : Touches F w r.1 := by
  simp only [Pandio.pnd_tcpListenerIo] at h
  split at h
  · cases h
  · split at h
    · cases h
      exact t
    · have hacc : Touches F w (w'.logObs (.accept l (w'.server l).fd)) := t.logObs ho
      have hsock : Touches F w ((w'.logObs (.accept l (w'.server l).fd)).setKernel
          (w'.kernel.newSocket (a.sys 0)).1) := hacc.newSocket
      split at h
      · cases h
        exact hacc.setErrno.goOn
      · split at h
        · cases h
          exact hsock.setErrno.closeQuietly.goOn
        · split at h <;> cases h
          · exact hsock.call ho
          · exact hsock.closeQuietly.goOn

theorem pdTcpListen {l : Lid} {b : Bool} (hh : F.handle (.server l)) :
    Touches F w (Pandio.pdTcpListen w' l b a) := by
  simp only [Pandio.pdTcpListen]
  have hsock := t.newSocket (x := a.sys 0)
  split
  · exact t.setErrno.failErrno
  · exact hsock.failErrno
  · rename_i n _
    split
    · exact hsock.setErrno.closeQuietly.failErrno
    · exact hsock.setErrno.closeQuietly.failErrno
    · exact hsock.setErrno.closeQuietly.failErrno
    · exact hsock.setErrno.closeQuietly.failErrno
    · have hset := hsock.setServer (l := l) (x := { w'.server l with
        fd := (n + 1 : Fd), handler := true, status := .active, onConnection := b
        flags := { (w'.server l).flags with pollin := true } }) ho
      have hadd : ∀ {fl}, Touches F w _ := fun {fl} => by
        exact @ctl F w _ hset .add (n + 1 : Fd) (.server l) fl (a.sys 7) hh ho
      split
      · exact ((hadd.logObs (o := .listening l (n + 1 : Fd)) ho).incRefs (o := .server l) ho
          ho).setResult
      · exact (hadd.incRefs (o := .server l) ho ho).setResult

theorem pdTcpServerClose {l : Lid} : Touches F w (Pandio.pdTcpServerClose w' l a) := by
  simp only [Pandio.pdTcpServerClose]
  have hreg : w.kernel.Registers F.handle
      (w'.kernel.ctl .del (w'.server l).fd (.server l) (w'.server l).flags (a.sys 0)).1 :=
    t.interest.del
  have hdel := (t.setKernel hreg (.inl (Kernel.ctl_clock ..))).logObs
    (o := .ctl (.server l) (w'.server l).fd .del) trivial
  split
  · exact hdel.setErrno.setResult
  · have hclose := hdel.setKernel (k := (Kernel.close _ (w'.server l).fd (a.sys 1)).1)
      hdel.interest.close (.inl (Kernel.close_clock ..))
    split
    · exact hclose.setErrno.setResult
    · exact ((hclose.logObs (o := .serverClosed l (w'.server l).fd) ho).decRefs (o := .server l) ho
        ho).setResult

theorem pd_notifierIo {ev : Events} : Touches F w (Pandio.pd_notifierIo w' ev a).1 := by
  simp only [Pandio.pd_notifierIo]
  split
  · exact t
  · split
    · split <;> exact t.setErrno.goOn
    · split
      · exact (t.setTasks (.inr ho)).setTasks (.inr ho)
      · exact t.setErrno.goOn

end

end Touches

end

/-! ## Frames and calls -/

/-- The stream a frame works for. -/
def Frame.stream : Frame → Option Sid
  | .closeDrain s | .close s | .readAlloc s | .readTry s _ | .clientIoRest s _ | .writeTry s _
  | .writeLoop s | .dispatch (.tcp s) _ => some s
  | _ => none

/-- The frames that may change the writes of their stream. -/
def Frame.writing : Frame → Bool
  | .closeDrain _ | .writeTry _ _ | .writeLoop _ => true
  | _ => false

/-- The frames that use the timers or the time. -/
def Frame.timing : Frame → Bool
  | .timersRun | .timersRearm _ | .ioRun _ => true
  | _ => false

/-- The frames that may change what holds references. -/
def Frame.owning : Frame → Bool
  | .closeDrain _ | .close _ | .clientIoRest _ _ | .dispatch (.server _) _
  | .dispatch .taskSignal _ | .timersRun | .timersRearm _ | .pendingClose | .pendingCloseDec _
  | .taskDoneDec _ _ => true
  | _ => false

/-- The handle a frame may register: that of its stream. -/
def Frame.handles (f : Frame) (h : Handle) : Prop := ∃ s, f.stream = some s ∧ h = .tcp s

def Frame.footprint (f : Frame) : Footprint where
  stream s := f.stream = some s
  writes s := f.stream = some s ∧ f.writing = true
  timers := f.timing = true
  owners := f.owning = true
  tasks := ∃ k rest, f = .taskDone (k :: rest)
  handle := f.handles

/-- The stream a call works for. -/
def Call.stream : Call → Option Sid
  | .tcpAccept s _ | .tcpConnect s _ | .tcpWrite s _ _ | .tcpClose s | .tcpShutdown s | .tcpPause s
  | .tcpResume s | .setOnData s _ | .setOnClose s _ => some s
  | _ => none

/-- The calls that may change the writes of their stream. -/
def Call.writing : Call → Bool
  | .tcpWrite _ _ _ => true
  | _ => false

/-- The calls that use the timers. -/
def Call.timing : Call → Bool
  | .timerStart _ _ _ | .timerRepeat _ _ _ | .timerStop _ => true
  | _ => false

/-- The calls that may change what holds references. -/
def Call.owning : Call → Bool
  | .tcpAccept _ _ | .tcpConnect _ _ | .tcpClose _ | .tcpListen _ _ | .tcpServerClose _
  | .timerStart _ _ _ | .timerRepeat _ _ _ | .timerStop _ | .taskSubmit _ _ => true
  | _ => false

/-- The handle a call may register: that of its stream or listener. -/
def Call.handles (c : Call) : Handle → Prop
  | .tcp s => c.stream = some s
  | .server l => ∃ b, c = .tcpListen l b
  | .taskSignal => False

def Call.footprint (c : Call) : Footprint where
  stream s := c.stream = some s
  writes s := c.stream = some s ∧ c.writing = true
  timers := c.timing = true
  owners := c.owning = true
  tasks := ∃ k b, c = .taskSubmit k b
  handle := c.handles

section
variable {w : World} {a : Answer} {r : World × List Item}

/-- **What a step of the library may change.** -/
theorem exec_touches {f : Frame} (h : exec w f a = some r) : Touches f.footprint w r.1 := by
  have t : Touches f.footprint w w := .refl
  have hh : ∀ {s}, f.stream = some s → f.footprint.handle (.tcp s) := fun h => ⟨_, h, rfl⟩
  cases f with
  | closeDrain s => exact t.closeDrain rfl ⟨rfl, rfl⟩ rfl h
  | close s =>
    cases h
    exact t.pdTcpClose rfl rfl
  | readAlloc s => exact t.readAlloc rfl h
  | readTry s buf => exact t.readTry rfl h
  | clientIoRest s ev =>
    cases h
    exact t.clientIoRest rfl rfl
  | writeTry s op => exact t.writeTry rfl ⟨rfl, rfl⟩ (hh rfl) h
  | writeLoop s => exact t.writeLoop rfl ⟨rfl, rfl⟩ (hh rfl) h
  | dispatch hd ev =>
    cases hd with
    | tcp s =>
      simp only [exec, dispatch] at h
      split at h <;> cases h
      · exact t.pd_tcpClientIo rfl
      · exact t.pd_tcpConnectIo rfl (hh rfl)
    | server l =>
      simp only [exec, dispatch] at h
      split at h
      · exact t.pnd_tcpListenerIo rfl h
      · cases h
    | taskSignal =>
      cases h
      exact t.pd_notifierIo rfl
  | timersRun => exact t.pdTimersRun rfl rfl h
  | timersRearm x => exact t.pdTimersRearm rfl rfl h
  | pendingClose =>
    cases h
    unfold pd_tcpPendingClose
    split
    · exact t
    · simp only
      split
      · exact (t.setPendingCloses rfl).call trivial
      · exact t.setPendingCloses rfl
  | pendingCloseDec s =>
    cases h
    exact t.decRefs rfl rfl
  | taskDone l =>
    cases h
    unfold taskDone
    split
    · exact t
    · split
      · exact (t.dropTask ⟨_, _, rfl⟩).call trivial
      · exact t.dropTask ⟨_, _, rfl⟩
  | taskDoneDec k l =>
    cases h
    exact t.decRefs rfl rfl
  | ioRun timeout => exact t.ioRun rfl h
  | ioAfterTick =>
    cases h
    unfold ioAfterTick
    split
    · exact t.call trivial
    · exact t
  | ioNext =>
    cases h
    exact t

/-- **What a call of the application may change.** -/
theorem api_touches {c : Call} (h : api w c a = some r) : Touches c.footprint w r.1 := by
  have t : Touches c.footprint w w := .refl
  cases c with
  | tcpAccept s fd =>
    cases h
    exact t.pdTcpAccept rfl rfl rfl
  | tcpConnect s b =>
    cases h
    exact t.pdTcpConnect rfl rfl rfl
  | tcpWrite s op x =>
    simp only [api] at h
    split at h
    · exact t.pdTcpWrite rfl ⟨rfl, rfl⟩ rfl h
    · cases h
  | tcpClose s =>
    cases h
    exact t.pdTcpClose rfl rfl
  | tcpShutdown s =>
    cases h
    exact t.pdTcpShutdown rfl rfl
  | tcpPause s | tcpResume s =>
    cases h
    exact (t.setPollin rfl).pd_eventSet rfl rfl
  | tcpListen l b =>
    cases h
    exact t.pdTcpListen rfl ⟨b, rfl⟩
  | tcpServerClose l =>
    cases h
    exact t.pdTcpServerClose rfl
  | timerStart x b d =>
    obtain ⟨w1, hw, rfl⟩ := Option.map_eq_some_iff.mp h
    exact (t.logObs (o := .timerStart x) rfl).pdTimerStart rfl rfl hw
  | timerRepeat x b d =>
    obtain ⟨w1, hw, rfl⟩ := Option.map_eq_some_iff.mp h
    exact ((t.logObs (o := .timerStart x) rfl).setTimer rfl (.inr rfl)).pdTimerStart rfl rfl hw
  | timerStop x =>
    obtain ⟨w1, hw, rfl⟩ := Option.map_eq_some_iff.mp h
    exact (t.pdTimerStop rfl rfl hw).logObs rfl
  | timersRun | ioRun =>
    cases h
    exact t
  | timersNext =>
    cases h
    exact t.setResult
  | taskSubmit k b =>
    simp only [api] at h
    split at h <;> cases h
    unfold pdTaskSubmit
    split
    · exact t.setResult
    · exact ((t.incRefs (o := .task k) rfl rfl).addTask rfl ⟨k, b, rfl⟩).setResult
  | setOnData s b | setOnClose s b =>
    cases h
    exact t.setTcp rfl (.inl rfl) (.inl Iff.rfl)
  | setAfterTick b =>
    cases h
    exact t.setAfterTick
  | setErrno e =>
    cases h
    exact t.setErrno.goOn

/-- What happens around the loop's thread changes no stream and no timer, and logs nothing. -/
structure EnvKeeps (w w' : World) : Prop where
  tcp : w'.tcp = w.tcp
  op : w'.op = w.op
  server : w'.server = w.server
  timers : w'.timers = w.timers
  timer : w'.timer = w.timer
  now : w'.now = w.now
  refs : w'.refs = w.refs
  pendingCloses : w'.pendingCloses = w.pendingCloses
  log : w'.log = w.log
  interest : w.kernel.Registers (fun _ => False) w'.kernel

theorem env_keeps {e : Env} {w' : World} (h : env w e = some w') : EnvKeeps w w' := by
  cases e <;> simp only [env] at h <;> (try split at h) <;> cases h
  case openFd => exact ⟨rfl, rfl, rfl, rfl, rfl, rfl, rfl, rfl, rfl, Kernel.Registers.refl.newSocket⟩
  case closeFd => exact ⟨rfl, rfl, rfl, rfl, rfl, rfl, rfl, rfl, rfl, Kernel.Registers.refl.close⟩
  all_goals exact ⟨rfl, rfl, rfl, rfl, rfl, rfl, rfl, rfl, rfl, .refl⟩

end

end Pandio
