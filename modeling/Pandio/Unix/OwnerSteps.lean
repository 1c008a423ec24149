import Pandio.Unix.Footprint

/- What a step does to what holds a reference to the context: the active timers, the
   listeners, the streams that are not closed, the queue of closes and the tasks; and
   to the stack where it counts: a stream that is being closed and not yet in the
   queue of closes, or no longer in it, and finished tasks that are being delivered,
   are only there. -/
namespace Pandio
open World

/-! ## What holds references -/

/-- The counter, with the state of everything that can be counted in it. -/
structure Owners where
  refs : Nat
  active : Tid → Bool
  closed : Sid → Bool
  server : Lid → TcpServer
  pendingCloses : List Sid
  poolTasks : List Task
  finishedTasks : List Task
  log : List Obs

def World.owners (w : World) : Owners :=
  { refs := w.refs, active := fun t => (w.timer t).active
    closed := fun s => (w.tcp s).status = .closed, server := w.server
    pendingCloses := w.pendingCloses.nodes, poolTasks := w.poolTasks
    finishedTasks := w.finishedTasks, log := w.log.filter isOwnerObs }

theorem SameOwners.owners {w w' : World} (h : SameOwners w w')
    (hl : w'.log.filter isOwnerObs = w.log.filter isOwnerObs) : w'.owners = w.owners := by
  obtain ⟨h1, h2, h3, h4, h5, h6, h7⟩ := h
  simp only [World.owners, h1, h2, h4, h5, h6, h7, hl, Owners.mk.injEq, true_and, and_true]
  exact funext fun s => decide_eq_decide.mpr (h3 s)

theorem count_owners_log {w : World} {o : Obs} (ho : isOwnerObs o = true) :
    w.owners.log.count o = w.log.count o := List.count_filter ho

/-- Any stream's, and the timers. -/
def Footprint.quiet (H : Handle → Prop) : Footprint :=
  { stream := fun _ => True, writes := fun _ => True, timers := True, owners := False
    tasks := True, handle := H }

/-- Nothing that holds a reference has changed, and at most the handles `H` are registered. -/
abbrev Quiet (H : Handle → Prop) : World → World → Prop := Touches (.quiet H)

theorem Quiet.owners_eq {H : Handle → Prop} {w w' : World} (q : Quiet H w w') :
    w'.owners = w.owners := by
  refine (q.owners id).owners (q.filter_log fun o ho => ?_)
  by_contra h
  exact ho.owners (by simpa using h)

/-! ## What the stack holds -/

/-- The streams whose close the item has begun, or is about to finish. -/
def Item.closing : Item → List Sid
  | .lib (.closeDrain s) | .lib (.pendingCloseDec s) => [s]
  | _ => []

/-- The finished tasks the item has still to deliver or to release. -/
def Item.tasks : Item → List Task
  | .lib (.taskDone l) => l
  | .lib (.taskDoneDec k l) => k :: l
  | _ => []

/-- The streams that are being closed on the stack. -/
def closing (l : List Item) : List Sid := l.flatMap Item.closing

/-- The tasks that are being delivered on the stack. -/
def delivering (l : List Item) : List Task := l.flatMap Item.tasks

section
variable (i : Item) (l m : List Item)

@[simp] theorem closing_nil : closing [] = [] := rfl

@[simp] theorem closing_cons : closing (i :: l) = i.closing ++ closing l := rfl

@[simp] theorem closing_append : closing (l ++ m) = closing l ++ closing m :=
  List.flatMap_append

@[simp] theorem delivering_nil : delivering [] = [] := rfl

@[simp] theorem delivering_cons : delivering (i :: l) = i.tasks ++ delivering l := rfl

@[simp] theorem delivering_append : delivering (l ++ m) = delivering l ++ delivering m :=
  List.flatMap_append

theorem closing_dispatches (events : List (Handle × Events)) :
    closing (events.map fun e => .lib (.dispatch e.1 e.2)) = [] := by
  rw [closing, List.flatMap_map]
  exact List.flatMap_eq_nil_iff.mpr fun _ _ => rfl

theorem delivering_dispatches (events : List (Handle × Events)) :
    delivering (events.map fun e => .lib (.dispatch e.1 e.2)) = [] := by
  rw [delivering, List.flatMap_map]
  exact List.flatMap_eq_nil_iff.mpr fun _ _ => rfl

end

/-! ## Moves -/

namespace Owners

variable (v : Owners)

def logs (l : List Obs) : Owners := { v with log := v.log ++ l }

/-- `ctx->refs++`. -/
def inc (o : Owner) : Owners := { v.logs [.refInc o] with refs := (v.refs + 1) % 2 ^ 64 }

/-- `ctx->refs--`. -/
def dec (o : Owner) : Owners :=
  { v.logs [.refDec o] with refs := if v.refs = 0 then 2 ^ 64 - 1 else v.refs - 1 }

def setActive (t : Tid) (b : Bool) : Owners := { v with active := Function.update v.active t b }

def setClosed (s : Sid) (b : Bool) : Owners := { v with closed := Function.update v.closed s b }

def setServer (l : Lid) (r : TcpServer) : Owners :=
  { v with server := Function.update v.server l r }

end Owners

/-- What a frame does to what holds references, and leaves on the stack. -/
inductive OwnerExec (v : Owners) : Frame → Owners → List Item → Prop where
  | same {f : Frame} {l : List Item} : closing l = closing [.lib f] →
      delivering l = delivering [.lib f] → OwnerExec v f v l
  | close {f : Frame} {s : Sid} : f.stream = some s → closing [.lib f] = [] →
      delivering [.lib f] = [] → v.closed s = false →
      OwnerExec v f (v.setClosed s true) [.lib (.closeDrain s)]
  /-- A stream that is in the queue already cuts it off where it stands. -/
  | closeQueued {s : Sid} : OwnerExec v (.closeDrain s)
      { v.logs [.closeQueued s] with
        pendingCloses := v.pendingCloses.takeWhile (· ≠ s) ++ [s] } []
  | accept {l : Lid} {ev : Events} {fd : Fd} {m : List Obs} {new : List Item} :
      (v.server l).status = .active → m = [] ∨ (∃ peer now, m = [.cb (.onConnection l peer) now]) →
      closing new = [] → delivering new = [] →
      OwnerExec v (.dispatch (.server l) ev) (v.logs (.accept l fd :: m)) new
  | stop {t : Tid} {new : List Item} : v.active t = true → closing new = [] →
      delivering new = [] → OwnerExec v .timersRun ((v.setActive t false).dec (.timer t)) new
  | rearm {t : Tid} : v.active t = false →
      OwnerExec v (.timersRearm t) ((v.setActive t true).inc (.timer t)) [.lib .timersRun]
  | pending {s : Sid} {rest : List Sid} {new : List Item} : v.pendingCloses = s :: rest →
      closing new = [s] → delivering new = [] →
      OwnerExec v .pendingClose { v with pendingCloses := rest } new
  | pendingDec {s : Sid} : OwnerExec v (.pendingCloseDec s) (v.dec (.tcp s)) [.lib .pendingClose]
  | signal {ev : Events} : OwnerExec v (.dispatch .taskSignal ev) { v with finishedTasks := [] }
      [.lib (.taskDone v.finishedTasks)]
  | taskDec {k : Task} {l : List Task} :
      OwnerExec v (.taskDoneDec k l) (v.dec (.task k)) [.lib (.taskDone l)]

/-- What a call of the application does to what holds references, and leaves on the stack. -/
inductive OwnerApi (v : Owners) (a : Answer) : Call → Owners → List Item → Prop where
  | same {c : Call} {new : List Item} :
      closing new = [] → delivering new = [] → OwnerApi v a c v new
  | accept {s : Sid} {fd : Fd} : OwnerApi v a (.tcpAccept s fd)
      (((v.setClosed s false).logs [.opened s fd]).inc (.tcp s)) []
  | connect {s : Sid} {fd : Fd} {b : Bool} :
      OwnerApi v a (.tcpConnect s b) ((v.logs [.opened s fd]).inc (.tcp s)) []
  | close {s : Sid} : v.closed s = false →
      OwnerApi v a (.tcpClose s) (v.setClosed s true) [.lib (.closeDrain s)]
  /-- Without a registration when `EPOLL_CTL_ADD` fails. -/
  | listen {l : Lid} {b : Bool} {r : TcpServer} {m : List Obs} :
      m = [.listening l r.fd] ∨ m = [] ∧ (a.sys 7).isOk = false →
      OwnerApi v a (.tcpListen l b)
        (((v.setServer l r).logs (.ctl (.server l) r.fd .add :: m)).inc (.server l)) []
  | serverClose {l : Lid} : OwnerApi v a (.tcpServerClose l)
      ((v.logs [.serverClosed l (v.server l).fd]).dec (.server l)) []
  | start {c : Call} {t : Tid} :
      (∃ b d, c = .timerStart t b d ∨ c = .timerRepeat t b d) → v.active t = false →
      OwnerApi v a c ((v.setActive t true).inc (.timer t)) []
  | stop {t : Tid} : v.active t = true →
      OwnerApi v a (.timerStop t) ((v.setActive t false).dec (.timer t)) []
  | submit {k : Task} {b : Bool} : OwnerApi v a (.taskSubmit k b)
      { v.inc (.task k) with poolTasks := v.poolTasks ++ [k] } []

/-! ## Updates of the state -/

section
variable (w : World)

theorem logObs_owners {o : Obs} (ho : isOwnerObs o = false) :
    (w.logObs o).owners = w.owners := by
  have hl : (w.log ++ [o]).filter isOwnerObs = w.log.filter isOwnerObs := by simp [ho]
  exact congrArg (fun l => ({ w.owners with log := l } : Owners)) hl

theorem logObs_owners_logs {o : Obs} (ho : isOwnerObs o = true) :
    (w.logObs o).owners = w.owners.logs [o] := by
  have hl : (w.log ++ [o]).filter isOwnerObs = w.log.filter isOwnerObs ++ [o] := by simp [ho]
  exact congrArg (fun l => ({ w.owners with log := l } : Owners)) hl

@[simp] theorem incRefs_owners (o : Owner) : (w.incRefs o).owners = w.owners.inc o := by
  rw [World.incRefs, logObs_owners_logs _ rfl]
  rfl

@[simp] theorem decRefs_owners (o : Owner) : (w.decRefs o).owners = w.owners.dec o := by
  rw [World.decRefs, logObs_owners_logs _ rfl]
  rfl

@[simp] theorem setTimers_owners (h : Heap Tid) : (w.setTimers h).owners = w.owners := rfl

@[simp] theorem setResult_owners (n : Int) : (w.setResult n).owners = w.owners := rfl

@[simp] theorem setPendingCloses_owners (q : LinkedQueue Sid) :
    (w.setPendingCloses q).owners = { w.owners with pendingCloses := q.nodes } := rfl

theorem setTimer_owners (t : Tid) (r : Timer) :
    (w.setTimer t r).owners = w.owners.setActive t r.active := by
  have ha : (fun t' => ((w.setTimer t r).timer t').active) =
      Function.update (fun t' => (w.timer t').active) t r.active := by
    funext t'
    by_cases ht : t' = t
    · simp [ht, World.setTimer]
    · simp [ht, World.setTimer]
  exact congrArg (fun f => ({ w.owners with active := f } : Owners)) ha

theorem setTcp_owners (s : Sid) (r : Tcp) :
    (w.setTcp s r).owners = w.owners.setClosed s (r.status = .closed) := by
  have hc : (fun s' => decide (((w.setTcp s r).tcp s').status = .closed)) =
      Function.update (fun s' => decide ((w.tcp s').status = .closed)) s
        (decide (r.status = .closed)) := by
    funext s'
    by_cases hs : s' = s
    · subst hs
      simp [World.setTcp]
    · simp [hs, World.setTcp]
  exact congrArg (fun f => ({ w.owners with closed := f } : Owners)) hc

end

/-! ## Steps of the library -/

section
variable {w : World} {s : Sid} {a : Answer} {r : World × List Item}

theorem pdTcpClose_owner : (w.tcp s).status = .closed ∧ pdTcpClose w s a = (w, []) ∨
    (w.tcp s).status ≠ .closed ∧ (pdTcpClose w s a).1.owners = w.owners.setClosed s true ∧
      (pdTcpClose w s a).2 = [.lib (.closeDrain s)] := by
  by_cases hst : (w.tcp s).status = .closed
  · exact .inl ⟨hst, by simp [pdTcpClose, hst, goOn]⟩
  · refine .inr ⟨hst, ?_, ?_⟩
    · simp only [pdTcpClose, hst, ↓reduceIte, goOn]
      have hrefl : Quiet (fun _ => False) (w.setTcp s { w.tcp s with status := .closed }) _ := .refl
      refine (Quiet.owners_eq ((hrefl.pd_eventDel trivial).closeQuietly.logObs (o := .closed s _)
        trivial)).trans ?_
      rw [setTcp_owners]
      simp
    · simp [pdTcpClose, hst, goOn]

theorem pdTcpClose_registers (H : Handle → Prop) :
    w.kernel.Registers H (pdTcpClose w s a).1.kernel :=
  (Touches.refl (F := ⟨fun _ => True, fun _ => True, True, True, True, H⟩)).pdTcpClose trivial
    trivial |>.interest

theorem close_owner {f : Frame} (hf : f.stream = some s) (hc : closing [.lib f] = [])
    (hd : delivering [.lib f] = []) :
    OwnerExec w.owners f (pdTcpClose w s a).1.owners (pdTcpClose w s a).2 := by
  rcases pdTcpClose_owner (w := w) (s := s) (a := a) with ⟨_, h⟩ | ⟨hst, ho, hi⟩
  · rw [h]
    exact .same hc.symm hd.symm
  · rw [ho, hi]
    exact .close hf hc hd (by simpa [World.owners] using hst)

theorem closeDrain_owner (h : closeDrain w s = some r) :
    OwnerExec w.owners (.closeDrain s) r.1.owners r.2 := by
  unfold closeDrain at h
  split at h
  · rename_i op rest _
    have hq : Quiet (fun _ => False) w r.1 :=
      (Touches.refl.setWrites trivial trivial).callWrite trivial trivial h
    rw [hq.owners_eq, callWrite_items h]
    exact .same (by simp [Item.closing]) (by simp [Item.tasks])
  · cases h
    show OwnerExec w.owners (.closeDrain s) (World.owners (World.logObs _ _)) []
    rw [logObs_owners_logs _ rfl, setPendingCloses_owners]
    exact .closeQueued

theorem pnd_tcpListenerIo_owner {l : Lid} {ev : Events}
    (h : pnd_tcpListenerIo w l ev a = some r) :
    OwnerExec w.owners (.dispatch (.server l) ev) r.1.owners r.2 := by
  simp only [pnd_tcpListenerIo] at h
  split at h
  · cases h
  · split at h
    · cases h
      exact .same rfl rfl
    · rename_i hst
      have hact : (w.owners.server l).status = .active := by simpa [World.owners] using hst
      have q0 : Quiet (fun _ => False) (w.logObs (.accept l (w.server l).fd)) _ := .refl
      have q1 : Quiet (fun _ => False) (w.logObs (.accept l (w.server l).fd))
          ((w.logObs (.accept l (w.server l).fd)).setKernel (w.kernel.newSocket (a.sys 0)).1) :=
        q0.newSocket
      have quiet : ∀ {w2 : World}, Quiet (fun _ => False) (w.logObs (.accept l (w.server l).fd)) w2 →
          OwnerExec w.owners (.dispatch (.server l) ev) w2.owners [] := by
        intro w2 q
        rw [q.owners_eq, logObs_owners_logs _ rfl]
        exact .accept hact (.inl rfl) rfl rfl
      split at h
      · cases h
        exact quiet q0.setErrno.goOn
      · split at h
        · cases h
          exact quiet q1.setErrno.closeQuietly.goOn
        · split at h <;> cases h
          · show OwnerExec _ _ (World.owners (World.logObs _ _)) _
            rw [logObs_owners_logs _ rfl, q1.owners_eq, logObs_owners_logs _ rfl]
            simp only [Owners.logs, List.append_assoc, List.singleton_append]
            exact .accept hact (.inr ⟨_, _, rfl⟩) rfl rfl
          · exact quiet q1.closeQuietly.goOn

theorem pdTimerStart_owner {t : Tid} {cb : Bool} {d : Nat} {w' : World}
    (h : pdTimerStart w t cb d = some w') :
    (w.timer t).active = true ∧ w' = w ∨ (w.timer t).active = false ∧
      w'.owners = (w.owners.setActive t true).inc (.timer t) := by
  simp only [pdTimerStart] at h
  split at h
  · rename_i hact
    cases h
    exact .inl ⟨hact, rfl⟩
  · rename_i hact
    obtain ⟨hp, _, rfl⟩ := Option.map_eq_some_iff.mp h
    refine .inr ⟨by simpa using hact, ?_⟩
    rw [setTimers_owners, incRefs_owners, setTimer_owners]

theorem pdTimerStop_owner {t : Tid} {w' : World} (h : pdTimerStop w t = some w') :
    (w.timer t).active = false ∧ w' = w ∨ (w.timer t).active = true ∧
      w'.owners = (w.owners.setActive t false).dec (.timer t) := by
  simp only [pdTimerStop] at h
  split at h
  · rename_i hact
    cases h
    exact .inl ⟨by simpa using hact, rfl⟩
  · rename_i hact
    obtain ⟨hp, _, rfl⟩ := Option.map_eq_some_iff.mp h
    refine .inr ⟨by simpa using hact, ?_⟩
    rw [decRefs_owners, setTimers_owners, setTimer_owners]

theorem pdTimersRun_owner (h : pdTimersRun w = some r) :
    OwnerExec w.owners .timersRun r.1.owners r.2 := by
  have hp := pdTimersRun_pushes h
  have hc : closing r.2 = [] ∧ delivering r.2 = [] := by
    generalize r.2 = l at hp
    cases hp <;> exact ⟨rfl, rfl⟩
  unfold pdTimersRun at h
  split at h
  · cases h
    exact .same rfl rfl
  · rename_i t _
    split at h
    · cases h
      exact .same rfl rfl
    · obtain ⟨w1, hw, h⟩ := Option.bind_eq_some_iff.mp h
      have hr : r.1.owners = w1.owners := by
        split at h <;> cases h
        · exact logObs_owners _ rfl
        · rfl
      rw [hr]
      rcases pdTimerStop_owner hw with ⟨_, rfl⟩ | ⟨hact, ho⟩
      · exact .same hc.1 hc.2
      · rw [ho]
        exact .stop hact hc.1 hc.2

theorem pdTimersRearm_owner {t : Tid} (h : pdTimersRearm w t = some r) :
    OwnerExec w.owners (.timersRearm t) r.1.owners r.2 := by
  unfold pdTimersRearm at h
  split at h
  · obtain ⟨w1, hw, rfl⟩ := Option.map_eq_some_iff.mp h
    rcases pdTimerStart_owner hw with ⟨_, rfl⟩ | ⟨hact, ho⟩
    · exact .same rfl rfl
    · show OwnerExec _ _ w1.owners _
      rw [ho]
      exact .rearm hact
  · cases h
    exact .same rfl rfl

theorem pd_notifierIo_owner {ev : Events} :
    OwnerExec w.owners (.dispatch .taskSignal ev) (pd_notifierIo w ev a).1.owners
      (pd_notifierIo w ev a).2 := by
  simp only [pd_notifierIo]
  split
  · exact .same rfl rfl
  · split
    · split <;> exact .same rfl rfl
    · split
      · exact .signal
      · exact .same rfl rfl

theorem Frame.Pushes.quiet {f : Frame} {l : List Item} (h : f.Pushes l)
    (hf : f.owning = false) : closing l = closing [.lib f] ∧ delivering l = delivering [.lib f] := by
  cases h with
  | poll timeout events =>
    rw [closing_append, delivering_append, closing_dispatches, delivering_dispatches]
    exact ⟨rfl, rfl⟩
  | taskDec k l => cases hf
  | _ => first | exact ⟨rfl, rfl⟩ | cases hf

theorem exec_quiet {f : Frame} (hf : f.owning = false) (h : exec w f a = some r) :
    Quiet f.handles w r.1 :=
  (exec_touches h).mono (fun _ _ => trivial) (fun _ _ => trivial) (fun _ => trivial)
    (fun ho => absurd (hf.symm.trans ho) Bool.false_ne_true)
    (fun _ => trivial) fun _ h => h

/-- **What a step of the library does** to what holds references, and which handle it may
register. -/
theorem exec_owner {f : Frame} (h : exec w f a = some r) :
    OwnerExec w.owners f r.1.owners r.2 ∧ w.kernel.Registers f.handles r.1.kernel := by
  have registers := (exec_touches h).interest
  by_cases hf : f.owning = false
  · obtain ⟨hc, hd⟩ := (exec_pushes h).quiet hf
    rw [(exec_quiet hf h).owners_eq]
    exact ⟨.same hc hd, registers⟩
  · refine ⟨?_, registers⟩
    cases f with
    | closeDrain s => exact closeDrain_owner h
    | close s =>
      cases h
      exact close_owner rfl rfl rfl
    | clientIoRest s ev =>
      cases h
      simp only [clientIoRest]
      split
      · exact close_owner rfl rfl rfl
      · split
        · unfold pd_tcpWrite
          split <;> exact .same rfl rfl
        · exact .same rfl rfl
    | dispatch hd ev =>
      cases hd with
      | tcp s => exact absurd rfl hf
      | server l =>
        simp only [exec, dispatch] at h
        split at h
        · exact pnd_tcpListenerIo_owner h
        · cases h
      | taskSignal =>
        cases h
        exact pd_notifierIo_owner
    | timersRun => exact pdTimersRun_owner h
    | timersRearm t => exact pdTimersRearm_owner h
    | pendingClose =>
      cases h
      simp only [pd_tcpPendingClose]
      split
      · exact .same rfl rfl
      · rename_i s rest hp
        have hnodes : w.owners.pendingCloses = s :: rest.nodes := LinkedQueue.pop_nodes hp
        split
        · show OwnerExec _ _ (World.owners (World.logObs _ _)) _
          rw [logObs_owners _ rfl]
          exact .pending hnodes rfl rfl
        · exact .pending hnodes rfl rfl
    | pendingCloseDec s =>
      cases h
      show OwnerExec _ _ (World.owners (World.decRefs _ _)) _
      rw [decRefs_owners]
      exact .pendingDec
    | taskDoneDec k l =>
      cases h
      show OwnerExec _ _ (World.owners (World.decRefs _ _)) _
      rw [decRefs_owners]
      exact .taskDec
    | _ => exact absurd rfl hf

/-! ## Calls of the application -/

/-- A handle that the call may register. A stream's is registered by a call that opens it, or
finds it active, or does not look. -/
def Call.Handles (w w' : World) (c : Call) : Handle → Prop
  | .tcp s => c.stream = some s ∧ ((w.tcp s).status = .active ∨ c = .tcpPause s ∨ c = .tcpResume s ∨
      ∃ fd, .opened s fd ∈ w'.log)
  | .server l => ∃ b, c = .tcpListen l b
  | .taskSignal => False

/-- A call that changes nothing. -/
theorem Quiet.ownerApi {c : Call} {w' : World} {new : List Item}
    (q : Quiet (fun _ => False) w w') (hc : closing new = []) (hd : delivering new = []) :
    OwnerApi w.owners a c w'.owners new ∧ w.kernel.Registers (Call.Handles w w' c) w'.kernel := by
  rw [q.owners_eq]
  exact ⟨.same hc hd, fun fd h f hi => (q.interest fd h f hi).imp False.elim id⟩

theorem opened_mem {fd : Fd} {x : SysRes} :
    .opened s fd ∈ ((pd_eventAdd (w.logObs (.opened s fd)) s x).incRefs (.tcp s)).log := by
  show .opened s fd ∈ ((w.log ++ [.opened s fd]) ++ [_]) ++ [_]
  simp

theorem pdTcpConnect_owner {b : Bool} :
    OwnerApi w.owners a (.tcpConnect s b) (pdTcpConnect w s b a).owners [] ∧
      w.kernel.Registers (Call.Handles w (pdTcpConnect w s b a) (.tcpConnect s b))
        (pdTcpConnect w s b a).kernel := by
  have opened : ∀ {w' : World} {fd : Fd} {r : SysRes}, (∀ H, Quiet H w w') →
      OwnerApi w.owners a (.tcpConnect s b)
          (((pd_eventAdd (w'.logObs (.opened s fd)) s r).incRefs (.tcp s)).setResult 0).owners [] ∧
        w.kernel.Registers
          (Call.Handles w (((pd_eventAdd (w'.logObs (.opened s fd)) s r).incRefs (.tcp s)).setResult
            0) (.tcpConnect s b))
          (pd_eventAdd (w'.logObs (.opened s fd)) s r).kernel := by
    intro w' fd r q
    constructor
    · have qadd : Quiet (fun _ => True) (w'.logObs (.opened s fd)) _ :=
        Touches.refl.pd_eventAdd (s := s) (x := r) trivial trivial
      rw [setResult_owners, incRefs_owners, qadd.owners_eq, logObs_owners_logs _ rfl,
        (q fun _ => True).owners_eq]
      exact .connect
    · rintro fd' h f hi
      refine ((q (· = .tcp s)).interest.ctl rfl fd' h f hi).imp ?_ id
      rintro rfl
      have hopened : .opened s fd ∈
          (((pd_eventAdd (w'.logObs (.opened s fd)) s r).incRefs (.tcp s)).setResult 0).log :=
        opened_mem (w := w') (x := r)
      exact ⟨rfl, .inr (.inr (.inr ⟨fd, hopened⟩))⟩
  have q0 : ∀ {H}, Quiet H w w := .refl
  simp only [pdTcpConnect]
  split
  · exact Quiet.ownerApi q0.setErrno.failErrno rfl rfl
  · rename_i fd _
    have q1 : ∀ {H}, Quiet H w (w.setKernel (w.kernel.newSocket (a.sys 0)).1) := q0.newSocket
    split
    · exact Quiet.ownerApi q1.setErrno.closeQuietly.failErrno rfl rfl
    · split
      · exact Quiet.ownerApi q1.setErrno.closeQuietly.failErrno rfl rfl
      · exact Quiet.ownerApi q1.closeQuietly.failErrno rfl rfl
      · have q2 : ∀ {H}, Quiet H w ((w.setKernel (w.kernel.newSocket (a.sys 0)).1).setTcp s
            { (w.setKernel (w.kernel.newSocket (a.sys 0)).1).tcp s with
              fd := fd, onConnect := b, handler := some .connectIo, flags := ⟨true, true⟩ }) :=
          q1.setTcp trivial (.inl rfl) (.inl Iff.rfl)
        split
        · exact opened fun _ => q2
        · split
          · refine Quiet.ownerApi ?_ rfl rfl
            exact (q2.setErrno.logObs (o := .abandoned s fd) trivial).closeQuietly.failErrno
          · exact opened fun _ => q2.setErrno

theorem pdTcpAccept_owner {fd : Fd} :
    OwnerApi w.owners a (.tcpAccept s fd) (pdTcpAccept w s fd a).owners [] ∧
      w.kernel.Registers (Call.Handles w (pdTcpAccept w s fd a) (.tcpAccept s fd))
        (pdTcpAccept w s fd a).kernel := by
  constructor
  · have qadd : ∀ {w' : World}, Quiet (fun _ => True) w' (pd_eventAdd w' s (a.sys 0)) :=
      Touches.refl.pd_eventAdd trivial trivial
    simp only [pdTcpAccept]
    rw [incRefs_owners, qadd.owners_eq, logObs_owners_logs _ rfl, setTcp_owners]
    exact .accept
  · have h0 : ∀ H, w.kernel.Registers H w.kernel := fun _ => .refl
    exact (h0 _).ctl ⟨rfl, .inr (.inr (.inr ⟨fd, opened_mem⟩))⟩

theorem pdTcpListen_owner {l : Lid} {b : Bool} :
    OwnerApi w.owners a (.tcpListen l b) (pdTcpListen w l b a).owners [] := by
  have q0 : Quiet (fun _ => False) w w := .refl
  have q1 : Quiet (fun _ => False) w (w.setKernel (w.kernel.newSocket (a.sys 0)).1) := q0.newSocket
  simp only [pdTcpListen]
  split
  · exact (Quiet.ownerApi q0.setErrno.failErrno rfl rfl).1
  · exact (Quiet.ownerApi q1.failErrno rfl rfl).1
  · split
    · exact (Quiet.ownerApi q1.setErrno.closeQuietly.failErrno rfl rfl).1
    · exact (Quiet.ownerApi q1.setErrno.closeQuietly.failErrno rfl rfl).1
    · exact (Quiet.ownerApi q1.setErrno.closeQuietly.failErrno rfl rfl).1
    · exact (Quiet.ownerApi q1.setErrno.closeQuietly.failErrno rfl rfl).1
    · rw [setResult_owners, incRefs_owners]
      split
      · rw [logObs_owners_logs _ rfl, logObs_owners_logs _ rfl]
        simp only [Owners.logs, List.append_assoc, List.singleton_append]
        exact .listen (.inl rfl)
      · rename_i e hadd
        rw [logObs_owners_logs _ rfl]
        refine .listen (.inr ⟨rfl, ?_⟩)
        obtain ⟨-, hk⟩ := Kernel.newSocket_ok (by assumption)
        simp only [setKernel, setServer, hk] at hadd
        cases h7 : a.sys 7 with
        | ok n => simp [Kernel.ctl, h7] at hadd
        | err e => rfl

theorem pdTcpServerClose_owner {l : Lid} :
    OwnerApi w.owners a (.tcpServerClose l) (pdTcpServerClose w l a).owners [] := by
  have q1 : Quiet (fun _ => False) w
      ((w.setKernel (w.kernel.ctl .del (w.server l).fd (.server l) (w.server l).flags
        (a.sys 0)).1).logObs (.ctl (.server l) (w.server l).fd .del)) :=
    (Touches.refl.setKernel (Kernel.Registers.del .refl) (.inl (Kernel.ctl_clock ..))).logObs trivial
  simp only [pdTcpServerClose]
  split
  · exact (Quiet.ownerApi q1.setErrno.setResult rfl rfl).1
  · have q2 := q1.setKernel (k := (Kernel.close _ (w.server l).fd (a.sys 1)).1) q1.interest.close
      (.inl (Kernel.close_clock ..))
    split
    · exact (Quiet.ownerApi q2.setErrno.setResult rfl rfl).1
    · rw [setResult_owners, decRefs_owners, logObs_owners_logs _ rfl, Quiet.owners_eq q2]
      exact .serverClose

/-- A call that starts a timer, after entries and fields that the owners do not see. -/
theorem pdTimerStart_ownerApi {c : Call} {w0 w' : World} {t : Tid} {cb : Bool} {d : Nat}
    (h : pdTimerStart w0 t cb d = some w') (hv : w0.owners = w.owners)
    (hc : ∃ b d, c = .timerStart t b d ∨ c = .timerRepeat t b d) :
    OwnerApi w.owners a c w'.owners [] := by
  rw [← hv]
  rcases pdTimerStart_owner h with ⟨-, rfl⟩ | ⟨hact, ho⟩
  · exact .same rfl rfl
  · rw [ho]
    exact .start hc hact

/-- The calls whose handle is that of an active stream, or that do not look. -/
theorem api_quiet {c : Call} (hc : c.owning = false) (h : api w c a = some r) :
    Quiet c.handles w r.1 :=
  (api_touches h).mono (fun _ _ => trivial) (fun _ _ => trivial) (fun _ => trivial)
    (fun ho => absurd (hc.symm.trans ho) Bool.false_ne_true)
    (fun _ => trivial) fun _ h => h

theorem Call.Pushes.quiet {c : Call} {l : List Item} (h : c.Pushes l) (hc : c.owning = false) :
    closing l = [] ∧ delivering l = [] := by
  cases h with
  | close s => cases hc
  | _ => exact ⟨rfl, rfl⟩

/-- **What a call of the application does** to what holds references. -/
theorem api_owner {c : Call} (h : api w c a = some r) :
    OwnerApi w.owners a c r.1.owners r.2 := by
  by_cases hc : c.owning = false
  · obtain ⟨h1, h2⟩ := (api_pushes h).quiet hc
    rw [(api_quiet hc h).owners_eq]
    exact .same h1 h2
  cases c with
  | tcpAccept s fd =>
    cases h
    exact pdTcpAccept_owner.1
  | tcpConnect s b =>
    cases h
    exact pdTcpConnect_owner.1
  | tcpClose s =>
    cases h
    show OwnerApi _ _ _ (pdTcpClose w s a).1.owners (pdTcpClose w s a).2
    rcases pdTcpClose_owner (w := w) (s := s) (a := a) with ⟨_, h⟩ | ⟨hst, ho, hi⟩
    · rw [h]
      exact .same rfl rfl
    · rw [ho, hi]
      exact .close (by simpa [World.owners] using hst)
  | tcpListen l b =>
    cases h
    exact pdTcpListen_owner
  | tcpServerClose l =>
    cases h
    exact pdTcpServerClose_owner
  | timerStart t b d =>
    obtain ⟨w1, hw, rfl⟩ := Option.map_eq_some_iff.mp h
    exact pdTimerStart_ownerApi hw (logObs_owners _ rfl) ⟨b, d, .inl rfl⟩
  | timerRepeat t b d =>
    obtain ⟨w1, hw, rfl⟩ := Option.map_eq_some_iff.mp h
    have hsame : ((w.logObs (.timerStart t)).setTimer t
        { (w.logObs (.timerStart t)).timer t with interval := d % 2 ^ 64 }).owners = w.owners := by
      rw [setTimer_owners, logObs_owners _ rfl]
      exact congrArg (fun f => ({ w.owners with active := f } : Owners))
        (Function.update_eq_self t w.owners.active)
    exact pdTimerStart_ownerApi hw hsame ⟨b, d, .inr rfl⟩
  | timerStop t =>
    obtain ⟨w1, hw, rfl⟩ := Option.map_eq_some_iff.mp h
    show OwnerApi _ _ _ (World.owners (World.logObs _ _)) _
    rw [logObs_owners _ rfl]
    rcases pdTimerStop_owner hw with ⟨_, rfl⟩ | ⟨hact, ho⟩
    · exact .same rfl rfl
    · rw [ho]
      exact .stop hact
  | taskSubmit k b =>
    simp only [api] at h
    split at h <;> cases h
    show OwnerApi _ _ _ (pdTaskSubmit w k b a).owners []
    unfold pdTaskSubmit
    split
    · exact .same rfl rfl
    · have ho : ((w.incRefs (.task k)).addTask k b).owners =
          { (w.incRefs (.task k)).owners with poolTasks := w.poolTasks ++ [k] } := rfl
      rw [setResult_owners, ho, incRefs_owners]
      exact .submit
  | _ => exact absurd rfl hc

/-- **Which handle a call may register.** -/
theorem api_registers {c : Call} (h : api w c a = some r) :
    w.kernel.Registers (c.Handles w r.1) r.1.kernel := by
  -- the handle of the call's stream, when the call has found it active or has not looked
  have own : (∀ s, c.stream = some s → (w.tcp s).status = .active ∨ c = .tcpPause s ∨
      c = .tcpResume s) → w.kernel.Registers (c.Handles w r.1) r.1.kernel := by
    intro hs fd hd f hi
    refine ((api_touches h).interest fd hd f hi).imp ?_ id
    intro hh
    cases hd with
    | tcp s =>
      rcases hs s hh with h | h | h
      · exact ⟨hh, .inl h⟩
      · exact ⟨hh, .inr (.inl h)⟩
      · exact ⟨hh, .inr (.inr (.inl h))⟩
    | server l => exact hh
    | taskSignal => exact hh
  have none : r.1.kernel = w.kernel → w.kernel.Registers (c.Handles w r.1) r.1.kernel :=
    Kernel.Registers.of_eq
  cases c with
  | tcpAccept s fd =>
    cases h
    exact pdTcpAccept_owner.2
  | tcpConnect s b =>
    cases h
    exact pdTcpConnect_owner.2
  | tcpWrite s op wr =>
    by_cases hst : (w.tcp s).status = .active
    · exact own fun s' hs => .inl (Option.some.inj hs ▸ hst)
    · refine none ?_
      simp only [api, pdTcpWrite, setOp, ne_eq, hst, not_false_eq_true, ↓reduceIte] at h
      split at h
      · split at h <;> cases h
        rfl
      · cases h
  | tcpClose s =>
    cases h
    exact pdTcpClose_registers _
  | tcpShutdown s =>
    by_cases hst : (w.tcp s).status = .active
    · exact own fun s' hs => .inl (Option.some.inj hs ▸ hst)
    · refine none ?_
      cases h
      simp only [pdTcpShutdown, ne_eq, hst, not_false_eq_true, ↓reduceIte, goOn]
  | tcpPause s => exact own fun s' hs => .inr (.inl (Option.some.inj hs ▸ rfl))
  | tcpResume s => exact own fun s' hs => .inr (.inr (Option.some.inj hs ▸ rfl))
  | setOnData s b | setOnClose s b =>
    cases h
    exact none rfl
  | _ => exact own fun s' hs => by cases hs

/-! ## Steps of the machine -/

/-- An event that is waiting to be dispatched is of a handle that is registered, or was waiting. -/
theorem exec_dispatches {f : Frame} {h : Handle} {ev : Events} (hr : exec w f a = some r)
    (hi : .lib (.dispatch h ev) ∈ r.2) :
    (∃ fd g, w.kernel.interest fd = some (h, g)) ∨ f = .dispatch h ev := by
  by_cases hf : ∃ timeout, f = .ioRun timeout
  · obtain ⟨timeout, rfl⟩ := hf
    simp only [exec, ioRun] at hr
    split at hr
    · cases hr
      simp [goOn] at hi
    · split at hr
      · split at hr <;> cases hr
        simp [goOn] at hi
      · cases hr
        simp only [goOn, List.map_append, List.map_map, List.map_cons, List.map_nil,
          List.mem_append, List.mem_map, List.mem_cons, List.not_mem_nil, Function.comp_apply,
          Item.lib.injEq, Frame.dispatch.injEq, reduceCtorEq, or_self, or_false] at hi
        obtain ⟨e, he, rfl, rfl⟩ := hi
        obtain ⟨p, _, hp⟩ := List.mem_filterMap.mp (List.mem_of_mem_take he)
        obtain ⟨g, hg, rfl⟩ := Option.map_eq_some_iff.mp hp
        exact .inl ⟨p.1, g.2, hg⟩
  · have hp := exec_pushes hr
    generalize r.2 = l at hp hi
    cases hp <;> simp_all

/-- What happens around the thread: at most a task is finished. -/
theorem env_owner {e : Env} {w' : World} (h : env w e = some w') :
    w'.owners = w.owners ∨ ∃ k ∈ w.poolTasks, w'.owners =
      { w.owners with
        poolTasks := w.poolTasks.erase k, finishedTasks := w.finishedTasks ++ [k] } := by
  cases e with
  | workDone k =>
    simp only [env] at h
    split at h <;> cases h
    rename_i hmem
    exact .inr ⟨k, hmem, rfl⟩
  | _ =>
    simp only [env] at h
    try split at h
    all_goals
      cases h
      try exact .inl rfl

end

end Pandio
