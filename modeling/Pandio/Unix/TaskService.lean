import Pandio.Unix.OwnerSteps
import Pandio.Pool.Service

/- The pool as the loop has it. A run of the loop's machine knows the pool as two lists of
   tasks, from the first of which a task may go to the end of the second at any time. This file

   1. proves that a task that the loop has is not submitted again (`Tracked`), and that what a
      run shows, the accepted calls of `pd_task_submit` and the queues that `pd__task_done`
      takes, is a trace of the service (`step_service`);
   2. proves that each trace of the service is shown by some run (`Serving.plays`);
   3. concludes that whatever the real pool shows a context, for any number of workers and other
      contexts, is in the machine's runs (`pool_in_loop`).

   Correspondence (C ↔ Lean):
     `pd_task_submit`, accepted ↔ `Event.submitted`
     `pd__task_done`, its queue ↔ `Event.fetched` -/
namespace Pandio
open World Service
open scoped List

/-- The state of the service that the pool is for the loop. -/
def World.service (w : World) : State Task := { pool := w.poolTasks, finished := w.finishedTasks }

/-- A `pd__notifier_io` of `task_signal` that takes some tasks. -/
def World.fetches (w : World) (ev : Events) (r : SysRes) : List (Event Task) :=
  match r with
  | .ok _ => if ev.pollin ∧ w.signaled ∧ w.finishedTasks ≠ [] then [.fetched w.finishedTasks] else []
  | .err _ => []

/-- A call of `pd_task_submit`. -/
def submission (k : Task) : SysRes → List (Event Task)
  | .ok _ => [.submitted k]
  | .err _ => []

/-- What a step shows. -/
def serviceEvents (c : Cfg) (x : Act) : List (Event Task) :=
  match x, c.stack with
  | .api (.taskSubmit k _) a, _ => submission k (a.sys 0)
  | .lib a, .lib (.dispatch .taskSignal ev) :: _ => c.world.fetches ev (a.sys 0)
  | _, _ => []

/-- The runs of the loop, with what they show of its tasks. -/
abbrev Served : List (Event Task) → Cfg → Prop := Shows step AnyStep Cfg.Init serviceEvents

section
variable {w : World} {c c' : Cfg} {x : Act} {v v' : Owners} {new : List Item}

/-! ## Runs show traces -/

theorem service_eq_of_owners {w w' : World} (hp : w'.owners.poolTasks = w.owners.poolTasks)
    (hf : w'.owners.finishedTasks = w.owners.finishedTasks) : w'.service = w.service := by
  show State.mk (w'.owners.poolTasks : Multiset Task) w'.owners.finishedTasks = _
  rw [hp, hf]
  rfl

theorem OwnerExec.tasks {f : Frame} (h : OwnerExec v f v' new)
    (hf : ∀ ev, f ≠ .dispatch .taskSignal ev) :
    v'.poolTasks = v.poolTasks ∧ v'.finishedTasks = v.finishedTasks := by
  cases h with
  | signal => exact absurd rfl (hf _)
  | _ => exact ⟨rfl, rfl⟩

theorem OwnerApi.tasks {k : Call} {a : Answer} (h : OwnerApi v a k v' new)
    (hk : ∀ t b, k ≠ .taskSubmit t b) :
    v'.poolTasks = v.poolTasks ∧ v'.finishedTasks = v.finishedTasks := by
  cases h with
  | submit => exact absurd rfl (hk _ _)
  | _ => exact ⟨rfl, rfl⟩

/-! ### The tasks that the loop has -/

/-- The tasks that a `pd__task_done` on the stack has taken and not called back. -/
def Item.undone : Item → List Task
  | .lib (.taskDone l) | .lib (.taskDoneDec _ l) => l
  | _ => []

/-- The tasks that were submitted and are not called back. -/
def Cfg.tasks (c : Cfg) : List Task :=
  c.world.poolTasks ++ c.world.finishedTasks ++ c.stack.flatMap Item.undone

/-- Each task is once where it is, and known as submitted. -/
structure Tracked (c : Cfg) : Prop where
  nodup : c.tasks.Nodup
  task : ∀ k ∈ c.tasks, c.world.task k ≠ none

/-- The tasks are where they were, or are fewer, or have moved. -/
theorem Tracked.of_subperm (h : Tracked c) (hp : c'.tasks.Subperm c.tasks)
    (hk : ∀ k ∈ c'.tasks, c'.world.task k = c.world.task k) : Tracked c' where
  nodup := by
    obtain ⟨l, hl, hs⟩ := hp
    exact hl.nodup_iff.mp (h.nodup.sublist hs)
  task k hm := by
    rw [hk k hm]
    exact h.task k (hp.subset hm)

theorem undone_dispatches (events : List (Handle × Events)) :
    (events.map fun e => Item.lib (.dispatch e.1 e.2)).flatMap Item.undone = [] := by
  rw [List.flatMap_map]
  exact List.flatMap_eq_nil_iff.mpr fun _ _ => rfl

/-- Only the notifier and the loop of `pd__task_done` change what is called back. -/
theorem Frame.Pushes.undone {f : Frame} {l : List Item} (h : f.Pushes l)
    (hf : ∀ ev, f ≠ .dispatch .taskSignal ev) (hk : ∀ k rest, f ≠ .taskDone (k :: rest)) :
    l.flatMap Item.undone = Item.undone (.lib f) := by
  cases h with
  | poll timeout events =>
    rw [List.flatMap_append, undone_dispatches]
    rfl
  | signal | signalAgain | signalNothing => exact absurd rfl (hf _)
  | task | taskCalled => exact absurd rfl (hk _ _)
  | _ => simp [Item.undone]

theorem Call.Pushes.undone {k : Call} {l : List Item} (h : k.Pushes l) :
    l.flatMap Item.undone = [] := by
  cases h <;> rfl

/-- The finished tasks move to the local queue, or stay. -/
theorem pd_notifierIo_tasks (ev : Events) (a : Answer) (rest : List Item) :
    let r := pd_notifierIo w ev a
    r.1.poolTasks = w.poolTasks ∧ r.1.task = w.task ∧
      r.1.finishedTasks ++ (r.2 ++ rest).flatMap Item.undone =
        w.finishedTasks ++ rest.flatMap Item.undone := by
  simp only [pd_notifierIo]
  split
  · exact ⟨rfl, rfl, rfl⟩
  · split
    · split <;> exact ⟨rfl, rfl, rfl⟩
    · split
      · exact ⟨rfl, rfl, by simp [pd_taskDone, goOn, setTasks, Item.undone]⟩
      · exact ⟨rfl, rfl, rfl⟩

/-- A step of the library: a task is called back at most. -/
theorem Tracked.exec {f : Frame} {a : Answer} {rest : List Item} {r : World × List Item}
    (h : Tracked c) (hst : c.stack = .lib f :: rest) (hr : exec c.world f a = some r) :
    Tracked ⟨r.1, r.2 ++ rest⟩ := by
  by_cases hf : ∃ ev, f = .dispatch .taskSignal ev
  · obtain ⟨ev, rfl⟩ := hf
    cases hr
    obtain ⟨hp, hk, hq⟩ := pd_notifierIo_tasks (w := c.world) ev a rest
    refine h.of_subperm (List.Perm.subperm (.of_eq ?_)) fun k _ => congrFun hk k
    have hundone : Item.undone (.lib (.dispatch .taskSignal ev)) = [] := rfl
    simp only [Cfg.tasks, hst, List.flatMap_cons, List.append_assoc, hp, hundone, List.nil_append]
    exact congrArg (c.world.poolTasks ++ ·) hq
  by_cases hk : ∃ k l, f = .taskDone (k :: l)
  · obtain ⟨k, l, rfl⟩ := hk
    have hnd := h.nodup
    simp only [Cfg.tasks, hst, List.flatMap_cons, Item.undone, ← List.append_assoc] at hnd
    obtain ⟨hw, hundone⟩ : (r.1.poolTasks = c.world.poolTasks ∧
        r.1.finishedTasks = c.world.finishedTasks ∧
        r.1.task = Function.update c.world.task k none) ∧ r.2.flatMap Item.undone = l := by
      simp only [Pandio.exec, taskDone, Option.some.injEq] at hr
      split at hr <;> cases hr <;> exact ⟨⟨rfl, rfl, rfl⟩, by simp [World.call, goOn, Item.undone]⟩
    have htasks : Cfg.tasks ⟨r.1, r.2 ++ rest⟩ =
        c.world.poolTasks ++ c.world.finishedTasks ++ (l ++ rest.flatMap Item.undone) := by
      rw [Cfg.tasks, List.flatMap_append, hundone, hw.1, hw.2.1]
    have hbefore : c.tasks =
        c.world.poolTasks ++ c.world.finishedTasks ++ k :: (l ++ rest.flatMap Item.undone) := by
      rw [Cfg.tasks, hst, List.flatMap_cons]
      rfl
    have hn := h.nodup
    rw [hbefore] at hn
    have hout : k ∉ Cfg.tasks ⟨r.1, r.2 ++ rest⟩ := by
      rw [htasks]
      exact (List.nodup_middle.mp hn).notMem
    refine h.of_subperm ?_ fun k' hk' => ?_
    · rw [htasks, hbefore]
      exact ((List.sublist_cons_self k _).append_left _).subperm
    · rw [hw.2.2, Function.update_of_ne]
      rintro rfl
      exact hout hk'
  · obtain ⟨hp, hfin⟩ := (exec_owner hr).1.tasks fun ev he => hf ⟨ev, he⟩
    have htask := (exec_touches hr).task (by
      rintro ⟨k, l, he⟩
      exact hk ⟨k, l, he⟩)
    have hundone := (exec_pushes hr).undone (fun ev he => hf ⟨ev, he⟩) fun k l he => hk ⟨k, l, he⟩
    refine h.of_subperm (List.Perm.subperm (.of_eq ?_)) fun k _ => congrFun htask k
    rw [Cfg.tasks, Cfg.tasks, hst, List.flatMap_append, hundone, List.flatMap_cons]
    exact congrArg₂ (fun p q => p ++ q ++ _) hp hfin

/-- A call of the application: a task is submitted at most, which the loop does not have. -/
theorem Tracked.api {k : Call} {a : Answer} {cb : Cb} {rest : List Item} {r : World × List Item}
    (h : Tracked c) (hst : c.stack = .app cb :: rest) (hr : api c.world k a = some r) :
    Tracked ⟨r.1, r.2 ++ .app cb :: rest⟩ := by
  have hundone := (api_pushes hr).undone
  by_cases hk : ∃ t b, k = .taskSubmit t b
  · obtain ⟨t, b, rfl⟩ := hk
    simp only [Pandio.api] at hr
    split at hr
    · rename_i hnone
      cases hr
      have hout : t ∉ c.tasks := fun hm => h.task t hm hnone
      unfold pdTaskSubmit
      split
      · exact h.of_subperm (List.Perm.subperm (.of_eq (by rw [Cfg.tasks, Cfg.tasks, hst]; rfl)))
          fun _ _ => rfl
      · have hp : Cfg.tasks ⟨(((c.world.incRefs (.task t)).addTask t b).setResult 0).goOn [] |>.1,
            [] ++ .app cb :: rest⟩ ~ t :: c.tasks := by
          rw [Cfg.tasks, Cfg.tasks, hst, ← List.cons_append, ← List.cons_append]
          exact ((List.perm_append_singleton t _).append_right _).append_right _
        refine ⟨hp.nodup_iff.mpr (List.nodup_cons.mpr ⟨hout, h.nodup⟩), fun k hm => ?_⟩
        show Function.update c.world.task t (some b) k ≠ none
        rcases List.mem_cons.mp (hp.mem_iff.mp hm) with he | hin
        · simp [he]
        · rw [Function.update_of_ne]
          · exact h.task k hin
          · rintro rfl
            exact hout hin
    · cases hr
  · obtain ⟨hp, hfin⟩ := (api_owner hr).tasks fun t b he => hk ⟨t, b, he⟩
    have htask := (api_touches hr).task (by
      rintro ⟨t, b, he⟩
      exact hk ⟨t, b, he⟩)
    refine h.of_subperm (List.Perm.subperm (.of_eq ?_)) fun k _ => congrFun htask k
    rw [Cfg.tasks, Cfg.tasks, hst, List.flatMap_append, hundone, List.nil_append]
    exact congrArg₂ (fun p q => p ++ q ++ _) hp hfin

theorem Run.tracked {ok : Cfg → Act → Prop} (r : Run ok c) : Tracked c := by
  refine Machine.Reach.invariant (P := Tracked) ?_ ?_ r
  · rintro c ⟨k, fd, -, -, rfl⟩
    exact ⟨by simp [Cfg.tasks, World.init, Item.undone], by simp [Cfg.tasks, World.init, Item.undone]⟩
  · intro c x c' _ h _ hs
    rcases step_cases hs with ⟨a, f, rest, r, rfl, hst, hr, rfl⟩ |
      ⟨k, a, cb, rest, r, rfl, hst, hr, rfl⟩ | ⟨p, cb, rest, rfl, hst, hcb, rfl⟩ |
      ⟨e, w', rfl, he, rfl⟩
    · exact h.exec hst hr
    · exact h.api hst hr
    · refine h.of_subperm (List.Perm.subperm (.of_eq ?_)) fun _ _ => rfl
      rw [Cfg.tasks, Cfg.tasks, hst]
      rfl
    · have htask : w'.task = c.world.task := by
        cases e <;> simp only [env] at he <;> (try split at he) <;> cases he <;> rfl
      refine h.of_subperm (List.Perm.subperm ?_) fun k _ => congrFun htask k
      rcases env_owner he with ho | ⟨k, hk, ho⟩
      · exact .of_eq (congrArg₂ (fun p q => p ++ q ++ _) (congrArg Owners.poolTasks ho)
          (congrArg Owners.finishedTasks ho))
      · have hp : w'.poolTasks = c.world.poolTasks.erase k := congrArg Owners.poolTasks ho
        have hfin : w'.finishedTasks = c.world.finishedTasks ++ [k] :=
          congrArg Owners.finishedTasks ho
        rw [Cfg.tasks, Cfg.tasks, hp, hfin]
        refine List.Perm.append_right _ ?_
        calc
          c.world.poolTasks.erase k ++ (c.world.finishedTasks ++ [k]) ~
              k :: (c.world.poolTasks.erase k ++ c.world.finishedTasks) := by
            rw [← List.append_assoc]
            exact List.perm_append_singleton ..
          _ ~ c.world.poolTasks ++ c.world.finishedTasks :=
            (List.perm_cons_erase hk).symm.append_right _

/-! ### Steps -/

/-- `pd__notifier_io` takes all finished tasks, or none. -/
theorem pd_notifierIo_service {ev : Events} {a : Answer} :
    Step w.service (w.fetches ev (a.sys 0)) (pd_notifierIo w ev a).1.service ∨
      w.fetches ev (a.sys 0) = [] ∧ (pd_notifierIo w ev a).1.service = w.service := by
  unfold pd_notifierIo fetches
  cases hin : ev.pollin with
  | false => exact .inr ⟨by cases a.sys 0 <;> simp, rfl⟩
  | true =>
    cases a.sys 0 with
    | err e =>
      refine .inr ⟨rfl, ?_⟩
      simp only [Bool.not_true, Bool.false_eq_true, ↓reduceIte]
      split <;> rfl
    | ok n =>
      cases hs : w.signaled with
      | false => exact .inr ⟨by simp, rfl⟩
      | true =>
        by_cases hnil : w.finishedTasks = []
        · refine .inr ⟨by simp [hnil], ?_⟩
          simp only [Bool.not_true, Bool.false_eq_true, ↓reduceIte, service, pd_taskDone, goOn,
            setTasks, hnil]
        · simp only [true_and, if_pos hnil]
          exact .inl (.fetch hnil)

/-- **A step of the loop is one of the service, or shows nothing.** -/
theorem step_service (h : Tracked c) (hs : step c x = some c') :
    Step c.world.service (serviceEvents c x) c'.world.service ∨
      serviceEvents c x = [] ∧ c'.world.service = c.world.service := by
  rcases step_cases hs with ⟨a, f, rest, r, rfl, hst, hr, rfl⟩ |
    ⟨k, a, cb, rest, r, rfl, hst, hr, rfl⟩ | ⟨p, cb, rest, rfl, hst, hcb, rfl⟩ |
    ⟨e, w', rfl, he, rfl⟩
  · by_cases hf : ∃ ev, f = .dispatch .taskSignal ev
    · obtain ⟨ev, rfl⟩ := hf
      cases hr
      simp only [serviceEvents, hst]
      exact pd_notifierIo_service
    · obtain ⟨hp, hf'⟩ := (exec_owner hr).1.tasks fun ev he => hf ⟨ev, he⟩
      refine .inr ⟨?_, service_eq_of_owners hp hf'⟩
      unfold serviceEvents
      split
      · rename_i he
        cases he
      · rename_i he
        rw [hst] at he
        cases he
        exact absurd ⟨_, rfl⟩ hf
      · rfl
  · by_cases hk : ∃ t b, k = .taskSubmit t b
    · obtain ⟨t, b, rfl⟩ := hk
      simp only [api] at hr
      split at hr
      · rename_i hnone
        cases hr
        have hout : t ∉ c.tasks := fun hm => h.task t hm hnone
        simp only [Cfg.tasks, List.mem_append, not_or] at hout
        simp only [serviceEvents, pdTaskSubmit]
        cases a.sys 0 with
        | err e => exact .inr ⟨rfl, rfl⟩
        | ok n =>
          left
          have hpool : ((((c.world.incRefs (.task t)).addTask t b).setResult 0).goOn []).1.service =
              ⟨t ::ₘ (c.world.poolTasks : Multiset Task), c.world.finishedTasks⟩ := by
            show State.mk ((c.world.poolTasks ++ [t] : List Task) : Multiset Task) _ = _
            rw [Multiset.coe_eq_coe.mpr (List.perm_append_singleton t _)]
            rfl
          simp only [submission, hpool]
          exact .submit hout.1.1 hout.1.2
      · cases hr
    · obtain ⟨hp, hf'⟩ := (api_owner hr).tasks fun t b he => hk ⟨t, b, he⟩
      refine .inr ⟨?_, service_eq_of_owners hp hf'⟩
      unfold serviceEvents
      split
      · rename_i he
        cases he
        exact absurd ⟨_, _, rfl⟩ hk
      · rename_i he _
        cases he
      · rfl
  · exact .inr ⟨rfl, rfl⟩
  · have hnone : serviceEvents c (.env e) = [] := rfl
    rcases env_owner he with ho | ⟨k, hk, ho⟩
    · exact .inr ⟨hnone, service_eq_of_owners (by rw [ho]) (by rw [ho])⟩
    · left
      have hw : c.world.service =
          ⟨k ::ₘ ((c.world.poolTasks.erase k : List Task) : Multiset Task), c.world.finishedTasks⟩ := by
        show State.mk (c.world.poolTasks : Multiset Task) _ = _
        rw [Multiset.coe_eq_coe.mpr (List.perm_cons_erase hk)]
        rfl
      have hw' : w'.service = ⟨((c.world.poolTasks.erase k : List Task) : Multiset Task),
          c.world.finishedTasks ++ [k]⟩ := by
        show State.mk (w'.owners.poolTasks : Multiset Task) w'.owners.finishedTasks = _
        rw [ho]
      rw [hnone, hw, hw']
      exact .finish k

theorem Served.trace {t : List (Event Task)} (h : Served t c) : Trace t c.world.service := by
  refine Shows.trace (f := fun c : Cfg => c.world.service) ?_ ?_ h
  · rintro c ⟨k, fd, -, -, rfl⟩
    rfl
  · intro c x c' r _ hs
    exact step_service (Run.tracked r) hs

end

/-! ## Traces are shown by runs -/

/-- What the loop needs to know of the pool, with what is quiet in the runs that follow: no timer,
no pending close, and an `after_tick` hook, which lets the application call between two polls. -/
structure TaskSide where
  pool : List Task
  finished : List Task
  signaled : Bool
  first : Option Tid
  pendingCloses : LinkedQueue Sid
  afterTick : Bool
  notifier : Option (Handle × Flags)

def World.taskSide (w : World) : TaskSide :=
  { pool := w.poolTasks, finished := w.finishedTasks, signaled := w.signaled
    first := heapPeek w.timers, pendingCloses := w.pendingCloses, afterTick := w.afterTick
    notifier := w.kernel.interest w.signalFd }

/-- The loop's side of the service's state, with nothing else to do. -/
structure Serves (v : State Task) (d : TaskSide) : Prop where
  pool : (d.pool : Multiset Task) = v.pool
  finished : d.finished = v.finished
  signaled : v.finished ≠ [] → d.signaled = true
  first : d.first = none
  pendingCloses : d.pendingCloses.pop = none
  afterTick : d.afterTick = true
  notifier : d.notifier = some (.taskSignal, ⟨true, false⟩)

/-- The application may call, after the trace `t`, which has left the service at `v`. No task has a
callback. -/
structure Serving (t : List (Event Task)) (v : State Task) (c : Cfg) : Prop where
  served : Served t c
  app : ∃ cb rest, c.stack = .app cb :: rest
  serves : Serves v c.world.taskSide
  task : ∀ k, c.world.task k ≠ some true ∧ (k ∉ v.pool → k ∉ v.finished → c.world.task k = none)

section
variable {c c' : Cfg} {t : List (Event Task)} {v : State Task} {rest : List Item}

/-- A step that shows nothing. -/
theorem Served.quiet {x : Act} (h : Served t c) (hs : step c x = some c')
    (he : serviceEvents c x = []) : Served t c' := by
  have h' := Shows.step h trivial hs
  rwa [he, List.append_nil] at h'

/-- The second loop of `pd__task_done`, for tasks without a callback. -/
theorem Served.deliver {l : List Task} (h : Served t c) (hst : c.stack = .lib (.taskDone l) :: rest)
    (hk : ∀ k, c.world.task k ≠ some true) :
    ∃ c', Served t c' ∧ c'.stack = rest ∧ c'.world.taskSide = c.world.taskSide ∧
      ∀ k, c'.world.task k = if k ∈ l then none else c.world.task k := by
  induction l generalizing c with
  | nil =>
    have hs : step c (.lib (.ok 0 [])) = some ⟨c.world, rest⟩ := by
      simp [step, hst, exec, taskDone, goOn]
    exact ⟨_, h.quiet hs (by simp [serviceEvents, hst]), rfl, rfl, fun _ => by simp⟩
  | cons k l ih =>
    have hs1 : step c (.lib (.ok 0 [])) =
        some ⟨c.world.dropTask k, .lib (.taskDoneDec k l) :: rest⟩ := by
      simp [step, hst, exec, taskDone, goOn, hk k]
    have h1 := h.quiet hs1 (by simp [serviceEvents, hst])
    have hs2 : step ⟨c.world.dropTask k, .lib (.taskDoneDec k l) :: rest⟩ (.lib (.ok 0 [])) =
        some ⟨(c.world.dropTask k).decRefs (.task k), .lib (.taskDone l) :: rest⟩ := rfl
    have hdrop : ∀ k', ((c.world.dropTask k).decRefs (.task k)).task k' =
        if k' = k then none else c.world.task k' := fun k' => Function.update_apply ..
    obtain ⟨c', h', hst', hside, htask⟩ := ih (h1.quiet hs2 rfl) rfl fun k' => by
      rw [hdrop]
      split
      · simp
      · exact hk k'
    refine ⟨c', h', hst', hside, fun k' => ?_⟩
    rw [htask, hdrop]
    by_cases he : k' = k <;> by_cases hm : k' ∈ l <;> simp [he, hm]

/-- An iteration of the loop from the events to the `after_tick` hook, when nothing is due. -/
theorem Served.tick (h : Served t c)
    (hst : c.stack = .lib .timersRun :: .lib .pendingClose :: .lib .ioAfterTick :: rest)
    (hv : Serves v c.world.taskSide) :
    ∃ c', Served t c' ∧ c'.stack = .app .afterTick :: rest ∧
      c'.world.taskSide = c.world.taskSide ∧ c'.world.task = c.world.task := by
  have hfirst : heapPeek c.world.timers = none := hv.first
  have hpend : c.world.pendingCloses.pop = none := hv.pendingCloses
  have hhook : c.world.afterTick = true := hv.afterTick
  have hs1 : step c (.lib (.ok 0 [])) =
      some ⟨c.world, .lib .pendingClose :: .lib .ioAfterTick :: rest⟩ := by
    simp [step, hst, exec, pdTimersRun, hfirst, goOn]
  have hs2 : step ⟨c.world, .lib .pendingClose :: .lib .ioAfterTick :: rest⟩ (.lib (.ok 0 [])) =
      some ⟨c.world, .lib .ioAfterTick :: rest⟩ := by
    simp [step, exec, pd_tcpPendingClose, hpend, goOn]
  have hs3 : step ⟨c.world, .lib .ioAfterTick :: rest⟩ (.lib (.ok 0 [])) =
      some ⟨c.world.logObs (.cb .afterTick c.world.now), .app .afterTick :: rest⟩ := by
    simp [step, exec, ioAfterTick, hhook, World.call]
  have h1 := h.quiet hs1 (by simp [serviceEvents, hst])
  exact ⟨_, (h1.quiet hs2 rfl).quiet hs3 rfl, rfl, rfl, rfl⟩

/-- A `pd_tcp_accept` that is not registered adds a reference, and that is all the pool's side can
tell. -/
theorem pdTcpAccept_again (w : World) : ∃ x : World, pdTcpAccept w 0 0 .again = x.incRefs (.tcp 0) ∧
    x.refs = w.refs ∧ x.task = w.task ∧ x.taskSide = w.taskSide := by
  have hk : ∀ f, (w.kernel.ctl .add 0 (.tcp 0) f (.err EAGAIN)).1 = w.kernel := by
    intro f
    unfold Kernel.ctl
    split
    · rfl
    · split <;> first | rfl | contradiction
  refine ⟨_, rfl, rfl, rfl, ?_⟩
  have hi := congrArg Kernel.interest (hk { (w.tcp 0).flags with pollin := true })
  exact congrArg (fun i => ({ w.taskSide with notifier := i w.signalFd } : TaskSide)) hi

/-- The loop goes on with a reference, which a `pd_tcp_accept` adds when the tasks do not: they are
counted modulo 2^64. -/
theorem Serving.hold (h : Serving t v c) : ∃ c', Serving t v c' ∧ c'.world.refs ≠ 0 := by
  by_cases hrefs : c.world.refs = 0
  · obtain ⟨cb, rest, hst⟩ := h.app
    obtain ⟨x, hx, hr, htask, hside⟩ := pdTcpAccept_again c.world
    have hs : step c (.api (.tcpAccept 0 0) .again) = some ⟨x.incRefs (.tcp 0), c.stack⟩ := by
      simp [step, hst, api, goOn, hx]
    refine ⟨_, ⟨h.served.quiet hs rfl, h.app, ?_, ?_⟩, ?_⟩
    · have hs' : (x.incRefs (.tcp 0)).taskSide = c.world.taskSide := hside
      rw [hs']
      exact h.serves
    · have ht : (x.incRefs (.tcp 0)).task = c.world.task := htask
      rw [ht]
      exact h.task
    · simp only [incRefs, World.logObs, setRefs, hr, hrefs]
      decide
  · exact ⟨c, h, hrefs⟩

/-- **An iteration of the loop fetches what is finished.** -/
theorem Serving.fetch (h : Serving t v c) (hne : v.finished ≠ []) :
    ∃ c', Serving (t ++ [.fetched v.finished]) ⟨v.pool, []⟩ c' := by
  obtain ⟨c, h, hrefs⟩ := h.hold
  obtain ⟨cb, rest, hst⟩ := h.app
  have hs1 : step c (.api .ioRun (.ok 0 [])) =
      some ⟨c.world, .lib (.ioRun (pdTimersNext c.world)) :: c.stack⟩ := by
    simp [step, hst, api, pdIoRun, goOn]
  have h1 := h.served.quiet hs1 rfl
  -- the poll
  have hnotifier : c.world.kernel.interest c.world.signalFd = some (.taskSignal, ⟨true, false⟩) :=
    h.serves.notifier
  have hs2 : step ⟨c.world, .lib (.ioRun (pdTimersNext c.world)) :: c.stack⟩
      (.lib (.ok 0 [(c.world.signalFd, ⟨true, false, false, false, false⟩)])) =
      some ⟨c.world.setNow c.world.kernel.clock, .lib (.dispatch .taskSignal ⟨true, false, false⟩) ::
        .lib .timersRun :: .lib .pendingClose :: .lib .ioAfterTick :: .lib .ioNext :: c.stack⟩ := by
    simp [step, exec, ioRun, hrefs, Answer.ok, polledEvents, setNow, hnotifier, Polled.events, goOn,
      MAX_EVENTS]
  have h2 := h1.quiet hs2 rfl
  generalize hw : c.world.setNow c.world.kernel.clock = w at hs2 h2
  have hside : w.taskSide = c.world.taskSide := by
    rw [← hw]
    rfl
  have htask : w.task = c.world.task := by
    rw [← hw]
    rfl
  have hsig : w.signaled = true := (congrArg TaskSide.signaled hside).trans (h.serves.signaled hne)
  have hfin : w.finishedTasks = v.finished :=
    (congrArg TaskSide.finished hside).trans h.serves.finished
  -- the notifier
  have hs3 : step ⟨w, .lib (.dispatch .taskSignal ⟨true, false, false⟩) ::
        .lib .timersRun :: .lib .pendingClose :: .lib .ioAfterTick :: .lib .ioNext :: c.stack⟩
      (.lib (.ok 0 [])) = some ⟨w.setTasks w.poolTasks [] false, .lib (.taskDone v.finished) ::
        .lib .timersRun :: .lib .pendingClose :: .lib .ioAfterTick :: .lib .ioNext :: c.stack⟩ := by
    simp [step, exec, dispatch, pd_notifierIo, Answer.ok, hsig, pd_taskDone, goOn, hfin, setTasks]
  have hshow : serviceEvents ⟨w, .lib (.dispatch .taskSignal ⟨true, false, false⟩) ::
        .lib .timersRun :: .lib .pendingClose :: .lib .ioAfterTick :: .lib .ioNext :: c.stack⟩
      (.lib (.ok 0 [])) = [.fetched v.finished] := by
    simp [serviceEvents, fetches, Answer.ok, hsig, hfin, hne]
  have h3 : Served _ _ := Shows.step h2 trivial hs3
  rw [hshow] at h3
  -- the callbacks, of which there are none
  obtain ⟨c4, h4, hst4, hside4, htask4⟩ := Served.deliver h3 rfl fun k => by
    show w.task k ≠ some true
    rw [htask]
    exact (h.task k).1
  have hserves : Serves ⟨v.pool, []⟩ c4.world.taskSide := by
    have hside' : c4.world.taskSide = { c.world.taskSide with finished := [], signaled := false } := by
      rw [hside4, ← hside]
      rfl
    rw [hside']
    exact { h.serves with finished := rfl, signaled := fun hnil => absurd rfl hnil }
  obtain ⟨c5, h5, hst5, hside5, htask5⟩ := h4.tick hst4 hserves
  refine ⟨c5, ⟨h5, ⟨_, _, hst5⟩, hside5 ▸ hserves, fun k => ?_⟩⟩
  have hk : c5.world.task k = if k ∈ v.finished then none else c.world.task k := by
    rw [htask5, htask4 k, ← htask]
    rfl
  rw [hk]
  split
  · exact ⟨by simp, fun _ _ => rfl⟩
  · rename_i hout
    exact ⟨(h.task k).1, fun hp _ => (h.task k).2 hp hout⟩

/-- The application submits a task that the service does not have. -/
theorem Serving.submit {p : Multiset Task} {f : List Task} (h : Serving t ⟨p, f⟩ c) {k : Task}
    (hp : k ∉ p) (hf : k ∉ f) : ∃ c', Serving (t ++ [.submitted k]) ⟨k ::ₘ p, f⟩ c' := by
  obtain ⟨cb, rest, hst⟩ := h.app
  have hs : step c (.api (.taskSubmit k false) (.ok 0 [])) = some
      ⟨((c.world.incRefs (.task k)).addTask k false).setResult 0, c.stack⟩ := by
    simp [step, hst, api, (h.task k).2 hp hf, pdTaskSubmit, Answer.ok, goOn]
  have h' := Shows.step h.served trivial hs
  refine ⟨_, ⟨h', ⟨cb, rest, hst⟩, { h.serves with pool := ?_ }, fun k' => ?_⟩⟩
  · show ((c.world.poolTasks ++ [k] : List Task) : Multiset Task) = k ::ₘ p
    rw [Multiset.coe_eq_coe.mpr (List.perm_append_singleton k _), ← Multiset.cons_coe]
    exact congrArg (k ::ₘ ·) h.serves.pool
  · show Function.update c.world.task k (some false) k' ≠ some true ∧ (k' ∉ k ::ₘ p → k' ∉ f →
      Function.update c.world.task k (some false) k' = none)
    by_cases he : k' = k
    · subst he
      simp
    · rw [Function.update_of_ne he]
      exact ⟨(h.task k').1, fun hn => (h.task k').2 fun hm => hn (Multiset.mem_cons_of_mem hm)⟩

/-- A worker finishes a task. -/
theorem Serving.finish {p : Multiset Task} {f : List Task} {k : Task}
    (h : Serving t ⟨k ::ₘ p, f⟩ c) : ∃ c', Serving t ⟨p, f ++ [k]⟩ c' := by
  have hpool : (c.world.poolTasks : Multiset Task) = k ::ₘ p := h.serves.pool
  have hk : k ∈ c.world.poolTasks := by
    rw [← Multiset.mem_coe, hpool]
    exact Multiset.mem_cons_self k p
  have hs : step c (.env (.workDone k)) = some ⟨c.world.setTasks (c.world.poolTasks.erase k)
      (c.world.finishedTasks ++ [k]) true, c.stack⟩ := by
    simp [step, env, hk]
  refine ⟨_, ⟨h.served.quiet hs rfl, h.app,
    { h.serves with pool := ?_, finished := ?_, signaled := fun _ => rfl }, fun k' => ?_⟩⟩
  · show ((c.world.poolTasks.erase k : List Task) : Multiset Task) = p
    rw [← Multiset.coe_erase, hpool, Multiset.erase_cons_head]
  · exact congrArg (· ++ [k]) h.serves.finished
  · refine ⟨(h.task k').1, fun hp hf => (h.task k').2 ?_ ?_⟩
    · intro hm
      rcases Multiset.mem_cons.mp hm with rfl | hm
      · exact hf (List.mem_append_right _ (List.mem_singleton_self _))
      · exact hp hm
    · exact fun hm => hf (List.mem_append_left _ hm)

/-- **Every trace of the service is shown by a run of the loop.** -/
theorem Serving.plays (h : Trace t v) : ∃ c, Serving t v c := by
  induction h with
  | nil =>
    have hs : step (Cfg.start []) (.api (.setAfterTick true) (.ok 0 [])) =
        some ⟨(Cfg.start []).world.setAfterTick true, [.app .main]⟩ := rfl
    refine ⟨_, Served.quiet (.init (Cfg.start_init [])) hs rfl, ⟨_, _, rfl⟩,
      ⟨rfl, rfl, fun h => absurd rfl h, rfl, rfl, rfl, rfl⟩, fun k => ⟨?_, fun _ _ => rfl⟩⟩
    show none ≠ some true
    simp
  | step _ hs ih =>
    obtain ⟨c, hc⟩ := ih
    cases hs with
    | submit hp hf => exact hc.submit hp hf
    | finish k =>
      rw [List.append_nil]
      exact hc.finish
    | fetch hne => exact hc.fetch hne

/-- **The loop's two lists are the service, and the pool is within it.** What the runs of the loop
show of its tasks are the traces of the service, each with the state that it leaves; so whatever a
run of the pool shows a context, with any number of workers and other contexts, a run of the loop
shows, and has the same tasks before it and behind it. -/
theorem pool_in_loop :
    (∀ t v, (∃ c, Served t c ∧ c.world.service = v) ↔ Trace t v) ∧
    ∀ i t p, Threadpool.Shown i t p → ∃ c, Served t c ∧ c.world.service = p.service i := by
  have plays : ∀ t v, Trace t v → ∃ c, Served t c ∧ c.world.service = v := by
    intro t v h
    obtain ⟨c, hc⟩ := Serving.plays h
    refine ⟨c, hc.served, ?_⟩
    obtain ⟨p, f⟩ := v
    exact congrArg₂ State.mk hc.serves.pool hc.serves.finished
  refine ⟨fun t v => ⟨?_, plays t v⟩, fun i t p h => plays _ _ (Threadpool.Shown.trace h)⟩
  rintro ⟨c, h, rfl⟩
  exact h.trace

end

/-- A task that is submitted again after it was fetched. -/
example : ∃ c, Served [.submitted 7, .fetched [7], .submitted 7] c ∧
    (c.world.poolTasks : Multiset Task) = {7} := by
  have h : Trace (((([] ++ [.submitted 7]) ++ []) ++ [.fetched [7]]) ++ [.submitted 7])
      (⟨{7}, []⟩ : State Task) :=
    (((Trace.nil.step (.submit (by simp) (by simp))).step (.finish 7)).step
      (.fetch (by simp))).step (.submit (by simp) (by simp))
  obtain ⟨c, hc⟩ := Serving.plays h
  exact ⟨c, hc.served, hc.serves.pool⟩

end Pandio
