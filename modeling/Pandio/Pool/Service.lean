import Pandio.Lib.Service
import Pandio.Pool.Overtaking

/- The pool as one context sees it. The calls of `pd_task_submit` for the context that pass, and
   the queues of finished tasks that its loop takes, are the events of a service that works on
   tasks and hands them back, for any number of workers and other contexts: a task
   that is accepted stays with the pool until a worker pushes it on `finished_tasks`, and every
   `pd__task_done` takes all that is there. -/
namespace Pandio.Threadpool
open Service
open scoped List

/-! ## The service of a context -/

/-- The tasks that were submitted and are not finished: between the call and `mux`, in the queue, in
the hands of the workers. -/
def Pool.ahead (s : Pool) : List TaskId := s.submitting ++ s.tasks ++ s.hands

def Pool.aheadOf (s : Pool) (c : CtxId) : List TaskId := s.ahead.filter fun k => (s.task k).ctx = c

/-- The state of the service that the pool is for the context. -/
def Pool.service (s : Pool) (c : CtxId) : State TaskId :=
  { pool := s.aheadOf c, finished := (s.ctx c).finishedTasks }

/-- A `pd__task_done` that takes some tasks. -/
def Ctx.fetches (x : Ctx) : List (Event TaskId) :=
  match x.drains with
  | .signaled :: _ => if x.finishedTasks = [] then [] else [.fetched x.finishedTasks]
  | _ => []

/-- What a step shows the context. -/
def shows (c : CtxId) (s : Pool) : Act → List (Event TaskId)
  | .submit c' k _ _ =>
    if c' = c ∧ s.abortThreads = false ∧ s.nthreads ≠ 0 then [.submitted k] else []
  | .taskDone c' => if c' = c then (s.ctx c).fetches else []
  | _ => []

section
variable {s s' : Pool} {ts ts' : List Point} {i : Wid} {a b : Point} {k : TaskId} {act : Act}
  {c : CtxId}

/-- Locking workers have no task in their hands. -/
theorem Locks.hands {n : Nat} (h : Locks s i n) :
    ∃ b, s.threads[i]? = some b ∧ b ≠ .asleep ∧ b.hands = [] := by
  rcases h.point with ⟨hb, _⟩ | ⟨hb, _⟩
  · exact ⟨_, hb, by decide, rfl⟩
  · exact ⟨_, hb, by decide, rfl⟩

/-- A task that is not pending is not ahead. -/
theorem not_mem_ahead (h : s.pending k = false) : k ∉ s.ahead := by
  simp only [Pool.pending, Bool.or_eq_false_iff, decide_eq_false_iff_not] at h
  have hhands : k ∉ s.hands := by
    intro hk
    obtain ⟨p, hp, hk⟩ := List.mem_flatMap.mp hk
    have hany := List.any_eq_false.mp h.1.1.2 p hp
    cases p <;> simp_all [Point.hands]
  simp [Pool.ahead, h.1.1.1.1, h.1.1.1.2, hhands]

theorem service_eq (hahead : s'.ahead.Perm s.ahead) (htask : s'.task = s.task)
    (hfin : (s'.ctx c).finishedTasks = (s.ctx c).finishedTasks) : s'.service c = s.service c := by
  have hp : (s'.aheadOf c).Perm (s.aheadOf c) := by
    unfold Pool.aheadOf
    rw [htask]
    exact hahead.filter _
  simp only [Pool.service, Multiset.coe_eq_coe.mpr hp, hfin]

/-- A step that moves a task at most within the pool. -/
theorem quiet (hahead : s'.ahead.Perm s.ahead) (htask : s'.task = s.task)
    (hfin : (s'.ctx c).finishedTasks = (s.ctx c).finishedTasks) (hshow : shows c s act = []) :
    Step (s.service c) (shows c s act) (s'.service c) ∨
      shows c s act = [] ∧ s'.service c = s.service c :=
  .inr ⟨hshow, service_eq hahead htask hfin⟩

theorem ahead_hands (hsub : s'.submitting = s.submitting) (ht : s'.tasks = s.tasks)
    (hh : s'.hands = s.hands) : s'.ahead.Perm s.ahead := by
  rw [Pool.ahead, hsub, ht, hh, Pool.ahead]

/-- The call that passes is the submission. -/
theorem submitted_service {c' : CtxId} {work done : Bool}
    (hahead : s'.ahead ~ k :: s.ahead) (htask : s'.task = Function.update s.task k ⟨c', work, done⟩)
    (hfin : ∀ d, (s'.ctx d).finishedTasks = (s.ctx d).finishedTasks) (ha : s.abortThreads = false)
    (hn : s.nthreads ≠ 0) (hk : k ∉ s.ahead) (hkf : k ∉ (s.ctx c).finishedTasks) :
    Step (s.service c) (shows c s (.submit c' k work done)) (s'.service c) ∨
      shows c s (.submit c' k work done) = [] ∧ s'.service c = s.service c := by
  have hkeep : (s.ahead.filter fun k' => (s'.task k').ctx = c) = s.aheadOf c := by
    refine List.filter_congr fun k' hk' => ?_
    rw [htask, Function.update_of_ne]
    rintro rfl
    exact hk hk'
  have hself : (s'.task k).ctx = c' := by rw [htask, Function.update_self]
  have hp : s'.aheadOf c ~ (k :: s.ahead).filter fun k' => (s'.task k').ctx = c := hahead.filter _
  simp only [List.filter_cons, hself, hkeep] at hp
  by_cases hc : c' = c
  · left
    rw [if_pos (by simpa using hc)] at hp
    have hs' : s'.service c = ⟨k ::ₘ (s.aheadOf c : Multiset TaskId), (s.ctx c).finishedTasks⟩ := by
      rw [Pool.service, Multiset.coe_eq_coe.mpr hp, hfin]
      rfl
    rw [shows, if_pos ⟨hc, ha, hn⟩, hs']
    exact .submit (fun hm => hk (List.mem_of_mem_filter hm)) hkf
  · rw [if_neg (by simpa using hc)] at hp
    refine .inr ⟨by rw [shows, if_neg (fun h => hc h.1)], ?_⟩
    rw [Pool.service, Multiset.coe_eq_coe.mpr hp, hfin]
    rfl

/-- A worker pushes a task: the task is finished, if it is one of the context's. -/
theorem pushed_service (hahead : k :: s'.ahead ~ s.ahead) (htask : s'.task = s.task)
    (hfin : ∀ d, (s'.ctx d).finishedTasks =
      if d = (s.task k).ctx then (s.ctx d).finishedTasks ++ [k] else (s.ctx d).finishedTasks) :
    Step (s.service c) [] (s'.service c) ∨ [] = ([] : List (Event TaskId)) ∧
      s'.service c = s.service c := by
  have hp : (k :: s'.ahead).filter (fun k' => (s.task k').ctx = c) ~ s.aheadOf c := hahead.filter _
  rw [List.filter_cons] at hp
  have hs' : s'.aheadOf c = s'.ahead.filter fun k' => (s.task k').ctx = c := by
    rw [Pool.aheadOf, htask]
  by_cases hc : (s.task k).ctx = c
  · left
    rw [if_pos (by simpa using hc), ← hs'] at hp
    have hs : s.service c = ⟨k ::ₘ (s'.aheadOf c : Multiset TaskId), (s.ctx c).finishedTasks⟩ := by
      rw [Pool.service, ← Multiset.coe_eq_coe.mpr hp]
      rfl
    rw [hs, Pool.service, hfin, if_pos hc.symm]
    exact .finish k
  · rw [if_neg (by simpa using hc), ← hs'] at hp
    refine .inr ⟨rfl, ?_⟩
    rw [Pool.service, hfin, if_neg (Ne.symm hc), Multiset.coe_eq_coe.mpr hp]
    rfl

/-- A `pd__task_done` takes what is finished. -/
theorem drained_service {c' : CtxId} {x : Ctx} {ds : List Drain} (hahead : s'.ahead = s.ahead)
    (htask : s'.task = s.task) (hctx : s'.ctx = Function.update s.ctx c' x)
    (hfin : x.finishedTasks = []) (hd : (s.ctx c').drains = .signaled :: ds) :
    Step (s.service c) (shows c s (.taskDone c')) (s'.service c) ∨
      shows c s (.taskDone c') = [] ∧ s'.service c = s.service c := by
  have hpool : s'.aheadOf c = s.aheadOf c := by rw [Pool.aheadOf, hahead, htask, Pool.aheadOf]
  by_cases hc : c' = c
  · subst hc
    have hs' : s'.service c' = ⟨(s.aheadOf c' : Multiset TaskId), []⟩ := by
      rw [Pool.service, hpool, hctx, Function.update_self, hfin]
    rw [hs', shows, if_pos rfl, Ctx.fetches, hd]
    by_cases hnil : (s.ctx c').finishedTasks = []
    · refine .inr ⟨if_pos hnil, ?_⟩
      rw [Pool.service, hnil]
    · simp only [if_neg hnil]
      exact .inl (.fetch hnil)
  · refine .inr ⟨by rw [shows, if_neg hc], ?_⟩
    rw [Pool.service, hpool, hctx, Function.update_of_ne (Ne.symm hc)]
    rfl

/-- A step that changes a context, and not its finished tasks. -/
theorem finished_update {c' d : CtxId} {x : Ctx} (hfin : x.finishedTasks = (s.ctx c').finishedTasks) :
    (Function.update s.ctx c' x d).finishedTasks = (s.ctx d).finishedTasks := by
  rw [Function.update_apply]
  split
  · rename_i hd
    rw [hfin, hd]
  · rfl

/-- Later in a `pd__task_done` nothing is taken. -/
theorem fetches_later {c' : CtxId} (hd : ∀ ds, (s.ctx c').drains ≠ .signaled :: ds) :
    shows c s (.taskDone c') = [] := by
  rw [shows]
  split
  · rename_i hc
    subst hc
    unfold Ctx.fetches
    split
    · rename_i ds hds
      exact absurd hds (hd ds)
    · rfl
  · rfl

/-- **A step of the pool is one of the service, or shows nothing.** -/
theorem Move.service (m : Move s act s') (hok : SubmitsOnce s act) (hwait : Waiting s)
    {pl : TaskId → Option Place} (hpl : Placed s pl) :
    Step (s.service c) (shows c s act) (s'.service c) ∨
      shows c s act = [] ∧ s'.service c = s.service c := by
  cases m with
  | @refused c' k work done h =>
    refine quiet (.refl _) rfl rfl ?_
    rw [shows, if_neg]
    rintro ⟨_, ha, hn⟩
    rcases h with h | h
    · rw [h] at ha
      cases ha
    · exact hn h
  | @submitted c' k work done ha hn =>
    refine submitted_service ?_ rfl (fun d => finished_update rfl) ha hn (not_mem_ahead hok)
      fun hm => ?_
    show s.submitting ++ [k] ++ s.tasks ++ s.hands ~ _
    rw [List.append_assoc, List.append_assoc, Pool.ahead, List.append_assoc]
    exact List.perm_middle
    cases (hpl.pending hok).symm.trans (hpl.holds.mem (p := .finished c).mp hm)
  | @enqueued k j ts hk _ hsig =>
    refine quiet ?_ rfl rfl rfl
    have hts : ts.flatMap Point.hands = s.hands := by
      rcases hsig with hsig | ⟨_, rfl⟩
      · exact hsig.flatMap rfl
      · rfl
    -- from the call to the queue
    show (s.submitting.erase k ++ (s.tasks ++ [k]) ++ ts.flatMap Point.hands).Perm _
    rw [hts]
    refine List.Perm.append_right _ ?_
    calc
      s.submitting.erase k ++ (s.tasks ++ [k]) ~ k :: (s.submitting.erase k ++ s.tasks) := by
        rw [← List.append_assoc]
        exact List.perm_append_singleton ..
      _ ~ s.submitting ++ s.tasks := (List.perm_cons_erase hk).symm.append_right _
  | slept hl _ _ | popNull hl _ _ _ =>
    obtain ⟨b, hb, _, hnone⟩ := hl.hands
    exact quiet (ahead_hands rfl (by simp_all) (flatMap_set hb hnone.symm)) rfl rfl rfl
  | exited hl _ hsig =>
    obtain ⟨b, hb, hne, hnone⟩ := hl.hands
    exact quiet (ahead_hands rfl rfl
      ((flatMap_set (hsig.get hb hne) hnone.symm).trans (hsig.flatMap rfl))) rfl rfl rfl
  | @popped i j n k q hl _ _ htasks =>
    obtain ⟨b, hb, _, hnone⟩ := hl.hands
    refine quiet ?_ rfl rfl rfl
    have hperm := flatMap_set_perm (f := Point.hands) (a := .taken k) hb
    rw [hnone] at hperm
    show s.submitting ++ q ++ _ ~ s.submitting ++ s.tasks ++ s.hands
    rw [htasks, List.append_assoc, List.append_assoc]
    refine List.Perm.append_left _ ?_
    exact (hperm.append_left q).trans List.perm_middle
  | called hb _ | skipped hb _ | returned hb | woke hb =>
    exact quiet (ahead_hands rfl rfl (flatMap_set hb rfl)) rfl rfl rfl
  | @pushed i j k c' x hb _ hc hx =>
    subst hx hc
    have hperm := flatMap_set_perm (f := Point.hands) (a := .pushed k) hb
    refine pushed_service (k := k) ?_ rfl fun d => ?_
    · exact List.perm_middle.symm.trans (hperm.append_left _)
    · simp only [Function.update_apply]
      split
      · rename_i hd
        rw [hd]
      · rfl
  | @sent i j k c' x hb hc hx =>
    subst hx
    refine quiet (ahead_hands rfl rfl (flatMap_set hb rfl)) rfl (finished_update ?_) rfl
    split <;> rfl
  | read hx _ _ =>
    subst hx
    exact quiet (.refl _) rfl (finished_update rfl) rfl
  | drained hx _ hd =>
    subst hx
    exact drained_service rfl rfl rfl rfl hd
  | doneCalled hx hd _ | doneSkipped hx hd _ | doneReturned hx hd | drainReturned hx hd =>
    subst hx
    exact quiet (.refl _) rfl (finished_update rfl) (fetches_later (by simp [hd]))
  | ended _ _ _ hsig => exact quiet (ahead_hands rfl rfl (hsig.flatMap rfl)) rfl rfl rfl
  | joined _ hex =>
    have hnone : s.hands = [] := by
      rw [Pool.hands, List.flatMap_eq_nil_iff]
      intro p hp
      rw [hex p hp]
      rfl
    exact quiet (ahead_hands rfl rfl hnone.symm) rfl rfl rfl
  | init _ _ => exact quiet (.refl _) rfl rfl rfl
  | created hs =>
    have hnil : s.threads = [] := hwait.no_threads (.inr hs)
    refine quiet (ahead_hands rfl rfl ?_) rfl rfl rfl
    rw [Pool.hands, Pool.hands, hnil, List.flatMap_eq_nil_iff.mpr]
    · rfl
    · intro p hp
      rw [List.eq_of_mem_replicate hp]
      rfl
  | readNothing _ | endedBefore _ | initBefore _ => exact quiet (.refl _) rfl rfl rfl

/-! ## Runs -/

/-- The runs of the pool, with what they show the context. -/
abbrev Shown (c : CtxId) : List (Event TaskId) → Pool → Prop :=
  Shows step SubmitsOnce Init (shows c)

theorem Shown.trace {t : List (Event TaskId)} (h : Shown c t s) :
    Service.Trace t (s.service c) := by
  refine Shows.trace (f := fun s : Pool => s.service c) ?_ ?_ h
  · rintro s ⟨hctx, hs⟩
    obtain ⟨n, _, hc⟩ := hctx c
    have hnil : s.aheadOf c = [] := by
      rw [hs]
      rfl
    simp only [Pool.service, hnil, hc]
    rfl
  · intro s x s' r hok hs
    obtain ⟨pl, hpl⟩ := Run.placed r
    exact (step_move hs).service hok (Run.waiting r) hpl

/-- **The pool is a task service for every context.** What a run shows the context is a trace of the
service: each task that was submitted is with the pool, or finished and waiting, or was taken
by its loop, once for each submission. -/
theorem pool_serves {t : List (Event TaskId)} (h : Shown c t s) : Service.Trace t (s.service c) ∧
    submitted t = fetched t + (s.ctx c).finishedTasks + s.aheadOf c :=
  ⟨h.trace, h.trace.account⟩

end

/-- A pool of two workers, one of which has finished its task, and the loop has taken it. -/
def oneOfTwo : List Act :=
  [.init 2, .create, .submit 0 7 true true, .enqueue 7 0, .submit 0 8 true true, .enqueue 8 0,
    .worker 0 0, .worker 1 0, .worker 1 0, .worker 1 0, .worker 1 0, .worker 1 0, .notifierIo 0,
    .taskDone 0]

/-- The second task is fetched before the first one is finished. -/
theorem pool_serves_two : ∃ s : Pool, s.aheadOf 0 = [7] ∧ (s.ctx 0).finishedTasks = [] ∧
    Service.Trace [.submitted 7, .submitted 8, .fetched [8]] (s.service 0) := by
  have h : Shown 0 ([] ++ [.submitted 7, .submitted 8, .fetched [8]]) _ :=
    Shows.play (l := oneOfTwo) (.init start_init) rfl
  exact ⟨_, rfl, rfl, (pool_serves h).1⟩

end Pandio.Threadpool
