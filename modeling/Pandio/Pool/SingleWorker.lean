import Pandio.Pool.Journey

/- A pool of one worker keeps the order in which tasks are accepted: through the queue,
   the hands of the worker, `finished_tasks` and the local queue of `pd__task_done`. A
   done callback that runs the loop again has a second local queue, which it empties
   before the first one. -/
namespace Pandio.Threadpool

/-! ## What the log shows -/

/-- The tasks that were accepted, started and called done so far, each with its fields. -/
structure Trace where
  /-- The fields with which a task was accepted last. -/
  fields : TaskId → PdTask
  accepted : List (TaskId × PdTask)
  started : List (TaskId × PdTask)
  done : List (TaskId × PdTask)

def Trace.see (t : Trace) : Obs → Trace
  | .accepted k x =>
    { t with fields := Function.update t.fields k x, accepted := t.accepted ++ [(k, x)] }
  | .work k => { t with started := t.started ++ [(k, t.fields k)] }
  | .done k => { t with done := t.done ++ [(k, t.fields k)] }
  | _ => t

def trace (log : List Obs) : Trace := log.foldl Trace.see ⟨fun _ => {}, [], [], []⟩

theorem trace_append (l m : List Obs) : trace (l ++ m) = m.foldl Trace.see (trace l) :=
  List.foldl_append

/-! ## The line -/

/-- The task in the worker's hands. -/
def Point.hands : Point → List TaskId
  | taken k | working k | worked k => [k]
  | _ => []

/-- The same, if its work function was called, or is not set. -/
def Point.begun : Point → List TaskId
  | working k | worked k => [k]
  | _ => []

namespace Pool

variable (s : Pool)

def hands : List TaskId := s.threads.flatMap Point.hands

def begun : List TaskId := s.threads.flatMap Point.begun

/-- The tasks of a context that are worked, and not called done. -/
def line (c : CtxId) : List TaskId :=
  (s.ctx c).drains.flatMap Drain.queue ++ (s.ctx c).finishedTasks

def entry (k : TaskId) : TaskId × PdTask := (k, s.task k)

/-- The task is accepted, and not called done. -/
def Inside (k : TaskId) : Prop := k ∈ s.tasks ∨ k ∈ s.hands ∨ ∃ c, k ∈ s.line c

end Pool

/-- The tasks stand in line in the order in which they were accepted: first those that the worker
has let go, with those of each context in order, then the one in its hands, then the queue. -/
structure InOrder (s : Pool) : Prop where
  one : s.nthreads ≤ 1
  flat : ∀ c, (s.ctx c).drains.length ≤ 1
  known : ∀ k, s.Inside k → (trace s.log).fields k = s.task k
  line : ∃ worked : List (TaskId × PdTask),
    (trace s.log).accepted = worked ++ (s.hands ++ s.tasks).map s.entry ∧
    (trace s.log).started = (worked ++ s.begun.map s.entry).filter (·.2.work) ∧
    ∀ c, ∃ retired, worked.filter (·.2.ctx = c) = retired ++ (s.line c).map s.entry ∧
      (trace s.log).done.filter (·.2.ctx = c) = retired.filter (·.2.done)

section
variable {s s' : Pool} {ts ts' : List Point} {i : Wid} {a b : Point} {k : TaskId}

/-- A worker moves between points with the same task. -/
theorem flatMap_set {f : Point → List TaskId} (h : ts[i]? = some b) (hab : f a = f b) :
    (ts.set i a).flatMap f = ts.flatMap f := by
  induction ts generalizing i with
  | nil => cases h
  | cons p ts ih =>
    cases i with
    | zero =>
      cases h
      rw [List.set_cons_zero, List.flatMap_cons, List.flatMap_cons, hab]
    | succ i =>
      rw [List.set_cons_succ, List.flatMap_cons, List.flatMap_cons, ih h]

theorem Signal.flatMap {f : Point → List TaskId} (h : Signal ts ts') (hf : f .woken = f .asleep) :
    ts'.flatMap f = ts.flatMap f := by
  cases h with
  | woke hj => exact flatMap_set hj hf
  | lost _ => rfl

/-- The only worker. -/
theorem only_worker (hlen : ts.length ≤ 1) (h : ts[i]? = some b) :
    ts = [b] ∧ ts.set i a = [a] := by
  cases ts with
  | nil => cases h
  | cons p ts =>
    have hnil : ts = [] := by simpa using hlen
    subst hnil
    cases i with
    | zero =>
      cases h
      exact ⟨rfl, rfl⟩
    | succ i => cases h

theorem entry_congr (htask : s'.task = s.task) : s'.entry = s.entry := by
  funext k
  rw [Pool.entry, htask]
  rfl

theorem line_congr (hctx : s'.ctx = s.ctx) (c : CtxId) : s'.line c = s.line c := by
  rw [Pool.line, hctx]
  rfl

theorem map_entry {l : List TaskId} (h : ∀ k ∈ l, s'.task k = s.task k) :
    l.map s'.entry = l.map s.entry :=
  List.map_congr_left fun k hk => by rw [Pool.entry, Pool.entry, h k hk]

/-- The line stays as it is. -/
theorem InOrder.same (h : InOrder s) (hn : s'.nthreads ≤ 1)
    (hd : ∀ c, (s'.ctx c).drains.length ≤ 1) (htask : ∀ k, s.Inside k → s'.task k = s.task k)
    (htrace : trace s'.log = trace s.log) (hh : s'.hands = s.hands) (hb : s'.begun = s.begun)
    (ht : s'.tasks = s.tasks) (hl : ∀ c, s'.line c = s.line c) : InOrder s' := by
  have hinside : ∀ k, s'.Inside k → s.Inside k := by
    intro k hk
    simp only [Pool.Inside, hh, ht, hl] at hk
    exact hk
  have hbegun : ∀ k ∈ s.begun, k ∈ s.hands := by
    intro k hk
    obtain ⟨p, hp, hk⟩ := List.mem_flatMap.mp hk
    refine List.mem_flatMap.mpr ⟨p, hp, ?_⟩
    cases p <;> simp_all [Point.begun, Point.hands]
  obtain ⟨worked, hacc, hst, hc⟩ := h.line
  refine ⟨hn, hd, fun k hk => ?_, worked, ?_, ?_, fun c => ?_⟩
  · rw [htrace, htask k (hinside k hk)]
    exact h.known k (hinside k hk)
  · rw [htrace, hh, ht, map_entry fun k hk => htask k ?_]
    · exact hacc
    · rcases List.mem_append.mp hk with hk | hk
      · exact .inr (.inl hk)
      · exact .inl hk
  · rw [htrace, hb, map_entry fun k hk => htask k (.inr (.inl (hbegun k hk)))]
    exact hst
  · rw [htrace, hl, map_entry fun k hk => htask k (.inr (.inr ⟨c, hk⟩))]
    exact hc c

/-- A task that is inside is in one of the places. -/
theorem Pool.Inside.content (h : s.Inside k) : ∃ p, k ∈ s.content p := by
  rcases h with h | h | ⟨c, h⟩
  · exact ⟨.queue, h⟩
  · obtain ⟨p, hp, hk⟩ := List.mem_flatMap.mp h
    obtain ⟨i, hi⟩ := List.getElem?_of_mem hp
    cases p with
    | taken k' => exact ⟨.hands i .taken, by simpa [Pool.content, hi, held, Point.hands] using hk⟩
    | working k' => exact ⟨.hands i .working, by simpa [Pool.content, hi, held, Point.hands] using hk⟩
    | worked k' => exact ⟨.hands i .worked, by simpa [Pool.content, hi, held, Point.hands] using hk⟩
    | _ => cases hk
  · rcases List.mem_append.mp h with h | h
    · exact ⟨.tasksDone c, h⟩
    · exact ⟨.finished c, h⟩

/-- The line of the contexts when one of them has changed. -/
theorem line_update {c d : CtxId} {x : Ctx} (hctx : s'.ctx = Function.update s.ctx c x) :
    s'.line d = if d = c then x.drains.flatMap Drain.queue ++ x.finishedTasks else s.line d := by
  simp only [Pool.line, hctx, Function.update_apply]
  split <;> rfl

end

/-! ## Steps -/

/-- Every pool has one worker. -/
def OneWorker : Act → Prop
  | .init n => n = 1
  | _ => True

/-- No done callback runs the loop of its context. -/
def RunsFlat (s : Pool) : Act → Prop
  | .notifierIo c => (s.ctx c).drains = []
  | _ => True

def SingleWorker (s : Pool) (a : Act) : Prop := OneWorker a ∧ RunsFlat s a

instance : (a : Act) → Decidable (OneWorker a)
  | .init n => inferInstanceAs (Decidable (n = 1))
  | .submit .. | .enqueue .. | .worker .. | .spurious _ | .notifierIo _ | .taskDone _
  | .threadpoolEnd _ | .join | .create => .isTrue trivial

instance (s : Pool) : (a : Act) → Decidable (RunsFlat s a)
  | .notifierIo c => decidable_of_iff ((s.ctx c).drains.length = 0) List.length_eq_zero_iff
  | .submit .. | .enqueue .. | .worker .. | .spurious _ | .taskDone _ | .threadpoolEnd _ | .join
  | .init _ | .create => .isTrue trivial

instance (s : Pool) (a : Act) : Decidable (SingleWorker s a) :=
  inferInstanceAs (Decidable (_ ∧ _))

section
variable {s s' : Pool} {i : Wid} {k : TaskId} {c : CtxId}

/-- A task is accepted at the end of the line. -/
theorem InOrder.accept (h : InOrder s) (hn : s'.nthreads = s.nthreads) (hctx : s'.ctx = s.ctx)
    (htask : s'.task = s.task) (hlog : s'.log = s.log ++ [.muxLock, .accepted k (s.task k)])
    (hh : s'.hands = s.hands) (hb : s'.begun = s.begun) (ht : s'.tasks = s.tasks ++ [k]) :
    InOrder s' := by
  obtain ⟨worked, hacc, hst, hc⟩ := h.line
  have hentry := entry_congr htask
  have hline := line_congr hctx
  have htrace : trace s'.log = { trace s.log with
      fields := Function.update (trace s.log).fields k (s.task k)
      accepted := (trace s.log).accepted ++ [s.entry k] } := by
    rw [hlog, trace_append]
    rfl
  refine ⟨hn ▸ h.one, fun c => hctx ▸ h.flat c, fun k' hk' => ?_, worked, ?_, ?_, fun c => ?_⟩
  · rw [htrace, htask]
    show Function.update (trace s.log).fields k (s.task k) k' = s.task k'
    by_cases hk : k' = k
    · rw [hk, Function.update_self]
    · rw [Function.update_of_ne hk]
      apply h.known
      simp only [Pool.Inside, hh, ht, hline, List.mem_append, List.mem_singleton, hk,
        or_false] at hk'
      simpa [Pool.Inside, Pool.line] using hk'
  · rw [htrace, hentry, hh, ht]
    show _ ++ [s.entry k] = _
    rw [hacc]
    simp only [List.map_append, List.map_cons, List.map_nil, List.append_assoc]
  · rw [htrace, hentry, hb]
    exact hst
  · rw [htrace, hentry, hline]
    exact hc c

/-- The worker takes the first task of the queue. -/
theorem InOrder.take {q : List TaskId} (h : InOrder s) (hn : s'.nthreads = s.nthreads)
    (hctx : s'.ctx = s.ctx) (htask : s'.task = s.task) (htrace : trace s'.log = trace s.log)
    (hq : s.tasks = k :: q) (hh : s.hands = []) (hb : s.begun = []) (hh' : s'.hands = [k])
    (hb' : s'.begun = []) (ht : s'.tasks = q) : InOrder s' := by
  obtain ⟨worked, hacc, hst, hc⟩ := h.line
  have hentry := entry_congr htask
  have hline := line_congr hctx
  refine ⟨hn ▸ h.one, fun c => hctx ▸ h.flat c, fun k' hk' => ?_, worked, ?_, ?_, fun c => ?_⟩
  · rw [htrace, htask]
    apply h.known
    simp only [Pool.Inside, hh', ht, hline, List.mem_singleton] at hk'
    simp only [Pool.Inside, hq, List.mem_cons]
    rcases hk' with hk' | hk' | hk'
    · exact .inl (.inr hk')
    · exact .inl (.inl hk')
    · exact .inr (.inr hk')
  · rw [htrace, hentry, hh', ht, hacc, hh, hq]
    rfl
  · rw [htrace, hentry, hb', hst, hb]
  · rw [htrace, hentry, hline]
    exact hc c

/-- The task in the worker's hands is begun. -/
theorem InOrder.begin {l : List Obs} (h : InOrder s) (hn : s'.nthreads = s.nthreads)
    (hctx : s'.ctx = s.ctx) (htask : s'.task = s.task) (ht : s'.tasks = s.tasks)
    (hlog : s'.log = s.log ++ l) (hl : l = if (s.task k).work then [.work k] else [])
    (hh : s.hands = [k]) (hb : s.begun = []) (hh' : s'.hands = [k]) (hb' : s'.begun = [k]) :
    InOrder s' := by
  obtain ⟨worked, hacc, hst, hc⟩ := h.line
  have hentry := entry_congr htask
  have hline := line_congr hctx
  have hknown : (trace s.log).fields k = s.task k :=
    h.known k (.inr (.inl (by rw [hh]; exact List.mem_singleton_self k)))
  have htrace : trace s'.log = { trace s.log with
      started := (trace s.log).started ++ [s.entry k].filter (·.2.work) } := by
    rw [hlog, trace_append, hl]
    cases hw : (s.task k).work with
    | true => simp [Trace.see, Pool.entry, hw, hknown]
    | false => simp [Pool.entry, hw]
  refine ⟨hn ▸ h.one, fun c => hctx ▸ h.flat c, fun k' hk' => ?_, worked, ?_, ?_, fun c => ?_⟩
  · rw [htrace, htask]
    apply h.known
    simpa only [Pool.Inside, hh', hh, ht, hline] using hk'
  · rw [htrace, hentry, hh', ht, ← hh]
    exact hacc
  · rw [htrace, hentry, hb']
    show _ ++ _ = _
    rw [hst, hb, List.map_nil, List.append_nil, List.map_singleton, ← List.filter_append]
  · rw [htrace, hentry, hline]
    exact hc c

/-- The worker pushes the task in its hands on `finished_tasks`. -/
theorem InOrder.letGo (h : InOrder s) (hn : s'.nthreads = s.nthreads)
    (hctx : s'.ctx = Function.update s.ctx c
      { s.ctx c with finishedTasks := (s.ctx c).finishedTasks ++ [k] })
    (hk : (s.task k).ctx = c) (htask : s'.task = s.task) (ht : s'.tasks = s.tasks)
    (htrace : trace s'.log = trace s.log) (hh : s.hands = [k]) (hb : s.begun = [k])
    (hh' : s'.hands = []) (hb' : s'.begun = []) : InOrder s' := by
  obtain ⟨worked, hacc, hst, hc⟩ := h.line
  have hentry := entry_congr htask
  have hline : ∀ d, s'.line d = s.line d ++ if d = c then [k] else [] := by
    intro d
    rw [line_update hctx]
    split
    · rename_i hd
      rw [hd, Pool.line, List.append_assoc]
    · rw [List.append_nil]
  refine ⟨hn ▸ h.one, fun d => ?_, fun k' hk' => ?_, worked ++ [s.entry k], ?_, ?_, fun d => ?_⟩
  · rw [hctx, Function.update_apply]
    split
    · exact h.flat c
    · exact h.flat d
  · rw [htrace, htask]
    apply h.known
    simp only [Pool.Inside, hh', ht, hline, List.mem_append] at hk'
    simp only [Pool.Inside, hh]
    rcases hk' with hk' | hk' | ⟨d, hk' | hk'⟩
    · exact .inl hk'
    · cases hk'
    · exact .inr (.inr ⟨d, hk'⟩)
    · right
      left
      split at hk'
      · exact hk'
      · cases hk'
  · rw [htrace, hentry, hh', ht, hacc, hh]
    simp
  · rw [htrace, hentry, hb', hst, hb]
    simp
  · obtain ⟨retired, hw, hd⟩ := hc d
    refine ⟨retired, ?_, htrace ▸ hd⟩
    rw [List.filter_append, hw, hentry, hline, List.map_append, List.append_assoc]
    congr 1
    by_cases hdc : d = c
    · simp [Pool.entry, hdc, hk]
    · have hne : ¬ (s.task k).ctx = d := fun he => hdc (he.symm.trans hk)
      simp [Pool.entry, hdc, hne]

/-- A `pd__task_done` pops the first task of its local queue. -/
theorem InOrder.retire {x : Ctx} {q : List TaskId} {l : List Obs} (h : InOrder s)
    (hn : s'.nthreads = s.nthreads) (hctx : s'.ctx = Function.update s.ctx c x)
    (hold : s.line c = k :: q) (hnew : x.drains.flatMap Drain.queue ++ x.finishedTasks = q)
    (hflat : x.drains.length ≤ 1) (htask : s'.task = s.task) (ht : s'.tasks = s.tasks)
    (hts : s'.threads = s.threads) (hlog : s'.log = s.log ++ l)
    (hl : l = .retired k :: if (s.task k).done then [.done k] else []) : InOrder s' := by
  obtain ⟨worked, hacc, hst, hc⟩ := h.line
  have hentry := entry_congr htask
  have hline : ∀ d, s'.line d = if d = c then q else s.line d := by
    intro d
    rw [line_update hctx, hnew]
  have hh : s'.hands = s.hands := by rw [Pool.hands, hts]; rfl
  have hb : s'.begun = s.begun := by rw [Pool.begun, hts]; rfl
  have hknown : (trace s.log).fields k = s.task k :=
    h.known k (.inr (.inr ⟨c, by rw [hold]; exact List.mem_cons_self ..⟩))
  have hkc : (s.task k).ctx = c := by
    obtain ⟨retired, hw, _⟩ := hc c
    have hm : s.entry k ∈ worked.filter (·.2.ctx = c) := by
      rw [hw, hold]
      exact List.mem_append_right _ (List.mem_cons_self ..)
    exact of_decide_eq_true (List.mem_filter.mp hm).2
  have htrace : trace s'.log = { trace s.log with
      done := (trace s.log).done ++ [s.entry k].filter (·.2.done) } := by
    rw [hlog, trace_append, hl]
    cases hd : (s.task k).done with
    | true => simp [Trace.see, Pool.entry, hd, hknown]
    | false => simp [Trace.see, Pool.entry, hd]
  refine ⟨hn ▸ h.one, fun d => ?_, fun k' hk' => ?_, worked, ?_, ?_, fun d => ?_⟩
  · rw [hctx, Function.update_apply]
    split
    · exact hflat
    · exact h.flat d
  · rw [htrace, htask]
    apply h.known
    simp only [Pool.Inside, hh, ht, hline] at hk'
    rcases hk' with hk' | hk' | ⟨d, hk'⟩
    · exact .inl hk'
    · exact .inr (.inl hk')
    · refine .inr (.inr ⟨d, ?_⟩)
      split at hk'
      · rename_i hd
        rw [hd, hold]
        exact List.mem_cons_of_mem _ hk'
      · exact hk'
  · rw [htrace, hentry, hh, ht]
    exact hacc
  · rw [htrace, hentry, hb]
    exact hst
  · obtain ⟨retired, hw, hd⟩ := hc d
    rw [htrace, hentry, hline]
    by_cases hdc : d = c
    · subst hdc
      refine ⟨retired ++ [s.entry k], ?_, ?_⟩
      · rw [hw, hold, if_pos rfl, List.append_assoc]
        rfl
      · show ((trace s.log).done ++ [s.entry k].filter (·.2.done)).filter (·.2.ctx = d) = _
        rw [List.filter_append, List.filter_append, hd]
        congr 1
        cases hd : (s.task k).done <;> simp [Pool.entry, hd, hkc]
    · refine ⟨retired, ?_, ?_⟩
      · rw [hw, if_neg hdc]
      · show ((trace s.log).done ++ [s.entry k].filter (·.2.done)).filter (·.2.ctx = d) = _
        rw [List.filter_append, hd]
        have hne : ¬ c = d := fun he => hdc he.symm
        cases hd : (s.task k).done <;> simp [Pool.entry, hd, hkc, hne]

/-- A context changes, but not its line. -/
theorem InOrder.same_ctx {x : Ctx} {l : List Obs} (h : InOrder s) (hn : s'.nthreads = s.nthreads)
    (hctx : s'.ctx = Function.update s.ctx c x)
    (hline : x.drains.flatMap Drain.queue ++ x.finishedTasks = s.line c)
    (hflat : x.drains.length ≤ 1) (htask : s'.task = s.task) (ht : s'.tasks = s.tasks)
    (hh : s'.hands = s.hands) (hb : s'.begun = s.begun) (hlog : s'.log = s.log ++ l)
    (hl : l = [] ∨ l = [.muxLock]) : InOrder s' := by
  refine h.same (hn ▸ h.one) (fun d => ?_) (fun _ _ => by rw [htask]) ?_ hh hb ht fun d => ?_
  · rw [hctx, Function.update_apply]
    split
    · exact hflat
    · exact h.flat d
  · rw [hlog, trace_append]
    rcases hl with rfl | rfl <;> rfl
  · rw [line_update hctx]
    split
    · rename_i hd
      rw [hline, hd]
    · rfl

/-- **Every step keeps the line in order.** -/
theorem Move.inOrder {act : Act} (m : Move s act s') (hok : SubmitsOnce s act)
    (hsingle : SingleWorker s act) (hw : Waiting s) {pl : TaskId → Option Place} (hpl : Placed s pl)
    (h : InOrder s) : InOrder s' := by
  have hlen : s.threads.length ≤ 1 := hw.length_le.trans h.one
  have only : ∀ {i : Wid} {p a : Point}, s.threads[i]? = some p →
      s.threads = [p] ∧ s.threads.set i a = [a] := fun hi => only_worker hlen hi
  -- the worker has nothing in its hands when it takes the lock
  have empty : ∀ {i : Wid} {n : Nat}, Locks s i n → s.hands = [] ∧ s.begun = [] := by
    intro i n hl
    rcases hl.point with ⟨hi, _⟩ | ⟨hi, _⟩
    · have hts := (only (a := .top) hi).1
      exact ⟨by rw [Pool.hands, hts]; rfl, by rw [Pool.begun, hts]; rfl⟩
    · have hts := (only (a := .top) hi).1
      exact ⟨by rw [Pool.hands, hts]; rfl, by rw [Pool.begun, hts]; rfl⟩
  have at_ : ∀ {i : Wid} {p a : Point} {f : Point → List TaskId}, s.threads[i]? = some p →
      s.threads.flatMap f = f p ∧ (s.threads.set i a).flatMap f = f a := by
    intro i p a f hi
    obtain ⟨h1, h2⟩ := only (a := a) hi
    rw [h2, h1]
    simp
  cases m with
  | refused _ =>
    exact h.same h.one h.flat (fun _ _ => rfl) (trace_append ..) rfl rfl rfl fun _ => rfl
  | @submitted c k work done _ _ =>
    have hctx : ∀ d, (Function.update s.ctx c { s.ctx c with refs := (s.ctx c).refs + 1 } d).drains =
        (s.ctx d).drains ∧ (Function.update s.ctx c { s.ctx c with
          refs := (s.ctx c).refs + 1 } d).finishedTasks = (s.ctx d).finishedTasks := by
      intro d
      rw [Function.update_apply]
      split <;> simp_all
    -- the new task is not in line yet, so no other task's fields change
    refine h.same h.one (fun d => (hctx d).1 ▸ h.flat d) (fun k' hk' => ?_) rfl rfl rfl rfl
      fun d => ?_
    · have hne : k' ≠ k := by
        rintro rfl
        obtain ⟨p, hp⟩ := hk'.content
        have hnone := hpl.pending hok
        rw [hpl.holds.mem.mp hp] at hnone
        cases hnone
      exact Function.update_of_ne hne ..
    · simp only [Pool.line, (hctx d).1, (hctx d).2]
  | @enqueued k j ts _ _ hsig =>
    have hts : ∀ f : Point → List TaskId, f .woken = f .asleep →
        ts.flatMap f = s.threads.flatMap f := by
      intro f hf
      rcases hsig with hsig | ⟨_, rfl⟩
      · exact hsig.flatMap hf
      · rfl
    exact h.accept rfl rfl rfl rfl (hts _ rfl) (hts _ rfl) rfl
  | @slept i j n hl _ _ =>
    obtain ⟨hh, hb⟩ := empty hl
    obtain ⟨b, hi, _, _⟩ := hl.empty
    refine h.same h.one h.flat (fun _ _ => rfl) (trace_append ..) ?_ ?_ rfl fun _ => rfl
    · exact (at_ hi).2.trans hh.symm
    · exact (at_ hi).2.trans hb.symm
  | @exited i j n ts hl _ hsig =>
    obtain ⟨hh, hb⟩ := empty hl
    obtain ⟨b, hi, hne, _⟩ := hl.empty
    have hts : ts.set i .exited = [.exited] :=
      (only_worker (hsig.length ▸ hlen) (hsig.get hi hne)).2
    refine h.same h.one h.flat (fun _ _ => rfl) (trace_append ..) ?_ ?_ rfl fun _ => rfl
    · rw [hh, Pool.hands, hts]
      rfl
    · rw [hb, Pool.begun, hts]
      rfl
  | @popNull i j n hl _ _ hq =>
    obtain ⟨hh, hb⟩ := empty hl
    obtain ⟨b, hi, _, _⟩ := hl.empty
    refine h.same h.one h.flat (fun _ _ => rfl) (trace_append ..) ?_ ?_ hq.symm fun _ => rfl
    · exact (at_ hi).2.trans hh.symm
    · exact (at_ hi).2.trans hb.symm
  | @popped i j n k q hl _ _ hq =>
    obtain ⟨hh, hb⟩ := empty hl
    obtain ⟨b, hi, _, _⟩ := hl.empty
    exact h.take rfl rfl rfl (trace_append ..) hq hh hb (at_ hi).2 (at_ hi).2 rfl
  | @called i j k hi hwork =>
    exact h.begin rfl rfl rfl rfl rfl (by rw [hwork]; rfl) (at_ (a := .top) hi).1
      (at_ (a := .top) hi).1 (at_ hi).2 (at_ hi).2
  | @skipped i j k hi hwork =>
    exact h.begin rfl rfl rfl rfl (List.append_nil _).symm (by rw [hwork]; rfl)
      (at_ (a := .top) hi).1 (at_ (a := .top) hi).1 (at_ hi).2 (at_ hi).2
  | returned hi =>
    refine h.same h.one h.flat (fun _ _ => rfl) (trace_append ..) ?_ ?_ rfl fun _ => rfl
    · exact flatMap_set hi rfl
    · exact flatMap_set hi rfl
  | @pushed i j k c x hi _ hc hx =>
    subst hx
    exact h.letGo rfl rfl hc.symm rfl rfl (trace_append ..) (at_ (a := .top) hi).1
      (at_ (a := .top) hi).1 (at_ hi).2 (at_ hi).2
  | @sent i j k c x hi _ hx =>
    subst hx
    refine h.same_ctx rfl rfl ?_ ?_ rfl rfl (flatMap_set hi rfl) (flatMap_set hi rfl)
      (List.append_nil _).symm (.inl rfl)
    · split <;> rfl
    · split <;> exact h.flat c
  | woke hi =>
    refine h.same h.one h.flat (fun _ _ => rfl) rfl ?_ ?_ rfl fun _ => rfl
    · exact flatMap_set hi rfl
    · exact flatMap_set hi rfl
  | @read c x n hx _ _ =>
    subst hx
    -- no done callback runs the loop: this is the only drain
    have hnil : (s.ctx c).drains = [] := hsingle.2
    refine h.same_ctx rfl rfl ?_ ?_ rfl rfl rfl rfl (List.append_nil _).symm (.inl rfl)
    · rw [Pool.line, hnil]
      rfl
    · rw [hnil]
      exact Nat.le_refl 1
  | @drained c x ds hx _ hd =>
    subst hx
    have hflat := h.flat c
    rw [hd] at hflat
    refine h.same_ctx rfl rfl ?_ hflat rfl rfl rfl rfl rfl (.inr rfl)
    -- the finished tasks become the local queue as they stand
    have hnil : ds = [] := by simpa using hflat
    rw [Pool.line, hd, hnil]
    simp [Drain.queue]
  | @doneCalled c x k q ds hx hd hk | @doneSkipped c x k q ds hx hd hk =>
    subst hx
    have hflat := h.flat c
    rw [hd] at hflat
    refine h.retire (k := k) rfl rfl ?_ rfl hflat rfl rfl rfl rfl (by rw [hk]; rfl)
    rw [Pool.line, hd]
    rfl
  | @doneReturned c x q ds hx hd =>
    subst hx
    have hflat := h.flat c
    rw [hd] at hflat
    refine h.same_ctx rfl rfl ?_ hflat rfl rfl rfl rfl (List.append_nil _).symm (.inl rfl)
    rw [Pool.line, hd]
    rfl
  | @drainReturned c x ds hx hd =>
    subst hx
    have hflat := h.flat c
    rw [hd, List.length_cons] at hflat
    refine h.same_ctx rfl rfl ?_ (show ds.length ≤ 1 by omega) rfl rfl rfl rfl
      (List.append_nil _).symm (.inl rfl)
    rw [Pool.line, hd]
    rfl
  | readNothing _ | endedBefore _ | initBefore _ => exact h
  | ended _ _ _ hsig =>
    exact h.same h.one h.flat (fun _ _ => rfl) (trace_append ..) (hsig.flatMap rfl)
      (hsig.flatMap rfl) rfl fun _ => rfl
  | joined _ hex =>
    have hnil : ∀ f : Point → List TaskId, f .exited = [] → s.threads.flatMap f = [] := by
      intro f hf
      refine List.flatMap_eq_nil_iff.mpr fun p hp => ?_
      rw [hex p hp, hf]
    exact h.same (Nat.zero_le _) h.flat (fun _ _ => rfl) (trace_append ..) (hnil _ rfl).symm
      (hnil _ rfl).symm rfl fun _ => rfl
  | @init n m hn hm =>
    have hm1 : m = 1 := by
      rw [hm, show n = 1 from hsingle.1]
      rfl
    exact h.same hm1.le h.flat (fun _ _ => rfl) rfl rfl rfl rfl fun _ => rfl
  | created hs =>
    have hnil : s.threads = [] := hw.no_threads (.inr hs)
    have hnone : ∀ f : Point → List TaskId, f .top = [] →
        (List.replicate s.nthreads .top).flatMap f = [] := by
      intro f hf
      refine List.flatMap_eq_nil_iff.mpr fun p hp => ?_
      rw [List.eq_of_mem_replicate hp, hf]
    refine h.same h.one h.flat (fun _ _ => rfl) (trace_append ..) ?_ ?_ rfl fun _ => rfl
    · rw [Pool.hands, Pool.hands, hnil]
      exact hnone _ rfl
    · rw [Pool.begun, Pool.begun, hnil]
      exact hnone _ rfl

theorem Run.inOrder (r : Run (fun s a => SubmitsOnce s a ∧ SingleWorker s a) s) : InOrder s := by
  refine r.invariant (fun s h => ?_) fun s a s' r h hok hs => ?_
  · obtain ⟨hctx, hs⟩ := h
    have hdrains : ∀ c, (s.ctx c).drains = [] ∧ s.line c = [] := by
      intro c
      obtain ⟨n, _, hc⟩ := hctx c
      simp [Pool.line, hc]
    refine ⟨?_, fun c => ?_, fun k hk => ?_, [], ?_, ?_, fun c => ⟨[], ?_, ?_⟩⟩
    · rw [hs]
      exact Nat.zero_le 1
    · rw [(hdrains c).1]
      exact Nat.zero_le 1
    · rcases hk with hk | hk | ⟨c, hk⟩
      · rw [hs] at hk
        cases hk
      · rw [hs] at hk
        cases hk
      · rw [(hdrains c).2] at hk
        cases hk
    · rw [hs]
      rfl
    · rw [hs]
      rfl
    · rw [(hdrains c).2]
      rfl
    · rw [hs]
      rfl
  · have r' : Run SubmitsOnce s := r.mono fun _ _ => And.left
    obtain ⟨pl, hpl⟩ := Run.placed r'
    exact (step_move hs).inOrder hok.1 hok.2 (Run.waiting r) hpl h

/-- **With one worker, work starts and tasks are called done in the order of `pd_task_submit`**, in
every run in which no done callback runs the loop of its context. -/
theorem single_worker_order (r : Run (fun s a => SubmitsOnce s a ∧ SingleWorker s a) s) :
    (trace s.log).started <+: (trace s.log).accepted.filter (·.2.work) ∧
    ∀ c, (trace s.log).done.filter (·.2.ctx = c) <+:
      (trace s.log).accepted.filter fun e => e.2.done && e.2.ctx = c := by
  have h := Run.inOrder r
  have hlen : s.threads.length ≤ 1 := (Run.waiting r).length_le.trans h.one
  obtain ⟨worked, hacc, hst, hc⟩ := h.line
  have hbegun : s.begun <+: s.hands := by
    cases hts : s.threads with
    | nil => simp [Pool.begun, hts]
    | cons p ts =>
      have hnil : ts = [] := by simpa [hts] using hlen
      rw [Pool.begun, Pool.hands, hts, hnil]
      cases p <;> simp [Point.begun, Point.hands]
  refine ⟨?_, fun c => ?_⟩
  · have hprefix : s.begun.map s.entry <+: (s.hands ++ s.tasks).map s.entry :=
      (hbegun.trans (List.prefix_append ..)).map _
    rw [hst, hacc]
    exact ((List.prefix_append_right_inj worked).mpr hprefix).filter _
  · obtain ⟨retired, hw, hd⟩ := hc c
    rw [hd, ← List.filter_filter, hacc, List.filter_append, hw, List.append_assoc]
    exact (List.prefix_append ..).filter _

end

/-- Two tasks of one context; the second is submitted by the done callback of the first. -/
theorem single_worker_order_two : ∃ s, Run (fun s a => SubmitsOnce s a ∧ SingleWorker s a) s ∧
    (trace s.log).accepted = [(7, ⟨0, true, true⟩), (8, ⟨0, false, true⟩)] ∧
    (trace s.log).started = [(7, ⟨0, true, true⟩)] ∧
    (trace s.log).started <+: (trace s.log).accepted.filter (·.2.work) := by
  have r : Run (fun s a => SubmitsOnce s a ∧ SingleWorker s a) _ :=
    Machine.Reach.play (.init start_init) (l := [.init 1, .create,
      .submit 0 7 true true, .enqueue 7 0, .worker 0 0, .worker 0 0, .worker 0 0, .worker 0 0, .worker 0 0, .notifierIo 0, .taskDone 0,
      .taskDone 0, .submit 0 8 false true, .enqueue 8 0, .taskDone 0]) rfl
  exact ⟨_, r, rfl, rfl, (single_worker_order r).1⟩

/-- **A done callback that runs the loop overtakes.** Two tasks are finished; the callback of the
first submits a third and runs the loop, which calls it done before the second. -/
theorem not_single_worker_order : ∃ s, Run (fun s a => SubmitsOnce s a ∧ OneWorker a) s ∧
    ¬ (trace s.log).done.filter (·.2.ctx = 0) <+:
      (trace s.log).accepted.filter (fun e => e.2.done && e.2.ctx = 0) := by
  have r : Run (fun s a => SubmitsOnce s a ∧ OneWorker a) _ :=
    Machine.Reach.play (.init start_init) (l := [.init 1, .create,
      .submit 0 7 false true, .enqueue 7 0, .submit 0 8 false true, .enqueue 8 0,
      .worker 0 0, .worker 0 0, .worker 0 0, .worker 0 0,
      .worker 0 0, .worker 0 0, .worker 0 0, .worker 0 0, .notifierIo 0, .taskDone 0, .taskDone 0,
      .submit 0 9 false true, .enqueue 9 0, .worker 0 0, .worker 0 0, .worker 0 0, .worker 0 0,
      .notifierIo 0, .taskDone 0, .taskDone 0]) rfl
  refine ⟨_, r, ?_⟩
  show ¬ [(7, (⟨0, false, true⟩ : PdTask)), (9, ⟨0, false, true⟩)] <+:
    [(7, ⟨0, false, true⟩), (8, ⟨0, false, true⟩), (9, ⟨0, false, true⟩)]
  decide

end Pandio.Threadpool
