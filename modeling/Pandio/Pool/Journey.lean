import Pandio.Lib.Places
import Pandio.Pool.Wakeups

/- The way of a task through the pool: from the call of `pd_task_submit` to the queue,
   to the hands of a worker, to `finished_tasks` of its context, to the local queue of
   a `pd__task_done`, and out. At every moment a task is in one of these places, and
   what the log says of it is that way, as far as it has come. -/
namespace Pandio.Threadpool
open Places

/-! ## Places -/

/-- Before the work function, in it, after it. -/
inductive Stage where
  | taken | working | worked
  deriving DecidableEq

inductive Place where
  /-- a call of `pd_task_submit` that waits for `mux` -/
  | call
  | queue
  | hands (i : Wid) (st : Stage)
  | finished (c : CtxId)
  | tasksDone (c : CtxId)
  deriving DecidableEq

/-- The task that a worker has in its hands at a stage. -/
def held (st : Stage) : Option Point → List TaskId
  | some (.taken k) => if st = .taken then [k] else []
  | some (.working k) => if st = .working then [k] else []
  | some (.worked k) => if st = .worked then [k] else []
  | _ => []

def Pool.content (s : Pool) : Place → List TaskId
  | .call => s.submitting
  | .queue => s.tasks
  | .hands i st => held st s.threads[i]?
  | .finished c => (s.ctx c).finishedTasks
  | .tasksDone c => (s.ctx c).drains.flatMap Drain.queue

/-- How far the pool is with a task. -/
inductive Phase where
  | idle | before | after
  deriving DecidableEq

/-- Nowhere, before the end of the work function, after it. -/
def phaseOf : Option Place → Phase
  | none => .idle
  | some .call | some .queue | some (.hands _ .taken) | some (.hands _ .working) => .before
  | some (.hands _ .worked) | some (.finished _) | some (.tasksDone _) => .after

/-- What a step does to the phase of a task. -/
def Pool.phaseAfter (s : Pool) (k : TaskId) (ph : Phase) : Act → Phase
  | .submit _ k' _ _ => if k' = k ∧ s.abortThreads = false ∧ s.nthreads ≠ 0 then .before else ph
  | .worker i _ =>
    match s.threads[i]? with
    | some (.taken k') => if k' = k ∧ (s.task k).work = false then .after else ph
    | some (.working k') => if k' = k then .after else ph
    | _ => ph
  | .taskDone c =>
    match (s.ctx c).drains with
    | .tasksDone (k' :: _) false :: _ => if k' = k then .idle else ph
    | _ => ph
  | _ => ph

/-! ## What the log says of a task -/

def about (k : TaskId) : Obs → Bool
  | .accepted k' _ | .work k' | .worked k' | .retired k' | .done k' => k' = k
  | _ => false

def entries (k : TaskId) (log : List Obs) : List Obs := log.filter (about k)

/-- The call of the work function and its return, if there is one. -/
def workPart (k : TaskId) (x : PdTask) : List Obs :=
  if x.work then [.work k, .worked k] else []

/-- The whole way of a task. -/
def journey (k : TaskId) (x : PdTask) : List Obs :=
  .accepted k x :: workPart k x ++ .retired k :: if x.done then [.done k] else []

/-- The way of a task up to a place. -/
def begun (k : TaskId) (x : PdTask) : Option Place → List Obs
  | none | some .call => []
  | some .queue | some (.hands _ .taken) => [.accepted k x]
  | some (.hands _ .working) => [.accepted k x, .work k]
  | some (.hands _ .worked) | some (.finished _) | some (.tasksDone _) =>
    .accepted k x :: workPart k x

/-- `pl` says where each task is, and the log has the whole ways before that and the one begun. -/
structure Placed (s : Pool) (pl : TaskId → Option Place) : Prop where
  holds : Holds s.content pl
  own : ∀ k c, pl k = some (.finished c) ∨ pl k = some (.tasksDone c) → c = (s.task k).ctx
  pushed : ∀ (i : Wid) k, s.threads[i]? = some (Point.pushed k) →
    pl k = some (.finished (s.task k).ctx)
  work : ∀ k i, pl k = some (.hands i .working) → (s.task k).work = true
  traced : ∀ k, ∃ past : List PdTask,
    entries k s.log = past.flatMap (journey k) ++ begun k (s.task k) (pl k)

section
variable {s s' : Pool} {pl : TaskId → Option Place} {k : TaskId} {p q : Option Place} {l : List Obs}

theorem entries_append (l m : List Obs) : entries k (l ++ m) = entries k l ++ entries k m :=
  List.filter_append ..

/-- One task moves from `p` to `q`, and `l` is logged. -/
structure Carry (s s' : Pool) (k : TaskId) (p q : Option Place) (l : List Obs) : Prop where
  ne : p ≠ q
  leaves : ∀ c, p ≠ some (.finished c)
  task : ∀ k', k' ≠ k → s'.task k' = s.task k'
  log : s'.log = s.log ++ l
  quiet : ∀ k', k' ≠ k → entries k' l = []
  other : ∀ x, some x ≠ p → some x ≠ q → s'.content x = s.content x
  source : ∀ x, some x = p → s'.content x = (s.content x).erase k
  target : ∀ x, some x = q → s'.content x = s.content x ++ [k]
  pushed : ∀ (i : Wid) k', s'.threads[i]? = some (Point.pushed k') →
    s.threads[i]? = some (Point.pushed k') ∨ k' = k ∧ q = some (.finished (s'.task k).ctx)
  own : ∀ c, q = some (.finished c) ∨ q = some (.tasksDone c) → c = (s'.task k).ctx
  work : ∀ i, q = some (.hands i .working) → (s'.task k).work = true
  trace : ∃ past : List PdTask, begun k (s.task k) p ++ entries k l =
    past.flatMap (journey k) ++ begun k (s'.task k) q

theorem Placed.carry (h : Placed s pl) (c : Carry s s' k (pl k) q l) :
    Placed s' (Function.update pl k q) := by
  have hpl : ∀ k', k' ≠ k → Function.update pl k q k' = pl k' := fun k' hk =>
    Function.update_of_ne hk ..
  refine ⟨h.holds.move rfl c.ne c.other c.source c.target, fun k' d hd => ?_, fun i k' hi => ?_,
    fun k' i hi => ?_, fun k' => ?_⟩
  · by_cases hk : k' = k
    · subst hk
      rw [Function.update_self] at hd
      exact c.own d hd
    · rw [hpl k' hk] at hd
      rw [c.task k' hk]
      exact h.own k' d hd
  · rcases c.pushed i k' hi with hi | ⟨rfl, hq⟩
    · have hk : k' ≠ k := fun hk => c.leaves _ (hk ▸ h.pushed i k' hi)
      rw [hpl k' hk, c.task k' hk]
      exact h.pushed i k' hi
    · rw [Function.update_self, hq]
  · by_cases hk : k' = k
    · subst hk
      rw [Function.update_self] at hi
      exact c.work i hi
    · rw [hpl k' hk] at hi
      rw [c.task k' hk]
      exact h.work k' i hi
  · obtain ⟨past, ht⟩ := h.traced k'
    rw [c.log, entries_append, ht]
    by_cases hk : k' = k
    · subst hk
      obtain ⟨past', hp⟩ := c.trace
      refine ⟨past ++ past', ?_⟩
      rw [Function.update_self, List.append_assoc, hp, List.flatMap_append, List.append_assoc]
    · refine ⟨past, ?_⟩
      rw [hpl k' hk, c.task k' hk, c.quiet k' hk, List.append_nil]

/-- A step that moves no task. -/
theorem Placed.still (h : Placed s pl) (htask : s'.task = s.task) (hlog : s'.log = s.log ++ l)
    (hquiet : ∀ k, entries k l = []) (hcontent : ∀ x, s'.content x = s.content x)
    (hpushed : ∀ (i : Wid) k, s'.threads[i]? = some (Point.pushed k) →
      s.threads[i]? = some (Point.pushed k)) :
    Placed s' pl := by
  refine ⟨h.holds.congr hcontent, ?_, fun i k hi => ?_, ?_, fun k => ?_⟩
  · rw [htask]
    exact h.own
  · rw [htask]
    exact h.pushed i k (hpushed i k hi)
  · rw [htask]
    exact h.work
  · rw [htask, hlog, entries_append, hquiet, List.append_nil]
    exact h.traced k

end

/-! ## Workers' points -/

section
variable {ts ts' : List Point} {i i' : Wid} {a b : Point} {st : Stage}

theorem getElem?_set_of (h : ts[i]? = some b) :
    (ts.set i a)[i']? = if i = i' then some a else ts[i']? := by
  have hlt : i < ts.length := (List.getElem?_eq_some_iff.mp h).1
  rw [List.getElem?_set]
  simp [hlt]

theorem held_set (h : ts[i]? = some b) (hab : held st (some a) = held st (some b)) :
    held st (ts.set i a)[i']? = held st ts[i']? := by
  rw [getElem?_set_of h]
  split
  · rename_i hi
    rw [hab, ← h, hi]
  · rfl

theorem pushed_set {k : TaskId} (h : ts[i]? = some b) (ha : ∀ k, a ≠ .pushed k)
    (hk : (ts.set i a)[i']? = some (.pushed k)) : ts[i']? = some (.pushed k) := by
  rw [getElem?_set_of h] at hk
  split at hk
  · exact absurd (Option.some.inj hk) (ha k)
  · exact hk

theorem Signal.held (h : Signal ts ts') : held st ts'[i]? = held st ts[i]? := by
  cases h with
  | woke hj => exact held_set hj rfl
  | lost _ => rfl

theorem Signal.pushed {k : TaskId} (h : Signal ts ts') (hk : ts'[i]? = some (.pushed k)) :
    ts[i]? = some (.pushed k) := by
  cases h with
  | woke hj => exact pushed_set hj (by simp) hk
  | lost _ => exact hk

end

/-! ## Every move -/

section
variable {s s' : Pool} {pl : TaskId → Option Place} {act : Act} {k : TaskId}

theorem Placed.pending (h : Placed s pl) (hk : s.pending k = false) : pl k = none := by
  simp only [Pool.pending, Bool.or_eq_false_iff, decide_eq_false_iff_not] at hk
  obtain ⟨⟨⟨⟨hcall, hqueue⟩, hhands⟩, hfin⟩, hdone⟩ := hk
  cases hp : pl k with
  | none => rfl
  | some p =>
    have hm : k ∈ s.content p := h.holds.mem.mpr hp
    cases p with
    | call => exact absurd hm hcall
    | queue => exact absurd hm hqueue
    | hands i st =>
      simp only [Pool.content] at hm
      cases hi : s.threads[i]? with
      | none => simp [hi, held] at hm
      | some b =>
        have hb : b ∈ s.threads := List.mem_of_getElem? hi
        simp only [List.any_eq_false, decide_eq_true_eq] at hhands
        have := hhands b hb
        cases b <;> simp [hi, held] at hm this <;> exact absurd hm.2.symm this
    | finished c =>
      rw [h.own k c (.inl hp)] at hm
      exact absurd hm hfin
    | tasksDone c =>
      rw [h.own k c (.inr hp)] at hm
      exact absurd hm hdone

/-- A worker that takes `mux` at the test for tasks has nothing in its hands. -/
theorem Locks.empty {i : Wid} {n : Nat} (h : Locks s i n) :
    ∃ b, s.threads[i]? = some b ∧ b ≠ .asleep ∧ ∀ st, held st (some b) = [] := by
  rcases h.point with ⟨hb, _⟩ | ⟨hb, _⟩
  · exact ⟨_, hb, by decide, fun _ => rfl⟩
  · exact ⟨_, hb, by decide, fun _ => rfl⟩

theorem content_hands {i i' : Wid} {a b : Point} {st : Stage} (hb : s.threads[i]? = some b)
    (hts : s'.threads = s.threads.set i a) :
    s'.content (.hands i' st) = if i = i' then held st (some a) else s.content (.hands i' st) := by
  simp only [Pool.content, hts, getElem?_set_of hb]
  split <;> rfl

/-- Worker `i` moves to another point, and task `k` with it. -/
theorem Carry.worker {i : Wid} {a b : Point} {p q : Option Place} {l : List Obs}
    (hb : s.threads[i]? = some b) (hts : s'.threads = s.threads.set i a)
    (hbk : ∀ j st, p = some (.hands j st) → j = i) (hak : ∀ j st, q = some (.hands j st) → j = i)
    (hheldb : ∀ st, held st (some b) = if p = some (.hands i st) then [k] else [])
    (hhelda : ∀ st, held st (some a) = if q = some (.hands i st) then [k] else [])
    (hother : ∀ x, (∀ j st, x ≠ .hands j st) → some x ≠ p → some x ≠ q →
      s'.content x = s.content x)
    (hsource : ∀ x, (∀ j st, x ≠ .hands j st) → some x = p → s'.content x = (s.content x).erase k)
    (htarget : ∀ x, (∀ j st, x ≠ .hands j st) → some x = q → s'.content x = s.content x ++ [k])
    (hpq : p ≠ q) (hleaves : ∀ c, p ≠ some (.finished c)) (htask : s'.task = s.task)
    (hlog : s'.log = s.log ++ l) (hquiet : ∀ k', k' ≠ k → entries k' l = [])
    (hpushed : ∀ k', a = .pushed k' → k' = k ∧ q = some (.finished (s'.task k).ctx))
    (hown : ∀ c, q = some (.finished c) ∨ q = some (.tasksDone c) → c = (s'.task k).ctx)
    (hwork : ∀ i, q = some (.hands i .working) → (s'.task k).work = true)
    (htrace : ∃ past : List PdTask, begun k (s.task k) p ++ entries k l =
      past.flatMap (journey k) ++ begun k (s'.task k) q) : Carry s s' k p q l := by
  -- the places of the workers
  have hands : ∀ j st, s'.content (.hands j st) =
      if i = j then (if q = some (.hands i st) then [k] else []) else s.content (.hands j st) := by
    intro j st
    rw [content_hands hb hts, hhelda]
  have hands_i : ∀ st, s.content (.hands i st) = if p = some (.hands i st) then [k] else [] := by
    intro st
    rw [← hheldb, Pool.content, hb]
  refine ⟨hpq, hleaves, fun k' _ => by rw [htask], hlog, hquiet, ?_, ?_, ?_, ?_, hown, hwork, htrace⟩
  · intro x hp hq
    cases x with
    | hands j st =>
      rw [hands]
      split
      · rename_i hi
        subst hi
        rw [hands_i, if_neg (Ne.symm hp), if_neg (Ne.symm hq)]
      · rfl
    | _ => exact hother _ (by simp) hp hq
  · intro x hp
    cases x with
    | hands j st =>
      have hi := hbk j st hp.symm
      subst hi
      rw [hands, if_pos rfl, hands_i, if_pos hp.symm, if_neg fun hq => hpq (hp.symm.trans hq.symm)]
      simp
    | _ => exact hsource _ (by simp) hp
  · intro x hq
    cases x with
    | hands j st =>
      have hi := hak j st hq.symm
      subst hi
      rw [hands, if_pos rfl, hands_i, if_pos hq.symm, if_neg fun hp => hpq (hp.trans hq)]
      rfl
    | _ => exact htarget _ (by simp) hq
  · intro j k' hk'
    rw [hts, getElem?_set_of hb] at hk'
    split at hk'
    · exact .inr (hpushed k' (Option.some.inj hk'))
    · exact .inl hk'

/-- Worker `i` goes on with the task in its hands. -/
theorem Carry.stage {i : Wid} {a b : Point} {st st' : Stage} {l : List Obs}
    (hb : s.threads[i]? = some b) (hts : s'.threads = s.threads.set i a) (hst : st ≠ st')
    (hheldb : ∀ x, held x (some b) = if st = x then [k] else [])
    (hhelda : ∀ x, held x (some a) = if st' = x then [k] else [])
    (hother : ∀ x, (∀ j st, x ≠ .hands j st) → s'.content x = s.content x)
    (ha : ∀ k, a ≠ .pushed k) (htask : s'.task = s.task) (hlog : s'.log = s.log ++ l)
    (hquiet : ∀ k', k' ≠ k → entries k' l = []) (hwork : st' = .working → (s'.task k).work = true)
    (htrace : ∃ past : List PdTask, begun k (s.task k) (some (.hands i st)) ++ entries k l =
      past.flatMap (journey k) ++ begun k (s'.task k) (some (.hands i st'))) :
    Carry s s' k (some (.hands i st)) (some (.hands i st')) l := by
  refine Carry.worker hb hts (fun j _ h => ?_) (fun j _ h => ?_) (fun x => ?_) (fun x => ?_)
    (fun x hx _ _ => hother x hx) (fun x hx h => ?_) (fun x hx h => ?_) (by simpa using hst)
    (by simp) htask hlog hquiet (fun k' h => absurd h (ha k')) (by simp) (fun j h => ?_) htrace
  · cases h
    rfl
  · cases h
    rfl
  · simpa using hheldb x
  · simpa using hhelda x
  · cases h
    exact absurd rfl (hx i st)
  · cases h
    exact absurd rfl (hx i st')
  · cases h
    exact hwork rfl

/-- A context changes, but not in its queues. -/
theorem content_ctx {c d : CtxId} {x : Ctx} (hctx : s'.ctx = Function.update s.ctx c x)
    (hfin : x.finishedTasks = (s.ctx c).finishedTasks)
    (hdone : x.drains.flatMap Drain.queue = (s.ctx c).drains.flatMap Drain.queue) :
    s'.content (.finished d) = s.content (.finished d) ∧
      s'.content (.tasksDone d) = s.content (.tasksDone d) := by
  simp only [Pool.content, hctx, Function.update_apply]
  split
  · rename_i hd
    rw [hd]
    exact ⟨hfin, hdone⟩
  · exact ⟨rfl, rfl⟩

theorem Placed.still_ctx {c : CtxId} {x : Ctx} (h : Placed s pl)
    (hfin : x.finishedTasks = (s.ctx c).finishedTasks)
    (hdone : x.drains.flatMap Drain.queue = (s.ctx c).drains.flatMap Drain.queue) :
    Placed { s with ctx := Function.update s.ctx c x } pl := by
  refine h.still (l := []) rfl (List.append_nil _).symm (fun _ => rfl) (fun y => ?_) fun _ _ => id
  cases y with
  | finished d => exact (content_ctx rfl hfin hdone).1
  | tasksDone d => exact (content_ctx rfl hfin hdone).2
  | _ => rfl

/-- A `pd__task_done` pops a task from its local queue. -/
theorem Carry.retire {c : CtxId} {x : Ctx} {r : List TaskId} {l : List Obs}
    (hctx : s'.ctx = Function.update s.ctx c x) (hfin : x.finishedTasks = (s.ctx c).finishedTasks)
    (hold : (s.ctx c).drains.flatMap Drain.queue = k :: r)
    (hnew : x.drains.flatMap Drain.queue = r) (hsub : s'.submitting = s.submitting)
    (htasks : s'.tasks = s.tasks) (hts : s'.threads = s.threads) (htask : s'.task = s.task)
    (hlog : s'.log = s.log ++ l) (hl : l = .retired k :: if (s.task k).done then [.done k] else []) :
    Carry s s' k (some (.tasksDone c)) none l where
  ne := by simp
  leaves := by simp
  task := fun _ _ => by rw [htask]
  log := hlog
  quiet := fun k' hk' => by
    rw [hl]
    split <;> simp [entries, about, hk'.symm]
  other := fun y hp _ => by
    cases y with
    | call => exact hsub
    | queue => exact htasks
    | hands i st => simp only [Pool.content, hts]
    | finished d =>
      simp only [Pool.content, hctx, Function.update_apply]
      split
      · rename_i hd
        rw [hd]
        exact hfin
      · rfl
    | tasksDone d =>
      have hd : d ≠ c := fun hd => hp (by rw [hd])
      simp only [Pool.content, hctx, Function.update_of_ne hd]
  source := fun y hy => by
    cases hy
    simp only [Pool.content, hctx, Function.update_self, hold, hnew, List.erase_cons_head]
  target := by simp
  pushed := fun i k' hi => .inl (hts ▸ hi)
  own := by simp
  work := by simp
  trace := by
    refine ⟨[s.task k], ?_⟩
    rw [hl]
    by_cases hd : (s.task k).done = true
    · simp [begun, journey, entries, about, hd]
    · simp [begun, journey, entries, about, hd]

/-- A `pd__task_done` takes `finished_tasks`. -/
theorem Placed.drain {c : CtxId} {x : Ctx} {ds : List Drain} (h : Placed s pl)
    (hf : s.muxFree = true) (hd : (s.ctx c).drains = .signaled :: ds)
    (hs' : s' = { s with
      ctx := Function.update s.ctx c x, log := s.log ++ [.muxLock] })
    (hfin : x.finishedTasks = [])
    (hdone : x.drains = .tasksDone (s.ctx c).finishedTasks false :: ds) :
    ∃ pl', Placed s' pl' ∧ ∀ k, phaseOf (pl' k) = s.phaseAfter k (phaseOf (pl k)) (.taskDone c) := by
  subst hs'
  have hbegun : ∀ k, begun k (s.task k)
      (if pl k = some (.finished c) then some (.tasksDone c) else pl k) =
        begun k (s.task k) (pl k) := by
    intro k
    split
    · rename_i hk
      rw [hk]
      rfl
    · rfl
  refine ⟨_, ⟨h.holds.moveAll (p := .finished c) (q := .tasksDone c) (by simp) (fun y hp hq => ?_)
    ?_ ?_, fun k d hk => ?_, fun i k hi => ?_, fun k i hk => ?_, fun k => ?_⟩, fun k => ?_⟩
  · cases y with
    | finished d | tasksDone d =>
      have hdc : d ≠ c := by
        rintro rfl
        contradiction
      simp only [Pool.content, Function.update_of_ne hdc]
    | _ => rfl
  · simp only [Pool.content, Function.update_self, hfin]
  · simp [Pool.content, Function.update_self, hdone, hd, Drain.queue]
  · split at hk
    · rename_i hc
      rcases hk with hk | hk
      · cases hk
      · cases hk
        exact h.own k c (.inl hc)
    · exact h.own k d hk
  · -- no worker is between the push and the notification
    have hmem : Point.pushed k ∈ s.threads := List.mem_of_getElem? hi
    simp only [Pool.muxFree, List.all_eq_true] at hf
    exact absurd (hf _ hmem) (by simp)
  · split at hk
    · cases hk
    · exact h.work k i hk
  · obtain ⟨past, ht⟩ := h.traced k
    refine ⟨past, ?_⟩
    simp only [hbegun]
    rw [entries_append, ht]
    simp [entries, about]
  · simp only [Pool.phaseAfter, hd]
    split
    · rename_i hk
      rw [hk]
      rfl
    · rfl

/-- One task goes on, and with it its phase. -/
theorem phase_update {q : Option Place} {g : TaskId → Phase} (hself : phaseOf q = g k)
    (hother : ∀ k', k' ≠ k → phaseOf (pl k') = g k') (k' : TaskId) :
    phaseOf (Function.update pl k q k') = g k' := by
  by_cases hk : k' = k
  · rw [hk, Function.update_self, hself]
  · rw [Function.update_of_ne hk, hother k' hk]

/-- The task in a worker's hands goes on to its next stage. -/
theorem Placed.goesOn {i j : Wid} {a b : Point} (h : Placed s pl) (st st' : Stage) (l : List Obs)
    (hb : s.threads[i]? = some b)
    (hs' : s' = { s with threads := s.threads.set i a, log := s.log ++ l }) (hst : st ≠ st')
    (hheldb : ∀ x, held x (some b) = if st = x then [k] else [])
    (hhelda : ∀ x, held x (some a) = if st' = x then [k] else []) (ha : ∀ k, a ≠ .pushed k)
    (hquiet : ∀ k', k' ≠ k → entries k' l = [])
    (hwork : st' = .working → (s.task k).work = true)
    (htrace : pl k = some (.hands i st) → begun k (s.task k) (some (.hands i st)) ++ entries k l =
      begun k (s.task k) (some (.hands i st')))
    (hself : pl k = some (.hands i st) →
      phaseOf (some (.hands i st')) = s.phaseAfter k (phaseOf (pl k)) (.worker i j))
    (hother : ∀ k', k' ≠ k → phaseOf (pl k') = s.phaseAfter k' (phaseOf (pl k')) (.worker i j)) :
    ∃ pl', Placed s' pl' ∧
      ∀ k', phaseOf (pl' k') = s.phaseAfter k' (phaseOf (pl k')) (.worker i j) := by
  subst hs'
  have hp : pl k = some (.hands i st) := h.holds.mem.mp (by simp [Pool.content, hb, hheldb])
  refine ⟨_, h.carry (k := k) (q := some (.hands i st')) (l := l) ?_, phase_update (hself hp) hother⟩
  rw [hp]
  refine Carry.stage hb rfl hst hheldb hhelda (fun x hx => ?_) ha rfl rfl hquiet hwork
    ⟨[], htrace hp⟩
  cases x with
  | hands j st => exact absurd rfl (hx j st)
  | _ => rfl

/-- A `pd__task_done` is through with a task. -/
theorem Placed.retire {c : CtxId} {x : Ctx} {r : List TaskId} {ds : List Drain} {b : Bool}
    {l : List Obs} (h : Placed s pl) (hd : (s.ctx c).drains = .tasksDone (k :: r) false :: ds)
    (hs' : s' = { s with ctx := Function.update s.ctx c x, log := s.log ++ l })
    (hfin : x.finishedTasks = (s.ctx c).finishedTasks) (hx : x.drains = .tasksDone r b :: ds)
    (hl : l = .retired k :: if (s.task k).done then [.done k] else []) :
    ∃ pl', Placed s' pl' ∧ ∀ k', phaseOf (pl' k') = s.phaseAfter k' (phaseOf (pl k')) (.taskDone c) := by
  subst hs'
  have hp : pl k = some (.tasksDone c) := h.holds.mem.mp (by simp [Pool.content, hd, Drain.queue])
  refine ⟨_, h.carry (k := k) (q := none) (l := l) ?_, phase_update ?_ fun k' hk' => ?_⟩
  · rw [hp]
    exact Carry.retire rfl hfin (by rw [hd]; rfl) (by rw [hx]; rfl) rfl rfl rfl rfl rfl hl
  · simp [Pool.phaseAfter, hd, phaseOf]
  · simp [Pool.phaseAfter, hd, Ne.symm hk']

theorem Locks.phaseAfter {i j : Wid} {n : Nat} (h : Locks s i n) (ph : Phase) :
    s.phaseAfter k ph (.worker i j) = ph := by
  rcases h.point with ⟨hb, _⟩ | ⟨hb, _⟩ <;> simp [Pool.phaseAfter, hb]

theorem Move.placed (m : Move s act s') (hok : SubmitsOnce s act) (hw : Waiting s) (hc : Counted s)
    (h : Placed s pl) :
    ∃ pl', Placed s' pl' ∧ ∀ k, phaseOf (pl' k) = s.phaseAfter k (phaseOf (pl k)) act := by
  have at_ : ∀ {k p}, k ∈ s.content p → pl k = some p := h.holds.mem.mp
  cases m with
  | refused hr =>
    refine ⟨pl, h.still rfl rfl (fun _ => rfl) (fun x => by cases x <;> rfl) fun _ _ => id,
      fun k => ?_⟩
    rcases hr with hr | hr <;> simp [Pool.phaseAfter, hr]
  | @submitted c k work done ha hn =>
    refine ⟨_, h.carry (k := k) (q := some .call) (l := []) ?_, phase_update ?_ fun k' hk' => ?_⟩
    rotate_left
    · simp [Pool.phaseAfter, phaseOf, ha, hn]
    · simp [Pool.phaseAfter, Ne.symm hk']
    rw [h.pending hok]
    exact {
      ne := by simp
      leaves := by simp
      task := fun k' hk' => Function.update_of_ne hk' ..
      log := (List.append_nil _).symm
      quiet := fun _ _ => rfl
      other := fun x _ hx => by
        cases x with
        | call => exact absurd rfl hx
        | finished d | tasksDone d => simp only [Pool.content, Function.update_apply]; split <;> simp_all
        | _ => rfl
      source := by simp
      target := fun x hx => by cases hx; rfl
      pushed := fun _ _ => .inl
      own := by simp
      work := by simp
      trace := ⟨[], rfl⟩ }
  | @enqueued k j ts hk hf hsig =>
    -- from the call of `pd_task_submit` to the queue
    have hp : pl k = some .call := at_ hk
    refine ⟨_, h.carry (k := k) (q := some .queue) (l := [.muxLock, .accepted k (s.task k)]) ?_,
      phase_update (by rw [hp]; rfl) fun _ _ => rfl⟩
    rw [hp]
    exact {
      ne := by simp
      leaves := by simp
      task := fun _ _ => rfl
      log := rfl
      quiet := fun k' hk' => by simp [entries, about, hk'.symm]
      other := fun x hp hq => by
        cases x with
        | call => exact absurd rfl hp
        | queue => exact absurd rfl hq
        | hands i st =>
          rcases hsig with hsig | ⟨_, rfl⟩
          · exact hsig.held
          · rfl
        | _ => rfl
      source := fun x hx => by cases hx; rfl
      target := fun x hx => by cases hx; rfl
      pushed := fun i k' hi => by
        rcases hsig with hsig | ⟨_, rfl⟩
        · exact .inl (hsig.pushed hi)
        · exact .inl hi
      own := by simp
      work := by simp
      trace := ⟨[], by simp [begun, entries, about]⟩ }
  | @slept i j n hl _ _ =>
    obtain ⟨b, hb, hne, hnil⟩ := hl.empty
    refine ⟨pl, h.still rfl rfl (fun _ => rfl) (fun x => ?_) fun i' k => pushed_set hb (by simp),
      fun k => (hl.phaseAfter _).symm⟩
    cases x with
    | hands i' st => exact held_set hb (hnil st).symm
    | _ => rfl
  | @exited i j n ts hl _ hsig =>
    obtain ⟨b, hb, hne, hnil⟩ := hl.empty
    refine ⟨pl, h.still rfl rfl (fun _ => rfl) (fun x => ?_) fun i' k hk => ?_,
      fun k => (hl.phaseAfter _).symm⟩
    · cases x with
      | hands i' st => exact (held_set (a := .exited) (hsig.get hb hne) (hnil st).symm).trans hsig.held
      | _ => rfl
    · exact hsig.pushed (pushed_set (hsig.get hb hne) (by simp) hk)
  | popNull _ h0 _ hq =>
    -- `ntasks` counts the queue, so it is not empty here
    have := hc.ntasks
    rw [hq] at this
    exact absurd this h0
  | @popped i j n k q hl _ _ hq =>
    obtain ⟨b, hb, hne, hnil⟩ := hl.empty
    -- from the queue to the worker's hands
    have hp : pl k = some .queue := at_ (by simp [Pool.content, hq])
    refine ⟨_, h.carry (k := k) (q := some (.hands i .taken)) (l := [.muxLock]) ?_,
      phase_update (by rw [hp, hl.phaseAfter]; rfl) fun _ _ => (hl.phaseAfter _).symm⟩
    rw [hp]
    refine Carry.worker hb rfl (by simp) (by simp) (by simpa using hnil)
      (fun st => by cases st <;> simp [held]) (fun x hx hp _ => ?_) (fun x _ hp => ?_)
      (fun x hx hq => ?_) (by simp) (by simp) rfl rfl (fun _ _ => rfl) (by simp) (by simp) (by simp)
      ⟨[], by simp [begun, entries, about]⟩
    · cases x with
      | queue => exact absurd rfl hp
      | hands i' st => exact absurd rfl (hx i' st)
      | _ => rfl
    · cases hp
      simp [Pool.content, hq]
    · cases hq
      exact absurd rfl (hx i .taken)
  | @called i j k hk hwork =>
    refine h.goesOn .taken .working _ hk rfl (by simp) (fun st => by cases st <;> rfl)
      (fun st => by cases st <;> rfl) (by simp) (fun k' hk' => by simp [entries, about, hk'.symm])
      (fun _ => hwork) (fun _ => by simp [begun, entries, about]) (fun hp => ?_) fun k' hk' => ?_
    · simp [Pool.phaseAfter, hk, hwork, hp, phaseOf]
    · simp [Pool.phaseAfter, hk, Ne.symm hk']
  | @skipped i j k hk hwork =>
    refine h.goesOn .taken .worked [] hk (by rw [List.append_nil]) (by simp)
      (fun st => by cases st <;> rfl) (fun st => by cases st <;> rfl) (by simp) (fun _ _ => rfl)
      (by simp) (fun _ => by simp [begun, entries, workPart, hwork]) (fun _ => ?_) fun k' hk' => ?_
    · simp [Pool.phaseAfter, hk, hwork, phaseOf]
    · simp [Pool.phaseAfter, hk, Ne.symm hk']
  | @returned i j k hk =>
    refine h.goesOn .working .worked _ hk rfl (by simp)
      (fun st => by cases st <;> rfl) (fun st => by cases st <;> rfl) (by simp)
      (fun k' hk' => by simp [entries, about, hk'.symm]) (by simp)
      (fun hp => by simp [begun, entries, about, workPart, h.work k i hp]) (fun _ => ?_)
      fun k' hk' => ?_
    · simp [Pool.phaseAfter, hk, phaseOf]
    · simp [Pool.phaseAfter, hk, Ne.symm hk']
  | @pushed i j k c x hk hf hc hx =>
    subst hx
    -- from the worker's hands to the finished tasks
    have hp : pl k = some (.hands i .worked) := at_ (by simp [Pool.content, hk, held])
    refine ⟨_, h.carry (k := k) (q := some (.finished c)) (l := [.muxLock]) ?_,
      phase_update ?_ fun _ _ => ?_⟩
    rotate_left
    · simp [Pool.phaseAfter, hk, hp, phaseOf]
    · simp [Pool.phaseAfter, hk]
    rw [hp]
    refine Carry.worker hk rfl (fun j _ h => by cases h; rfl) (by simp)
      (fun st => by cases st <;> simp [held]) (fun st => by simp [held]) (fun x hx _ hq => ?_)
      (fun x hx h => ?_) (fun x hx h => ?_) (by simp) (by simp) rfl rfl (fun _ _ => rfl)
      (fun k' h => ?_) (fun d h => ?_) (by simp) ⟨[], by simp [begun, entries, about]⟩
    · cases x with
      | hands j st => exact absurd rfl (hx j st)
      | finished d | tasksDone d =>
        simp only [Pool.content, Function.update_apply]
        split <;> simp_all
      | _ => rfl
    · cases h
      exact absurd rfl (hx i .worked)
    · cases h
      simp [Pool.content]
    · cases h
      exact ⟨rfl, by rw [hc]⟩
    · rcases h with h | h
      · cases h
        exact hc
      · cases h
  | @sent i j k c x hk hc hx =>
    subst hx
    refine ⟨pl, h.still (l := []) rfl (List.append_nil _).symm (fun _ => rfl) (fun x => ?_)
      fun i' k => pushed_set hk (by simp), fun _ => by simp [Pool.phaseAfter, hk]⟩
    cases x with
    | hands i' st => exact held_set hk rfl
    | finished d => exact (content_ctx rfl (by split <;> rfl) (by split <;> rfl)).1
    | tasksDone d => exact (content_ctx rfl (by split <;> rfl) (by split <;> rfl)).2
    | _ => rfl
  | @woke i hi =>
    refine ⟨pl, h.still (l := []) rfl (List.append_nil _).symm (fun _ => rfl) (fun x => ?_)
      fun i' k => pushed_set hi (by simp), fun _ => rfl⟩
    cases x with
    | hands i' st => exact held_set hi rfl
    | _ => rfl
  | read hx _ _ =>
    subst hx
    exact ⟨pl, h.still_ctx rfl rfl, fun _ => rfl⟩
  | doneReturned hx hd | drainReturned hx hd =>
    subst hx
    exact ⟨pl, h.still_ctx rfl (by simp [hd, Drain.queue]), fun _ => by simp [Pool.phaseAfter, hd]⟩
  | @drained c x ds hx hf hd =>
    subst hx
    exact h.drain hf hd rfl rfl rfl
  | doneCalled hx hd hk | doneSkipped hx hd hk =>
    subst hx
    exact h.retire hd rfl rfl rfl (by rw [hk]; rfl)
  | readNothing _ | endedBefore _ | initBefore _ => exact ⟨pl, h, fun _ => rfl⟩
  | ended _ _ _ hsig =>
    refine ⟨pl, h.still rfl rfl (fun _ => rfl) (fun x => ?_) fun _ _ => hsig.pushed, fun _ => rfl⟩
    cases x with
    | hands i st => exact hsig.held
    | _ => rfl
  | joined _ hex =>
    refine ⟨pl, h.still rfl rfl (fun _ => rfl) (fun x => ?_) (by simp), fun _ => rfl⟩
    cases x with
    | hands i st =>
      simp only [Pool.content]
      cases hi : s.threads[i]? with
      | none => rfl
      | some p => rw [hex p (List.mem_of_getElem? hi)]; rfl
    | _ => rfl
  | init _ _ =>
    refine ⟨pl, h.still (l := []) rfl (List.append_nil _).symm (fun _ => rfl) (fun x => ?_)
      fun _ _ => id, fun _ => rfl⟩
    cases x <;> rfl
  | created hs =>
    have hnil : s.threads = [] := hw.no_threads (.inr hs)
    refine ⟨pl, h.still rfl rfl (fun _ => rfl) (fun x => ?_) fun i k hi => ?_, fun _ => rfl⟩
    · cases x with
      | hands i st =>
        simp only [Pool.content, hnil, List.getElem?_replicate]
        split <;> rfl
      | _ => rfl
    · rw [List.getElem?_replicate] at hi
      split at hi <;> cases hi

theorem Run.placed (r : Run SubmitsOnce s) : ∃ pl, Placed s pl := by
  refine r.invariant (P := fun s => ∃ pl, Placed s pl) (fun s h => ?_) fun s a s' r h hok hs => ?_
  · obtain ⟨hctx, hs⟩ := h
    have hcontent : ∀ x, s.content x = [] := by
      intro x
      cases x with
      | finished c | tasksDone c =>
        obtain ⟨n, _, hn⟩ := hctx c
        simp [Pool.content, hn]
      | _ => rw [hs]; rfl
    refine ⟨fun _ => none, holds_nil.congr hcontent, by simp, fun i k hi => ?_, by simp, fun k => ?_⟩
    · rw [hs] at hi
      cases hi
    · refine ⟨[], ?_⟩
      rw [hs]
      rfl
  · obtain ⟨pl, h⟩ := h
    obtain ⟨pl', h', _⟩ := (step_move hs).placed hok (Run.waiting r) (Run.counted r) h
    exact ⟨pl', h'⟩

end

/-! ## One place at every moment -/

/-- Where a task is that was accepted. -/
inductive Spot where
  | queue
  | hands (i : Wid)
  | finished (c : CtxId)
  | tasksDone (c : CtxId)
  | done

/-- How often `pd_task_submit` has accepted the task. -/
def accepts (k : TaskId) (log : List Obs) : Nat :=
  log.countP fun o => match o with | .accepted k' _ => k' = k | _ => false

/-- A task is done when `pd__task_done` has popped it as often as it was accepted. -/
def Pool.isAt (s : Pool) (k : TaskId) : Spot → Prop
  | .queue => k ∈ s.tasks
  | .hands i => s.threads[i]? ∈ [some (.taken k), some (.working k), some (.worked k)]
  | .finished c => k ∈ (s.ctx c).finishedTasks
  | .tasksDone c => k ∈ (s.ctx c).drains.flatMap Drain.queue
  | .done => s.log.count (.retired k) = accepts k s.log

section
variable {s : Pool} {pl : TaskId → Option Place} {k : TaskId}

theorem begun_prefix (x : PdTask) (p : Option Place)
    (hw : ∀ i, p = some (.hands i .working) → x.work = true) : begun k x p <+: journey k x := by
  unfold begun
  split
  · exact List.nil_prefix
  · exact List.nil_prefix
  · exact ⟨_, rfl⟩
  · exact ⟨_, rfl⟩
  · rename_i i
    simp [journey, workPart, hw i rfl]
  all_goals exact List.prefix_append ..

theorem accepts_append (l m : List Obs) : accepts k (l ++ m) = accepts k l + accepts k m :=
  List.countP_append ..

/-- What is counted is among the entries of the task. -/
theorem counts_entries (l : List Obs) :
    accepts k (entries k l) = accepts k l ∧ (entries k l).count (.retired k) = l.count (.retired k) := by
  constructor
  · unfold accepts entries
    rw [List.countP_filter]
    refine List.countP_congr fun o _ => ?_
    cases o <;> simp [about]
  · exact List.count_filter (by simp [about])

theorem counts_journeys (past : List PdTask) :
    accepts k (past.flatMap (journey k)) = past.length ∧
      (past.flatMap (journey k)).count (.retired k) = past.length := by
  induction past with
  | nil => exact ⟨rfl, rfl⟩
  | cons x past ih =>
    have hx : accepts k (journey k x) = 1 ∧ (journey k x).count (.retired k) = 1 := by
      unfold journey workPart
      cases x.work <;> cases x.done <;> simp [accepts]
    rw [List.flatMap_cons, accepts_append, List.count_append, hx.1, hx.2, ih.1, ih.2,
      List.length_cons]
    omega

/-- Every task but one that is nowhere, or in a call, was accepted once more than it was popped. -/
theorem Placed.counts (h : Placed s pl) : accepts k s.log =
    s.log.count (.retired k) + if pl k = none ∨ pl k = some .call then 0 else 1 := by
  obtain ⟨past, ht⟩ := h.traced k
  have hbegun : accepts k (begun k (s.task k) (pl k)) =
      (if pl k = none ∨ pl k = some .call then 0 else 1) ∧
      (begun k (s.task k) (pl k)).count (.retired k) = 0 := by
    unfold begun workPart
    split <;> cases (s.task k).work <;> simp_all [accepts]
  have hl := counts_entries (k := k) s.log
  have hp := counts_journeys (k := k) past
  rw [ht, accepts_append, List.count_append, hp.1, hp.2, hbegun.1, hbegun.2] at hl
  omega

/-- Where a task is that was accepted, by its place. -/
def spotOf : Option Place → Spot
  | none | some .call => .done
  | some .queue => .queue
  | some (.hands i _) => .hands i
  | some (.finished c) => .finished c
  | some (.tasksDone c) => .tasksDone c

theorem mem_hands {i : Wid} : s.isAt k (.hands i) ↔ ∃ st, k ∈ s.content (.hands i st) := by
  simp only [Pool.isAt, Pool.content]
  constructor
  · intro hm
    simp only [List.mem_cons, List.not_mem_nil, or_false] at hm
    rcases hm with hm | hm | hm
    · exact ⟨.taken, by simp [hm, held]⟩
    · exact ⟨.working, by simp [hm, held]⟩
    · exact ⟨.worked, by simp [hm, held]⟩
  · rintro ⟨st, hm⟩
    unfold held at hm
    split at hm <;> simp_all

theorem Placed.isAt_iff (h : Placed s pl) (p : Spot) : s.isAt k p ↔ p = spotOf (pl k) := by
  have hspot : ∀ {x : Place}, k ∈ s.content x ↔ pl k = some x := h.holds.mem
  cases p with
  | queue =>
    refine (hspot (x := .queue)).trans ?_
    cases hp : pl k with
    | none => simp [spotOf]
    | some x => cases x <;> simp [spotOf]
  | hands i =>
    rw [mem_hands]
    simp only [hspot]
    cases hp : pl k with
    | none => simp [spotOf]
    | some x => cases x <;> simp [spotOf, eq_comm]
  | finished c =>
    refine (hspot (x := .finished c)).trans ?_
    cases hp : pl k with
    | none => simp [spotOf]
    | some x => cases x <;> simp [spotOf, eq_comm]
  | tasksDone c =>
    refine (hspot (x := .tasksDone c)).trans ?_
    cases hp : pl k with
    | none => simp [spotOf]
    | some x => cases x <;> simp [spotOf, eq_comm]
  | done =>
    have hc := h.counts (k := k)
    simp only [Pool.isAt]
    cases hp : pl k with
    | none => simp [spotOf, hc, hp]
    | some x => cases x <;> simp [spotOf, hc, hp]

/-- **Each accepted task is in one place, once, and comes along its way once per acceptance.** -/
theorem each_task_in_one_place {s : Pool} (r : Run SubmitsOnce s) :
    (∀ k, 0 < accepts k s.log → ∃! p, s.isAt k p) ∧
    (s.tasks.Nodup ∧ ∀ c, (s.ctx c).finishedTasks.Nodup ∧
      ((s.ctx c).drains.flatMap Drain.queue).Nodup) ∧
    (∀ k c, s.isAt k (.finished c) ∨ s.isAt k (.tasksDone c) → c = (s.task k).ctx) ∧
    (∀ k, ∃ (past : List PdTask) (now : List Obs),
      entries k s.log = past.flatMap (journey k) ++ now ∧ now <+: journey k (s.task k)) ∧
    s.ntasks = s.tasks.length ∧ .popNull ∉ s.threads := by
  obtain ⟨pl, h⟩ := Run.placed r
  refine ⟨fun k hk => ?_, ⟨(h.holds .queue).1, fun c => ⟨(h.holds (.finished c)).1,
    (h.holds (.tasksDone c)).1⟩⟩, fun k c hkc => ?_, fun k => ?_, (Run.counted r).ntasks,
    (Run.counted r).pop⟩
  · exact ⟨spotOf (pl k), (h.isAt_iff _).mpr rfl, fun p hp => (h.isAt_iff p).mp hp⟩
  · exact h.own k c (hkc.imp h.holds.mem.mp h.holds.mem.mp)
  · obtain ⟨past, ht⟩ := h.traced k
    exact ⟨past, _, ht, begun_prefix _ _ fun i hi => h.work k i hi⟩

/-- A task is done and submitted again; it is in the hands of the worker for the second time. -/
theorem each_task_in_one_place_again : ∃ s, Run SubmitsOnce s ∧ accepts 7 s.log = 2 ∧
    s.threads = [.taken 7] ∧ ∃! p, s.isAt 7 p := by
  have hplay : (Machine.play step SubmitsOnce start [.init 1, .create,
      .submit 0 7 true false, .enqueue 7 0, .worker 0 0, .worker 0 0, .worker 0 0, .worker 0 0, .worker 0 0, .notifierIo 0, .taskDone 0,
      .taskDone 0, .submit 0 7 true true, .enqueue 7 0, .worker 0 0]).map
      (fun s => (accepts 7 s.log, s.threads)) = some (2, [.taken 7]) := by rfl
  obtain ⟨s, hs, he⟩ := Option.map_eq_some_iff.mp hplay
  obtain ⟨hacc, hts⟩ := Prod.mk.inj he
  have r : Run SubmitsOnce s := Machine.Reach.play (.init start_init) hs
  exact ⟨s, r, hacc, hts, (each_task_in_one_place r).1 7 (by rw [hacc]; decide)⟩

end

end Pandio.Threadpool
