import Pandio.Lib.Past
import Pandio.Lib.Window
import Pandio.Pool.SingleWorker

/- How far tasks overtake each other in a pool of several workers. The workers take the tasks
   from the queue in the order in which they were accepted, but a worker that has taken one may be
   slow to call its work function. So in a pool of `n` workers fewer than `n` of the tasks that
   were accepted before a task are still to be started when its work function is called. -/
namespace Pandio.Threadpool

/-! ## What is accepted, held and started -/

/-- The tasks with a work function that were accepted so far. -/
def acceptedWork : Obs → Option TaskId
  | .accepted k x => if x.work then some k else none
  | _ => none

def startedWork : Obs → Option TaskId
  | .work k => some k
  | _ => none

/-- The task that a worker has taken and not called. -/
def Point.waits : Point → List TaskId
  | taken k => [k]
  | _ => []

/-- The tasks with a work function among these. -/
def Pool.withWork (s : Pool) (l : List TaskId) : List TaskId := l.filter fun k => (s.task k).work

/-- The tasks that wait in the hands of a worker for their work function to be called. -/
def Pool.waits (s : Pool) : List TaskId := s.withWork (s.threads.flatMap Point.waits)

/-- The queue with the workers as its servers. -/
def Pool.window (s : Pool) : Prop :=
  Window (s.log.filterMap acceptedWork) (s.withWork s.tasks) (s.log.filterMap startedWork) s.waits

section
variable {s s' : Pool} {ts ts' : List Point} {i : Wid} {a b : Point} {k : TaskId} {act : Act}

/-- A worker goes from one point to another. -/
theorem flatMap_set_perm {f : Point → List TaskId} (h : ts[i]? = some b) :
    (f b ++ (ts.set i a).flatMap f).Perm (f a ++ ts.flatMap f) := by
  induction ts generalizing i with
  | nil => cases h
  | cons p ts ih =>
    cases i with
    | zero =>
      cases h
      rw [List.set_cons_zero, List.flatMap_cons, List.flatMap_cons]
      exact List.perm_append_comm_assoc ..
    | succ i =>
      rw [List.set_cons_succ, List.flatMap_cons, List.flatMap_cons]
      exact (List.perm_append_comm_assoc ..).trans
        (((ih h).append_left (f p)).trans (List.perm_append_comm_assoc ..))

theorem waits_length_le : s.waits.length ≤ s.threads.length := by
  refine (List.length_filter_le ..).trans ?_
  induction s.threads with
  | nil => exact Nat.zero_le _
  | cons p ts ih =>
    rw [List.flatMap_cons, List.length_append, List.length_cons]
    have hp : p.waits.length ≤ 1 := by cases p <;> simp [Point.waits]
    omega

/-- A step that takes no task and starts none. -/
theorem Pool.window.same (h : s.window) {m : List Obs} (htask : s'.task = s.task)
    (htasks : s'.tasks = s.tasks) (hlog : s'.log = s.log ++ m) (hacc : m.filterMap acceptedWork = [])
    (hst : m.filterMap startedWork = [])
    (hw : s'.threads.flatMap Point.waits = s.threads.flatMap Point.waits) : s'.window := by
  unfold Pool.window Pool.waits Pool.withWork
  rw [htask, htasks, hlog, hw, List.filterMap_append, List.filterMap_append, hacc, hst,
    List.append_nil, List.append_nil]
  exact h

/-- Before a lock a worker waits for no task. -/
theorem Locks.waits {n : Nat} (h : Locks s i n) :
    ∃ b, s.threads[i]? = some b ∧ b ≠ .asleep ∧ b.waits = [] := by
  rcases h.point with ⟨hb, _⟩ | ⟨hb, _⟩
  · exact ⟨_, hb, by decide, rfl⟩
  · exact ⟨_, hb, by decide, rfl⟩

/-- A task is accepted. -/
theorem Pool.window.accept (h : s.window) (htask : s'.task = s.task) (htasks : s'.tasks = s.tasks ++ [k])
    (hlog : s'.log = s.log ++ [.muxLock, .accepted k (s.task k)])
    (hw : s'.threads.flatMap Point.waits = s.threads.flatMap Point.waits) : s'.window := by
  unfold Pool.window Pool.waits Pool.withWork at h ⊢
  rw [htask, htasks, hlog, hw]
  simp only [List.filterMap_append, List.filter_append, List.filterMap_cons, List.filterMap_nil,
    List.filter_cons, List.filter_nil, acceptedWork, startedWork, List.append_nil]
  cases (s.task k).work with
  | true => exact Window.accept h
  | false => simpa using h

/-- A worker takes the first task of the queue. -/
theorem Pool.window.take {q : List TaskId} (h : s.window) (hq : s.tasks = k :: q)
    (htask : s'.task = s.task) (htasks : s'.tasks = q) (hlog : s'.log = s.log ++ [.muxLock])
    (hw : (s'.threads.flatMap Point.waits).Perm (k :: s.threads.flatMap Point.waits)) : s'.window := by
  unfold Pool.window Pool.waits Pool.withWork at h ⊢
  rw [hq] at h
  rw [htask, htasks, hlog]
  simp only [List.filterMap_append, List.filterMap_cons, List.filterMap_nil, acceptedWork, startedWork,
    List.append_nil]
  have hheld := (hw.filter fun k => (s.task k).work).symm
  cases hwork : (s.task k).work with
  | true =>
    simp only [List.filter_cons, hwork, if_true] at h hheld
    exact (Window.take h).perm hheld
  | false =>
    simp only [List.filter_cons, hwork, Bool.false_eq_true, if_false] at h hheld
    exact Window.perm h hheld

/-- A worker calls the work function of the task that it has taken, if there is one. -/
theorem Pool.window.start {m : List Obs} (h : s.window) (htask : s'.task = s.task)
    (htasks : s'.tasks = s.tasks) (hlog : s'.log = s.log ++ m)
    (hm : m = if (s.task k).work then [.work k] else [])
    (hw : (k :: s'.threads.flatMap Point.waits).Perm (s.threads.flatMap Point.waits)) : s'.window := by
  unfold Pool.window Pool.waits Pool.withWork at h ⊢
  rw [htask, htasks, hlog, hm]
  simp only [List.filterMap_append]
  have hheld := (hw.filter fun k => (s.task k).work).symm
  cases hwork : (s.task k).work with
  | true =>
    simp only [List.filter_cons, hwork, if_true] at hheld
    simpa [List.filterMap_cons, acceptedWork, startedWork] using (Window.perm h hheld).start
  | false =>
    simp only [List.filter_cons, hwork, Bool.false_eq_true, if_false] at hheld
    simpa using Window.perm h hheld

/-- A step keeps the window. -/
theorem Move.window (m : Move s act s') (hok : SubmitsOnce s act) (hwait : Waiting s)
    (h : s.window) : s'.window := by
  cases m with
  | refused _ => exact h.same rfl rfl rfl rfl rfl rfl
  | @submitted c k work done _ _ =>
    -- the task is in none of the lists
    have hp : s.pending k = false := hok
    simp only [Pool.pending, Bool.or_eq_false_iff, decide_eq_false_iff_not] at hp
    have hkeep : ∀ l : List TaskId, k ∉ l → (l.filter fun k' =>
        (Function.update s.task k ⟨c, work, done⟩ k').work) = l.filter fun k' => (s.task k').work := by
      intro l hl
      refine List.filter_congr fun k' hk' => ?_
      rw [Function.update_of_ne]
      rintro rfl
      exact hl hk'
    have hheld : k ∉ s.threads.flatMap Point.waits := by
      intro hk
      obtain ⟨p, hp', hk⟩ := List.mem_flatMap.mp hk
      have hany := List.any_eq_false.mp hp.1.1.2 p hp'
      cases p <;> simp_all [Point.waits]
    unfold Pool.window Pool.waits Pool.withWork at h ⊢
    simp only
    rw [hkeep _ hp.1.1.1.2, hkeep _ hheld]
    exact h
  | enqueued _ _ hsig =>
    refine h.accept rfl rfl rfl ?_
    rcases hsig with hsig | ⟨_, rfl⟩
    · exact hsig.flatMap rfl
    · rfl
  | slept hl _ _ =>
    obtain ⟨b, hb, _, hnone⟩ := hl.waits
    exact h.same rfl rfl rfl rfl rfl (flatMap_set hb hnone.symm)
  | popNull hl _ _ htasks =>
    obtain ⟨b, hb, _, hnone⟩ := hl.waits
    exact h.same rfl htasks.symm rfl rfl rfl (flatMap_set hb hnone.symm)
  | exited hl _ hsig =>
    obtain ⟨b, hb, hne, hnone⟩ := hl.waits
    exact h.same rfl rfl rfl rfl rfl
      ((flatMap_set (hsig.get hb hne) hnone.symm).trans (hsig.flatMap rfl))
  | @popped i j n k q hl _ _ htasks =>
    obtain ⟨b, hb, _, hnone⟩ := hl.waits
    have hperm := flatMap_set_perm (f := Point.waits) (a := .taken k) hb
    rw [hnone] at hperm
    exact h.take htasks rfl rfl rfl hperm
  | @called i j k hb hwork =>
    exact h.start rfl rfl rfl (by rw [hwork, if_pos rfl])
      (flatMap_set_perm (f := Point.waits) (a := .working k) hb)
  | @skipped i j k hb hwork =>
    exact h.start rfl rfl (List.append_nil _).symm (by rw [hwork]; rfl)
      (flatMap_set_perm (f := Point.waits) (a := .worked k) hb)
  | returned hb | pushed hb _ _ _ => exact h.same rfl rfl rfl rfl rfl (flatMap_set hb rfl)
  | sent hb _ _ | woke hb =>
    exact h.same rfl rfl (List.append_nil _).symm rfl rfl (flatMap_set hb rfl)
  | ended _ _ _ hsig => exact h.same rfl rfl rfl rfl rfl (hsig.flatMap rfl)
  | joined _ hex =>
    have hnone : s.threads.flatMap Point.waits = [] := by
      rw [List.flatMap_eq_nil_iff]
      intro p hp
      rw [hex p hp]
      rfl
    exact h.same rfl rfl rfl rfl rfl hnone.symm
  | init _ _ => exact h.same rfl rfl (List.append_nil _).symm rfl rfl rfl
  | created hs =>
    have hnil : s.threads = [] := hwait.no_threads (.inr hs)
    refine h.same rfl rfl rfl rfl rfl ?_
    rw [hnil, List.flatMap_eq_nil_iff.mpr]
    · rfl
    · intro p hp
      rw [List.eq_of_mem_replicate hp]
      rfl
  | drained | doneCalled | doneSkipped => exact h.same rfl rfl rfl rfl rfl rfl
  | read | doneReturned | drainReturned =>
    exact h.same rfl rfl (List.append_nil _).symm rfl rfl rfl
  | readNothing _ | endedBefore _ | initBefore _ => exact h

/-! ## Runs -/

/-- No pool has more than `n` workers. -/
def AtMost (n : Nat) : Act → Prop
  | .init m => (if 0 < m then m else PD_THREADPOOL_SIZE) ≤ n
  | _ => True

instance (n : Nat) : (x : Act) → Decidable (AtMost n x)
  | .init m => inferInstanceAs (Decidable ((if 0 < m then m else PD_THREADPOOL_SIZE) ≤ n))
  | .submit .. | .enqueue .. | .worker .. | .spurious _ | .notifierIo _ | .taskDone _
  | .threadpoolEnd _ | .join | .create => .isTrue trivial

/-- The runs of pools of at most `n` workers. -/
abbrev AtMostRun (n : Nat) : Pool → Prop := Run fun s x => SubmitsOnce s x ∧ AtMost n x

theorem Move.nthreads_le {n : Nat} (m : Move s act s') (hok : AtMost n act) (h : s.nthreads ≤ n) :
    s'.nthreads ≤ n := by
  cases m with
  | joined _ _ => exact Nat.zero_le n
  | init _ hm => exact hm ▸ hok
  | _ => exact h

theorem AtMostRun.nthreads_le {n : Nat} (r : AtMostRun n s) : s.nthreads ≤ n := by
  refine r.invariant (P := fun s => s.nthreads ≤ n) (fun s h => ?_) fun s x s' _ h hok hs => ?_
  · rw [h.2]
    exact Nat.zero_le n
  · exact (step_move hs).nthreads_le hok.2 h

theorem Run.window (r : Run SubmitsOnce s) : s.window := by
  refine r.invariant (P := Pool.window) (fun s h => ?_) fun s x s' r h hok hs => ?_
  · rw [h.2]
    exact .nil
  · exact (step_move hs).window hok (Run.waiting r) h

/-- The tasks accepted before this one have started, but for fewer than `n`. -/
def InTurn (n : Nat) (past : List Obs) (o : Obs) : Prop :=
  ∀ k, o = .work k → ∃ before after late, past.filterMap acceptedWork = before ++ k :: after ∧
    k ∉ after ∧ late.length < n ∧ before.Subperm (past.filterMap startedWork ++ late)

/-- The call of a work function. -/
theorem Move.inTurn {n : Nat} (m : Move s act s')
    (hw : s.window) (hpl : ∃ pl, Placed s pl) (hlen : s.threads.length ≤ n)
    (hp : Past (InTurn n) s.log) : Past (InTurn n) s'.log := by
  -- only one step calls a work function
  have quiet : ∀ l, s'.log = s.log ++ l → (∀ o ∈ l, ∀ k, o ≠ .work k) →
      Past (InTurn n) s'.log := by
    intro l hlog hq
    rw [hlog]
    refine hp.append fun l1 o l2 ho k hk => ?_
    exact absurd hk (hq o (by rw [ho]; simp) k)
  cases m with
  | @called i j k hb hwork =>
    obtain ⟨pl, hpl⟩ := hpl
    refine hp.snoc ?_
    rintro k' hk'
    cases hk'
    -- the task is in the hands of a worker, so it is not in the queue
    have hhand : pl k = some (.hands i .taken) :=
      hpl.holds.mem.mp (by simp [Pool.content, hb, held])
    have hqueue : k ∉ s.withWork s.tasks := by
      intro hk
      have hq : pl k = some .queue := hpl.holds.mem.mp (List.mem_filter.mp hk).1
      rw [hhand] at hq
      cases hq
    have hmem : k ∈ s.waits := by
      refine List.mem_filter.mpr ⟨List.mem_flatMap.mpr ⟨_, List.mem_of_getElem? hb, ?_⟩, hwork⟩
      exact List.mem_singleton_self k
    have hperm := List.perm_cons_erase hmem
    obtain ⟨before, after, hacc, hafter, hsub⟩ := (Window.perm hw hperm).late hqueue
    refine ⟨before, after, s.waits.erase k, hacc, hafter, ?_, hsub⟩
    have hle := (waits_length_le (s := s)).trans hlen
    rw [List.length_erase_of_mem hmem]
    have := List.length_pos_of_mem hmem
    omega
  | skipped | sent | woke | read | doneReturned | drainReturned | submitted | init =>
    exact quiet [] (List.append_nil _).symm (by simp)
  | readNothing | endedBefore | initBefore => exact hp
  | _ => exact quiet _ rfl (by simp)

/-- **Bounded overtaking.** When the work function of a task is called, in a pool of at most `n`
workers, the work functions of all tasks accepted before it were called, but for fewer than `n`. -/
theorem starts_in_turn {n : Nat} (r : AtMostRun n s) : Past (InTurn n) s.log := by
  refine r.invariant (P := fun s => Past (InTurn n) s.log) (fun s h => ?_)
    fun s x s' r h hok hs => ?_
  · rw [h.2]
    exact .nil
  · have r' : Run SubmitsOnce s := r.mono fun _ _ => And.left
    have hlen : s.threads.length ≤ n := (Run.waiting r).length_le.trans (AtMostRun.nthreads_le r)
    exact (step_move hs).inTurn (Run.window r') (Run.placed r') hlen h

end

/-- Two workers: the second calls its task first, the one accepted before it is late. -/
theorem starts_in_turn_two : ∃ s, AtMostRun 2 s ∧ .work 8 ∈ s.log ∧ .work 7 ∉ s.log ∧
    s.log.filterMap acceptedWork = [7, 8] ∧ Past (InTurn 2) s.log := by
  have r : AtMostRun 2 _ := Machine.Reach.play (.init start_init) (l := [.init 2, .create,
    .submit 0 7 true true, .enqueue 7 0, .submit 0 8 true true, .enqueue 8 0, .worker 0 0,
    .worker 1 0, .worker 1 0]) rfl
  exact ⟨_, r, by decide, by decide, rfl, starts_in_turn r⟩

end Pandio.Threadpool
