import Pandio.Pool.Journey

/- What `pd_threadpool_end` leaves behind. A worker that takes `mux` looks at
   `abort_threads` before it looks at the queue, so a task that is in the queue when
   the flag is set stays there; it keeps the reference that `pd_task_submit` counted. -/
namespace Pandio.Threadpool

/-! ## The pool's share of `refs` -/

/-- The worker has a task of `c` in its hands. -/
def handOf (task : TaskId → PdTask) (c : CtxId) : Point → Bool
  | .taken k | .working k | .worked k => (task k).ctx = c
  | _ => false

/-- The tasks of the local queue, and the one whose done callback runs. -/
def Drain.refs : Drain → Nat
  | .signaled => 0
  | .tasksDone q inDone => q.length + inDone.toNat

/-- The tasks of `c` that are submitted and not done. -/
def Pool.share (s : Pool) (c : CtxId) : Nat :=
  s.submitting.countP (fun k => (s.task k).ctx = c) + s.tasks.countP (fun k => (s.task k).ctx = c) +
    s.threads.countP (handOf s.task c) + (s.ctx c).finishedTasks.length +
    ((s.ctx c).drains.map Drain.refs).sum

def RefsCounted (s : Pool) : Prop := ∀ c, (s.ctx c).refs = s.share c

section
variable {s s' : Pool} {ts ts' : List Point} {i : Wid} {a b : Point} {act : Act}
  {pl : TaskId → Option Place} {task : TaskId → PdTask} {c : CtxId}

theorem Signal.handOf (h : Signal ts ts') : ts'.countP (handOf task c) = ts.countP (handOf task c) := by
  cases h with
  | woke hj =>
    have := Monitor.countP_set (Threadpool.handOf task c) (a := .woken) hj
    simpa [Threadpool.handOf] using this
  | lost _ => rfl

theorem handOf_set (hb : ts[i]? = some b) (hab : handOf task c a = handOf task c b) :
    (ts.set i a).countP (handOf task c) = ts.countP (handOf task c) := by
  have := Monitor.countP_set (handOf task c) (a := a) hb
  rw [hab] at this
  omega

theorem Locks.handOf {n : Nat} (h : Locks s i n) (hts : ∀ b, s.threads[i]? = some b → b ≠ .asleep →
      ts[i]? = some b) (a : Point) :
    (ts.set i a).countP (handOf task c) = ts.countP (handOf task c) + (handOf task c a).toNat := by
  rcases h.point with ⟨hb, _⟩ | ⟨hb, _⟩
  · have := Monitor.countP_set (Threadpool.handOf task c) (a := a) (hts _ hb (by decide))
    simpa [Threadpool.handOf] using this
  · have := Monitor.countP_set (Threadpool.handOf task c) (a := a) (hts _ hb (by decide))
    simpa [Threadpool.handOf] using this

theorem Placed.ne_of_mem {x : Place} {k' : TaskId} (hp : Placed s pl) (hk : pl k = none)
    (h : k' ∈ s.content x) : k' ≠ k := by
  rintro rfl
  rw [hp.holds.mem.mp h] at hk
  cases hk

/-- A task that is nowhere can be written anew: nothing is counted otherwise. -/
theorem Placed.content_update (hp : Placed s pl) (hk : pl k = none) (t : PdTask) (d : CtxId)
    (x : Place) : (s.content x).countP (fun k' => (Function.update s.task k t k').ctx = d) =
      (s.content x).countP fun k' => (s.task k').ctx = d := by
  refine List.countP_congr fun k' hk' => ?_
  rw [Function.update_of_ne (hp.ne_of_mem hk hk')]

theorem Placed.handOf_update (hp : Placed s pl) (hk : pl k = none) (t : PdTask) (d : CtxId) :
    s.threads.countP (handOf (Function.update s.task k t) d) = s.threads.countP (handOf s.task d) := by
  refine List.countP_congr fun p hm => ?_
  obtain ⟨i, hi⟩ := List.getElem?_of_mem hm
  have hst : ∀ st k', k' ∈ held st (some p) → k' ≠ k := fun st k' hk' =>
    hp.ne_of_mem hk (x := .hands i st) (by rw [Pool.content, hi]; exact hk')
  cases p with
  | taken k' =>
    simp only [handOf, Function.update_of_ne (hst .taken k' (by simp [held]))]
  | working k' =>
    simp only [handOf, Function.update_of_ne (hst .working k' (by simp [held]))]
  | worked k' =>
    simp only [handOf, Function.update_of_ne (hst .worked k' (by simp [held]))]
  | _ => rfl

theorem Move.refsCounted (m : Move s act s') (hok : SubmitsOnce s act) (hw : Waiting s)
    (hp : Placed s pl) (h : RefsCounted s) : RefsCounted s' := by
  intro d
  have hd := h d
  unfold Pool.share at hd ⊢
  cases m with
  | refused _ => exact hd
  | @submitted c k work done _ _ =>
    have hk : pl k = none := hp.pending hok
    have h1 := hp.content_update hk ⟨c, work, done⟩ d .call
    have h2 := hp.content_update hk ⟨c, work, done⟩ d .queue
    have hhands := hp.handOf_update hk ⟨c, work, done⟩ d
    simp only [Pool.content] at h1 h2
    simp only [List.countP_append, List.countP_singleton, Function.update_self, h1, h2, hhands]
    by_cases hdc : d = c
    · subst hdc
      simp
      omega
    · simp [Function.update_of_ne hdc, Ne.symm hdc, hd]
  | @enqueued k j ts hk hf hsig =>
    have hts : ts.countP (handOf s.task d) = s.threads.countP (handOf s.task d) := by
      rcases hsig with hsig | ⟨_, rfl⟩
      · exact hsig.handOf
      · rfl
    have hpos : (s.task k).ctx = d → 0 < s.submitting.countP fun k => (s.task k).ctx = d :=
      fun hc => List.countP_pos_iff.mpr ⟨k, hk, by simpa using hc⟩
    rw [hts, List.countP_append, List.countP_erase, hd]
    by_cases hc : (s.task k).ctx = d
    · have := hpos hc
      simp [hk, hc]
      omega
    · simp [hc]
  | slept hl _ _ =>
    rw [hl.handOf (fun _ hb _ => hb)]
    exact hd
  | exited hl _ hsig =>
    rw [hl.handOf (fun _ hb hn => hsig.get hb hn), hsig.handOf]
    exact hd
  | popNull hl _ _ hq =>
    rw [hl.handOf (fun _ hb _ => hb)]
    simpa [hq, handOf] using hd
  | @popped i j n k q hl _ _ hq =>
    rw [hl.handOf (fun _ hb _ => hb), hd, hq, List.countP_cons]
    by_cases hc : (s.task k).ctx = d
    · simp [handOf, hc]
      omega
    · simp [handOf, hc]
  | called hb _ | skipped hb _ | returned hb | woke hb =>
    rw [handOf_set hb (by simp [handOf])]
    exact hd
  | @pushed i j k c x hb hf hc hx =>
    subst hx
    have hset := Monitor.countP_set (handOf s.task d) (a := .pushed k) hb
    simp only [handOf, Bool.toNat_false, Nat.add_zero] at hset
    by_cases hdc : d = c
    · subst hdc
      rw [decide_eq_true hc.symm, Bool.toNat_true] at hset
      simp only [Function.update_self, List.length_append, List.length_singleton]
      omega
    · have hkd : (s.task k).ctx ≠ d := fun he => hdc (he.symm.trans hc.symm)
      simp [hkd, Function.update_of_ne hdc] at hset ⊢
      omega
  | @sent i j k c x hb hc hx =>
    subst hx
    rw [handOf_set hb (by simp [handOf])]
    by_cases hdc : d = c
    · subst hdc
      simp only [Function.update_self]
      split <;> exact hd
    · simp only [Function.update_of_ne hdc]
      exact hd
  | @read c x n hx _ _ =>
    subst hx
    by_cases hdc : d = c
    · subst hdc
      simpa [Drain.refs] using hd
    · simpa [Function.update_of_ne hdc] using hd
  | @drained c x ds hx hf hds =>
    subst hx
    by_cases hdc : d = c
    · subst hdc
      simp [hds, Drain.refs] at hd ⊢
      omega
    · simpa [Function.update_of_ne hdc] using hd
  | @doneCalled c x k q ds hx hds _ | @doneSkipped c x k q ds hx hds _
  | @doneReturned c x q ds hx hds | @drainReturned c x ds hx hds =>
    subst hx
    by_cases hdc : d = c
    · subst hdc
      simp [hds, Drain.refs] at hd ⊢
      omega
    · simpa [Function.update_of_ne hdc] using hd
  | readNothing _ | endedBefore _ | initBefore _ => exact hd
  | ended _ _ _ hsig =>
    rw [hsig.handOf]
    exact hd
  | joined _ hex =>
    have h0 : s.threads.countP (handOf s.task d) = 0 := by
      refine List.countP_eq_zero.mpr fun p hp => ?_
      rw [hex p hp]
      simp [handOf]
    simpa [h0] using hd
  | init _ _ => exact hd
  | created hs =>
    have hnil : s.threads = [] := hw.no_threads (.inr hs)
    simpa [hnil, List.countP_replicate, handOf] using hd

theorem Run.refsCounted (r : Run SubmitsOnce s) : RefsCounted s := by
  refine r.invariant (fun s h c => ?_) fun s a s' r h hok hs => ?_
  · obtain ⟨n, _, hn⟩ := h.1 c
    unfold Pool.share
    rw [hn, h.2]
    rfl
  · obtain ⟨pl, hp⟩ := Run.placed r
    exact (step_move hs).refsCounted hok (Run.waiting r) hp h

end

/-! ## After the end of the pool -/

/-- Every accepted task has been through a worker's hands, and a context whose finished tasks are all
drained has no reference of the pool left. -/
structure NothingStranded (s : Pool) : Prop where
  task : ∀ k, 0 < accepts k s.log →
    (∃ c, s.isAt k (.finished c)) ∨ (∃ c, s.isAt k (.tasksDone c)) ∨ s.isAt k .done
  refs : ∀ c, (s.ctx c).finishedTasks = [] → (s.ctx c).drains = [] → (s.ctx c).refs = 0

/-- When `pd_threadpool_end` takes `mux`, no task is queued or about to be. -/
def EndsEmpty (s : Pool) : Act → Prop
  | .threadpoolEnd _ => s.nthreads ≠ 0 → s.tasks = [] ∧ s.submitting = []
  | _ => True

def Act.isInit : Act → Prop
  | .init _ => True
  | _ => False

section
variable {s s' : Pool} {act : Act}

instance (s : Pool) (a : Act) : Decidable (EndsEmpty s a) :=
  match a with
  | .threadpoolEnd _ => inferInstanceAs (Decidable (s.nthreads ≠ 0 → s.tasks = [] ∧ s.submitting = []))
  | .submit .. | .enqueue .. | .worker .. | .spurious _ | .notifierIo _ | .taskDone _ | .join
  | .init _ | .create => .isTrue trivial

theorem nothingStranded_iff (r : Run SubmitsOnce s) (hn : s.nthreads = 0) (hsub : s.submitting = []) :
    NothingStranded s ↔ s.tasks = [] := by
  obtain ⟨pl, h⟩ := Run.placed r
  have hts : s.threads = [] := (Run.waiting r).no_threads (.inl hn)
  constructor
  · intro hnone
    by_contra hq
    obtain ⟨k, hk⟩ := List.exists_mem_of_ne_nil _ hq
    have hpl : pl k = some .queue := h.holds.mem.mp hk
    have hacc : 0 < accepts k s.log := by
      rw [h.counts, hpl]
      simp
    have hat : ∀ p, s.isAt k p → p = .queue := fun p hp => by
      rw [(h.isAt_iff p).mp hp, hpl]
      rfl
    rcases hnone.task k hacc with ⟨c, hc⟩ | ⟨c, hc⟩ | hd
    · cases hat _ hc
    · cases hat _ hc
    · cases hat _ hd
  · intro hq
    refine ⟨fun k _ => ?_, fun c hfin hdrains => ?_⟩
    · have hspot := (h.isAt_iff (k := k) (spotOf (pl k))).mpr rfl
      cases hp : pl k with
      | none => exact .inr (.inr (by simpa [hp, spotOf] using hspot))
      | some x =>
        have hm : k ∈ s.content x := h.holds.mem.mpr hp
        cases x with
        | call => exact .inr (.inr (by simpa [hp, spotOf] using hspot))
        | queue =>
          rw [Pool.content, hq] at hm
          cases hm
        | hands i st =>
          rw [Pool.content, hts] at hm
          cases hm
        | finished c => exact .inl ⟨c, hm⟩
        | tasksDone c => exact .inr (.inl ⟨c, hm⟩)
    · rw [Run.refsCounted r c, Pool.share, hq, hts, hsub, hfin, hdrains]
      rfl

/-- A pool that is aborting or over has no queued task if it ended with none. -/
structure Swept (s : Pool) : Prop where
  joining : s.joining = true → s.abortThreads = true ∧ s.nthreads ≠ 0
  swept : s.abortThreads = true ∨ s.nthreads = 0 → s.tasks = [] ∧ s.submitting = []

theorem Move.swept (m : Move s act s') (hok : EndsEmpty s act) (h : Swept s) : Swept s' := by
  cases m with
  | submitted ha hn => exact ⟨h.joining, fun h' => by simp_all⟩
  | enqueued hk _ _ =>
    refine ⟨h.joining, fun h' => ?_⟩
    rw [(h.swept h').2] at hk
    cases hk
  | popNull _ _ ha hq | popped _ _ ha hq =>
    refine ⟨h.joining, fun h' => ?_⟩
    have := h.swept h'
    simp_all
  | ended hn _ _ _ => exact ⟨fun _ => ⟨rfl, hn⟩, fun _ => hok hn⟩
  | joined hj _ => exact ⟨by simp, fun _ => h.swept (.inl (h.joining hj).1)⟩
  | @init n m hn hm =>
    refine ⟨fun hj => absurd hn (h.joining hj).2, fun h' => ?_⟩
    rcases h' with h' | h'
    · cases h'
    · exact absurd h' (init_pos hm)
  | _ => exact ⟨h.joining, h.swept⟩

/-- While the pool is aborting tasks are queued, but not taken. -/
theorem Move.aborting (m : Move s act s') (ha : s.abortThreads = true) (hi : ¬ act.isInit) :
    s'.abortThreads = true ∧
      (s'.tasks = [] ∧ s'.submitting = [] ↔ s.tasks = [] ∧ s.submitting = []) := by
  cases m with
  | submitted h0 _ | popNull _ _ h0 _ | popped _ _ h0 _ =>
    rw [ha] at h0
    cases h0
  | enqueued hk _ _ =>
    refine ⟨ha, ?_⟩
    constructor
    · simp
    · rintro ⟨_, hs⟩
      rw [hs] at hk
      cases hk
  | ended _ _ _ _ => exact ⟨rfl, Iff.rfl⟩
  | init _ _ => exact absurd trivial hi
  | _ => exact ⟨ha, Iff.rfl⟩

end

/-- **When the pool has ended, no accepted task is left behind exactly if none was queued, or about to
be, when `pd_threadpool_end` took `mux`.** -/
theorem nothing_stranded {s : Pool} (r : Run SubmitsOnce s) :
    (Run (fun s a => SubmitsOnce s a ∧ EndsEmpty s a) s → s.nthreads = 0 → NothingStranded s) ∧
    ∀ s1 s2 j, s.nthreads ≠ 0 → step s (.threadpoolEnd j) = some s1 →
      Machine.Reach step (fun s a => SubmitsOnce s a ∧ ¬ a.isInit) (· = s1) s2 →
      s2.nthreads = 0 → s2.submitting = [] →
      (NothingStranded s2 ↔ s.tasks = [] ∧ s.submitting = []) := by
  constructor
  · intro r' hn
    have hsw : Swept s := by
      refine r'.invariant (fun s h => ?_) fun s a s' _ h hok hs => (step_move hs).swept hok.2 h
      rw [h.2]
      exact ⟨by simp, fun _ => ⟨rfl, rfl⟩⟩
    exact (nothingStranded_iff r hn (hsw.swept (.inr hn)).2).mpr (hsw.swept (.inr hn)).1
  · intro s1 s2 j hn hs hr hn2 hsub
    have r1 : Run SubmitsOnce s1 := r.step (a := .threadpoolEnd j) trivial hs
    have r2 : Run SubmitsOnce s2 := r1.trans (hr.mono fun _ _ => And.left)
    have h1 : s1.abortThreads = true ∧
        (s1.tasks = [] ∧ s1.submitting = [] ↔ s.tasks = [] ∧ s.submitting = []) := by
      cases step_move hs with
      | endedBefore h0 => exact absurd h0 hn
      | ended _ _ _ _ => exact ⟨rfl, Iff.rfl⟩
    have h2 : s2.abortThreads = true ∧
        (s2.tasks = [] ∧ s2.submitting = [] ↔ s.tasks = [] ∧ s.submitting = []) := by
      refine hr.invariant (fun s h => h ▸ h1) fun s a s' _ h hok hs => ?_
      have := (step_move hs).aborting h.1 hok.2
      exact ⟨this.1, this.2.trans h.2⟩
    rw [nothingStranded_iff r2 hn2 hsub, ← h2.2, hsub]
    simp

/-- The pool ends while a work function runs. -/
theorem nothing_stranded_working : ∃ s, Run SubmitsOnce s ∧ s.nthreads = 0 ∧
    (s.ctx 0).finishedTasks = [7] ∧ NothingStranded s := by
  have hplay : (Machine.play step (fun s a => SubmitsOnce s a ∧ EndsEmpty s a) start
      [.init 1, .create, .submit 0 7 true true, .enqueue 7 0, .worker 0 0, .worker 0 0,
        .threadpoolEnd 0, .worker 0 0, .worker 0 0, .worker 0 0, .worker 0 0, .join]).map
      (fun s => (s.nthreads, (s.ctx 0).finishedTasks)) = some (0, [7]) := by rfl
  obtain ⟨s, hs, he⟩ := Option.map_eq_some_iff.mp hplay
  obtain ⟨hn, hfin⟩ := Prod.mk.inj he
  have r : Run (fun s a => SubmitsOnce s a ∧ EndsEmpty s a) s :=
    Machine.Reach.play (.init start_init) hs
  have r' : Run SubmitsOnce s := r.mono fun _ _ => And.left
  exact ⟨s, r', hn, hfin, (nothing_stranded r').1 r hn⟩

/-- The pool ends with a task in the queue. -/
theorem not_nothing_stranded :
    ¬ ∀ s, Run SubmitsOnce s → s.nthreads = 0 → NothingStranded s := by
  intro h
  have hplay : (Machine.play step SubmitsOnce start [.init 1, .create,
      .submit 0 7 true true, .enqueue 7 0, .threadpoolEnd 0, .worker 0 0, .join]).map
      (fun s => (s.nthreads, s.submitting, s.tasks)) = some (0, [], [7]) := by rfl
  obtain ⟨s, hs, he⟩ := Option.map_eq_some_iff.mp hplay
  simp only [Prod.mk.injEq] at he
  obtain ⟨hn, hsub, htasks⟩ := he
  have r : Run SubmitsOnce s := Machine.Reach.play (.init start_init) hs
  have := (nothingStranded_iff r hn hsub).mp (h s r hn)
  rw [htasks] at this
  cases this

end Pandio.Threadpool
