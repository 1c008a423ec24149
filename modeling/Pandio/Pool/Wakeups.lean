import Pandio.Lib.Monitor
import Pandio.Pool.Moves

/- The wake-ups of the workers. `pd_task_submit` signals only if `waiting_threads` is
   positive, and that counter still has the workers that are woken and have not taken
   `mux`; `pd_threadpool_end` signals once and each worker that leaves signals again. -/
namespace Pandio.Threadpool

/-! ## Counting the workers -/

def numAsleep (ts : List Point) : Nat := ts.countP (· = .asleep)

def numWoken (ts : List Point) : Nat := ts.countP (· = .woken)

/-- The workers that are neither asleep nor gone. -/
def numAwake (ts : List Point) : Nat := ts.countP fun p => p ≠ .asleep ∧ p ≠ .exited

section
variable {s s' : Pool} {act : Act} {ts ts' : List Point} {i : Wid} {n : Nat} {a b : Point}

/-- The counts after one worker has moved from `b` to `a`. -/
theorem counts_set (a : Point) (h : ts[i]? = some b) :
    numAsleep (ts.set i a) + (decide (b = .asleep)).toNat =
      numAsleep ts + (decide (a = .asleep)).toNat ∧
    numWoken (ts.set i a) + (decide (b = .woken)).toNat =
      numWoken ts + (decide (a = .woken)).toNat ∧
    numAwake (ts.set i a) + (decide (b ≠ .asleep ∧ b ≠ .exited)).toNat =
      numAwake ts + (decide (a ≠ .asleep ∧ a ≠ .exited)).toNat :=
  ⟨Monitor.countP_set _ h, Monitor.countP_set _ h, Monitor.countP_set _ h⟩

theorem Signal.get (h : Signal ts ts') (hb : ts[i]? = some b) (hn : b ≠ .asleep) :
    ts'[i]? = some b := by
  cases h with
  | lost _ => exact hb
  | @woke j hj =>
    have hij : j ≠ i := by
      intro hij
      rw [hij, hb] at hj
      exact hn (Option.some.inj hj)
    rw [List.getElem?_set_ne hij, hb]

/-- A signal wakes one sleeper, if there is one. -/
theorem Signal.counts (h : Signal ts ts') :
    (0 < numAsleep ts ∧ numAsleep ts' + 1 = numAsleep ts ∧ numWoken ts' = numWoken ts + 1 ∧
      numAwake ts' = numAwake ts + 1) ∨
    (numAsleep ts = 0 ∧ ts' = ts) := by
  cases h with
  | @woke j hj =>
    left
    have h3 := counts_set .woken hj
    simp at h3
    omega
  | lost hn =>
    right
    refine ⟨List.countP_eq_zero.mpr fun p hp hpa => ?_, rfl⟩
    have : p = .asleep := by simpa using hpa
    exact hn (this ▸ hp)

/-- The counts when worker `i` has taken `mux` and moves to `a`. -/
theorem Locks.counts (h : Locks s i n) (a : Point) (hts : ∀ b, s.threads[i]? = some b →
    b ≠ .asleep → ts[i]? = some b) (hw : s.waitingThreads = numAsleep ts + numWoken ts) :
    (n = numAsleep ts + numWoken ts ∧
      numAsleep (ts.set i a) = numAsleep ts + (decide (a = .asleep)).toNat ∧
      numWoken (ts.set i a) = numWoken ts + (decide (a = .woken)).toNat ∧
      numAwake (ts.set i a) + 1 = numAwake ts + (decide (a ≠ .asleep ∧ a ≠ .exited)).toNat) ∨
    (n + 1 = numAsleep ts + numWoken ts ∧ 0 < numWoken ts ∧
      numAsleep (ts.set i a) = numAsleep ts + (decide (a = .asleep)).toNat ∧
      numWoken (ts.set i a) + 1 = numWoken ts + (decide (a = .woken)).toNat ∧
      numAwake (ts.set i a) + 1 = numAwake ts + (decide (a ≠ .asleep ∧ a ≠ .exited)).toNat) := by
  rcases h.point with ⟨hb, hn⟩ | ⟨hb, hn⟩
  · left
    have h3 := counts_set a (hts _ hb (by decide))
    simp only [reduceCtorEq, decide_false, ne_eq, not_false_eq_true, and_self, decide_true,
      Bool.toNat_false, Bool.toNat_true, Nat.add_zero] at h3
    exact ⟨by omega, h3⟩
  · right
    have h3 := counts_set a (hts _ hb (by decide))
    simp only [reduceCtorEq, decide_false, ne_eq, not_false_eq_true, and_self, decide_true,
      Bool.toNat_false, Bool.toNat_true, Nat.add_zero] at h3
    have hpos : 0 < numWoken ts :=
      List.countP_pos_iff.mpr ⟨.woken, List.mem_of_getElem? (hts _ hb (by decide)), by decide⟩
    exact ⟨by omega, hpos, h3⟩

/-- A worker that has taken `mux` goes on to a point where it neither waits nor is gone: it was
woken, or had not slept. -/
theorem Locks.busy (h : Locks s i n) (hw : s.waitingThreads = numAsleep s.threads + numWoken s.threads)
    (ha : a ≠ .asleep ∧ a ≠ .woken ∧ a ≠ .exited) :
    n = numAsleep (s.threads.set i a) + numWoken (s.threads.set i a) ∧
    numAsleep (s.threads.set i a) = numAsleep s.threads ∧
    (numWoken (s.threads.set i a) = numWoken s.threads ∨
      0 < numWoken s.threads ∧ numWoken (s.threads.set i a) = numWoken s.threads - 1) := by
  rcases h.counts a (fun _ hb _ => hb) hw with hc | hc
  · simp only [ha, decide_false, Bool.toNat_false, Nat.add_zero] at hc
    omega
  · simp only [ha, decide_false, Bool.toNat_false, Nat.add_zero] at hc
    omega

/-! ## No lost wake-up -/

/-- The pool as threads that wait for items of work. -/
def Pool.crew (s : Pool) : Monitor.Crew :=
  { asleep := numAsleep s.threads, woken := numWoken s.threads, items := s.ntasks }

/-- A worker moves between points at which it neither waits nor is gone. -/
theorem counts_busy (h : ts[i]? = some b) (hb : b ≠ .asleep ∧ b ≠ .woken ∧ b ≠ .exited)
    (ha : a ≠ .asleep ∧ a ≠ .woken ∧ a ≠ .exited) :
    numAsleep ts = numAsleep (ts.set i a) ∧ numWoken ts = numWoken (ts.set i a) ∧
      numAwake ts = numAwake (ts.set i a) := by
  have h3 := counts_set a h
  simp only [ha, hb, ne_eq, not_false_eq_true, and_self, decide_true, decide_false,
    Bool.toNat_false, Bool.toNat_true, Nat.add_zero] at h3
  omega

theorem counts_exited (h : ∀ p ∈ ts, p = .exited) :
    numAsleep ts = 0 ∧ numWoken ts = 0 ∧ numAwake ts = 0 := by
  have h0 : ∀ q : Point → Bool, q .exited = false → ts.countP q = 0 := by
    intro q hq
    refine List.countP_eq_zero.mpr fun p hp => ?_
    rw [h p hp, hq]
    decide
  exact ⟨h0 _ (by decide), h0 _ (by decide), h0 _ (by decide)⟩

/-- `nthreads` is the number of workers, but while `pd_threadpool_init` is under way. -/
structure Staffed (s : Pool) : Prop where
  size : s.threads.length = if s.starting then 0 else s.nthreads
  starting : s.starting = true → s.nthreads ≠ 0 ∧ s.abortThreads = false
  joining : s.joining = true → s.nthreads ≠ 0 ∧ s.starting = false

/-- `waiting_threads` counts the sleepers and the woken. -/
structure Waiting (s : Pool) : Prop extends Staffed s where
  waiting : s.waitingThreads = numAsleep s.threads + numWoken s.threads

theorem Staffed.length_le (h : Staffed s) : s.threads.length ≤ s.nthreads := by
  rw [h.size]
  split <;> omega

/-- There are no workers without a pool, nor before they are created. -/
theorem Staffed.no_threads (h : Staffed s) (hn : s.nthreads = 0 ∨ s.starting = true) :
    s.threads = [] := by
  apply List.eq_nil_of_length_eq_zero
  rw [h.size]
  rcases hn with hn | hn <;> simp [hn]

/-- `pd_threadpool_init` makes a pool of at least one worker. -/
theorem init_pos {m : Nat} (hm : m = if 0 < n then n else PD_THREADPOOL_SIZE) : m ≠ 0 := by
  rw [hm]
  unfold PD_THREADPOOL_SIZE
  split <;> omega

theorem Signal.length (h : Signal ts ts') : ts'.length = ts.length := by
  cases h with
  | woke _ => exact List.length_set
  | lost _ => rfl

theorem Signal.waiting (h : Signal ts ts') :
    numAsleep ts + numWoken ts = numAsleep ts' + numWoken ts' := by
  rcases h.counts with hc | ⟨_, rfl⟩
  · omega
  · rfl

theorem Move.staffed (m : Move s act s') (h : Staffed s) : Staffed s' := by
  cases m with
  | enqueued _ _ hsig =>
    refine ⟨?_, h.starting, h.joining⟩
    rcases hsig with hsig | ⟨_, rfl⟩
    · exact hsig.length.trans h.size
    · exact h.size
  | slept _ _ _ | popNull _ _ _ _ | popped _ _ _ _ | called _ _ | skipped _ _ | returned _
  | pushed _ _ _ _ | sent _ _ _ | woke _ =>
    exact ⟨List.length_set.trans h.size, h.starting, h.joining⟩
  | exited _ _ hsig =>
    exact ⟨List.length_set.trans (hsig.length.trans h.size), h.starting, h.joining⟩
  | ended hn _ hs hsig =>
    refine ⟨hsig.length.trans h.size, fun h' => ?_, fun _ => ⟨hn, hs.2⟩⟩
    exact absurd (hs.2.symm.trans h') (by simp)
  | joined hj _ =>
    have hs := (h.joining hj).2
    refine ⟨?_, fun h' => absurd (hs.symm.trans h') (by simp), fun h' => by cases h'⟩
    simp [hs]
  | init hn hm =>
    have hm0 := init_pos hm
    refine ⟨?_, fun _ => ⟨hm0, rfl⟩, fun hj => absurd hn (h.joining hj).1⟩
    rw [h.no_threads (.inl hn)]
    rfl
  | created hs =>
    refine ⟨List.length_replicate, fun h' => (by cases h'), fun hj => ?_⟩
    exact absurd (hs.symm.trans (h.joining hj).2) (by simp)
  | _ => exact ⟨h.size, h.starting, h.joining⟩

theorem Move.waiting (m : Move s act s') (h : Waiting s) : Waiting s' := by
  refine ⟨m.staffed h.toStaffed, ?_⟩
  have hstaffed := h.toStaffed
  replace h := h.waiting
  cases m with
  | enqueued _ _ hsig =>
    rcases hsig with hsig | ⟨_, rfl⟩
    · exact h.trans hsig.waiting
    · exact h
  | slept hl _ _ =>
    rcases hl.counts .asleep (fun _ hb _ => hb) h with hc | hc <;> simp at hc ⊢ <;> omega
  | exited hl _ hsig =>
    rcases hl.counts .exited (fun _ hb hn => hsig.get hb hn) (h.trans hsig.waiting) with hc | hc <;>
      simp at hc ⊢ <;> omega
  | popNull hl _ _ _ | popped hl _ _ _ => exact (hl.busy h (by simp)).1
  | called hp _ | skipped hp _ | returned hp | pushed hp _ _ _ | sent hp _ _ =>
    refine h.trans ?_
    congr 1
    · exact (counts_busy hp (by simp) (by simp)).1
    · exact (counts_busy hp (by simp) (by simp)).2.1
  | woke hp => exact h.trans (Signal.woke hp).waiting
  | ended _ _ _ hsig => exact h.trans hsig.waiting
  | joined _ hex =>
    refine h.trans ?_
    rw [(counts_exited hex).1, (counts_exited hex).2.1]
    rfl
  | created hs =>
    refine h.trans ?_
    simp [hstaffed.no_threads (.inr hs), numAsleep, numWoken, List.countP_replicate]
  | _ => exact h

theorem Move.crew (m : Move s act s') (h : Waiting s) (ha : s'.abortThreads = false) :
    numAsleep s'.threads = 0 ∨
      s.abortThreads = false ∧ (s'.crew = s.crew ∨ Monitor.Crew.Move s.crew s'.crew) := by
  -- a move to the counts that `hc` gives
  have move : ∀ {c : Monitor.Crew}, Monitor.Crew.Move s.crew c → s'.crew.asleep = c.asleep →
      s'.crew.woken = c.woken → s'.crew.items = c.items → s.abortThreads = false →
      numAsleep s'.threads = 0 ∨
        s.abortThreads = false ∧ (s'.crew = s.crew ∨ Monitor.Crew.Move s.crew s'.crew) := by
    intro c hm h1 h2 h3 ha
    have hc : s'.crew = c := by
      cases c
      simp_all [Pool.crew]
    exact .inr ⟨ha, .inr (hc ▸ hm)⟩
  cases m with
  | enqueued _ _ hsig =>
    rcases hsig with hsig | ⟨hw, rfl⟩
    · rcases hsig.counts with hc | ⟨h0, rfl⟩
      · exact move (.putWaking hc.1) (by simp only [Pool.crew]; omega) hc.2.2.1 rfl ha
      · exact move (.put h0) rfl rfl rfl ha
    · have h0 : numAsleep s.threads = 0 := by
        have := h.waiting
        omega
      exact move (.put h0) rfl rfl rfl ha
  | slept hl h0 _ =>
    rcases hl.counts .asleep (fun _ hb _ => hb) h.waiting with hc | hc <;> simp at hc
    · exact move (.sleep h0) (by simp only [Pool.crew]; omega) (by simp only [Pool.crew]; omega)
        rfl ha
    · exact move (.sleepWoken h0 hc.2.1) (by simp only [Pool.crew]; omega)
        (by simp only [Pool.crew]; omega) rfl ha
  | exited _ ha' _ =>
    rw [ha'] at ha
    cases ha
  | popNull hl hn _ _ =>
    obtain ⟨-, hasleep, hwoken | ⟨hpos, hwoken⟩⟩ := hl.busy (a := .popNull) h.waiting (by simp)
    · exact move (.take (Nat.pos_of_ne_zero hn)) hasleep hwoken rfl ha
    · exact move (.takeWoken (Nat.pos_of_ne_zero hn) hpos) hasleep hwoken rfl ha
  | @popped _ _ _ k _ hl hn _ _ =>
    obtain ⟨-, hasleep, hwoken | ⟨hpos, hwoken⟩⟩ := hl.busy (a := .taken k) h.waiting (by simp)
    · exact move (.take (Nat.pos_of_ne_zero hn)) hasleep hwoken rfl ha
    · exact move (.takeWoken (Nat.pos_of_ne_zero hn) hpos) hasleep hwoken rfl ha
  | called hp _ | skipped hp _ | returned hp | pushed hp _ _ _ | sent hp _ _ =>
    refine .inr ⟨ha, .inl ?_⟩
    simp only [Pool.crew, Monitor.Crew.mk.injEq, and_true]
    exact ⟨(counts_busy hp (by simp) (by simp)).1.symm,
      (counts_busy hp (by simp) (by simp)).2.1.symm⟩
  | woke hp =>
    have h3 := counts_set .woken hp
    simp at h3
    exact move (.wake (by simp only [Pool.crew]; omega)) (by simp only [Pool.crew]; omega)
      (by simp only [Pool.crew]; omega) rfl ha
  | ended _ _ _ _ => cases ha
  | joined _ _ => exact .inl rfl
  | init hn _ =>
    left
    rw [h.no_threads (.inl hn)]
    rfl
  | created _ => exact .inl (by simp [numAsleep, List.countP_replicate])
  | _ => exact .inr ⟨ha, .inl rfl⟩

/-- `ntasks` is the length of `tasks`, and no worker has popped from an empty queue. -/
structure Counted (s : Pool) : Prop where
  ntasks : s.ntasks = s.tasks.length
  pop : .popNull ∉ s.threads

theorem not_popNull_set (h : .popNull ∉ ts) (ha : a ≠ .popNull) : .popNull ∉ ts.set i a := by
  intro hm
  rcases List.mem_or_eq_of_mem_set hm with hm | hm
  · exact h hm
  · exact ha hm.symm

theorem Signal.popNull (h : Signal ts ts') (hn : .popNull ∉ ts) : .popNull ∉ ts' := by
  cases h with
  | woke _ => exact not_popNull_set hn (by decide)
  | lost _ => exact hn

theorem Move.counted (m : Move s act s') (h : Counted s) : Counted s' := by
  obtain ⟨hn, hp⟩ := h
  cases m with
  | enqueued _ _ hsig =>
    refine ⟨by simp [hn], ?_⟩
    rcases hsig with hsig | ⟨_, rfl⟩
    · exact hsig.popNull hp
    · exact hp
  | slept _ _ _ => exact ⟨hn, not_popNull_set hp (by decide)⟩
  | exited _ _ hsig => exact ⟨hn, not_popNull_set (hsig.popNull hp) (by decide)⟩
  | popNull _ h0 _ hq =>
    rw [hq] at hn
    exact absurd hn h0
  | popped _ _ _ hq =>
    rw [hq] at hn
    exact ⟨by simp [hn], not_popNull_set hp (by simp)⟩
  | called _ _ | skipped _ _ | returned _ | pushed _ _ _ _ | sent _ _ _ | woke _ =>
    exact ⟨hn, not_popNull_set hp (by simp)⟩
  | ended _ _ _ hsig => exact ⟨hn, hsig.popNull hp⟩
  | joined _ _ => exact ⟨hn, by simp⟩
  | created _ => exact ⟨hn, by simp⟩
  | _ => exact ⟨hn, hp⟩

end

/-! ## Runs -/

section
variable {ok : Pool → Act → Prop} {s : Pool}

theorem Run.waiting (r : Run ok s) : Waiting s := by
  refine r.invariant (fun s h => ?_) fun s a s' _ h _ hs => (step_move hs).waiting h
  rw [h.2]
  exact ⟨⟨rfl, fun h => (by cases h), fun h => by cases h⟩, rfl⟩

theorem Run.counted (r : Run ok s) : Counted s := by
  refine r.invariant (fun s h => ?_) fun s a s' _ h _ hs => (step_move hs).counted h
  rw [h.2]
  exact ⟨rfl, by simp⟩

theorem Run.fed (r : Run ok s) : s.abortThreads = false → s.crew.Fed := by
  refine r.invariant (P := fun s => s.abortThreads = false → s.crew.Fed) (fun s h _ => ?_)
    fun s a s' r h _ hs ha => ?_
  · rw [h.2]
    exact fun h0 => absurd h0 (by simp [Pool.crew, numAsleep])
  · rcases (step_move hs).crew (Run.waiting r) ha with h0 | ⟨ha, hc | hm⟩
    · intro hpos
      simp only [Pool.crew, h0] at hpos
      omega
    · rw [hc]
      exact h ha
    · exact hm.fed (h ha)

/-- **No lost wake-up.** While a worker sleeps and the pool is not aborting, there is a woken worker
for every queued task. -/
theorem no_lost_wakeup {s : Pool} (r : Run AnyAct s) (ha : s.abortThreads = false)
    (hs : .asleep ∈ s.threads) : s.ntasks ≤ numWoken s.threads ∧ s.ntasks = s.tasks.length := by
  have hpos : 0 < numAsleep s.threads := List.countP_pos_iff.mpr ⟨_, hs, by decide⟩
  exact ⟨Run.fed r ha hpos, (Run.counted r).ntasks⟩

/-- Two workers sleep, and a task wakes one of them. -/
theorem no_lost_wakeup_two : ∃ s, Run AnyAct s ∧ .asleep ∈ s.threads ∧ s.tasks = [7] ∧
    s.ntasks ≤ numWoken s.threads := by
  have r : Run AnyAct _ := Machine.Reach.play (.init start_init)
    (l := [.init 2, .create, .worker 0 0, .worker 1 0, .submit 0 7 true true, .enqueue 7 1]) rfl
  exact ⟨_, r, by decide, rfl, (no_lost_wakeup r rfl (by decide)).1⟩

/-! ## Shutdown -/

/-- The workers while the pool is aborting. -/
def Pool.exit (s : Pool) : Monitor.Exit :=
  { asleep := numAsleep s.threads, awake := numAwake s.threads }

theorem Signal.exit {s : Pool} {ts : List Point} (h : Signal s.threads ts) :
    (⟨numAsleep ts, numAwake ts⟩ : Monitor.Exit) = s.exit ∨
      Monitor.Exit.Move s.exit ⟨numAsleep ts, numAwake ts⟩ := by
  rcases h.counts with hc | ⟨_, rfl⟩
  · have hm : Monitor.Exit.Move s.exit _ := .wake hc.1
    right
    convert hm using 2
    · exact Nat.eq_sub_of_add_eq hc.2.1
    · exact hc.2.2.2
  · exact .inl rfl

theorem Move.exit {s s' : Pool} {act : Act} (m : Move s act s') (h : Waiting s)
    (ha : s.abortThreads = true) (ha' : s'.abortThreads = true) :
    s'.exit = s.exit ∨ Monitor.Exit.Move s.exit s'.exit := by
  cases m with
  | enqueued _ _ hsig =>
    rcases hsig with hsig | ⟨_, rfl⟩
    · exact hsig.exit
    · exact .inl rfl
  | slept _ _ h0 | popNull _ _ h0 _ | popped _ _ h0 _ =>
    rw [ha] at h0
    cases h0
  | @exited i _ n ts hl _ hsig =>
    have hts := h.waiting.trans hsig.waiting
    have hc : numAsleep (ts.set i .exited) = numAsleep ts ∧
        numAwake (ts.set i .exited) + 1 = numAwake ts := by
      rcases hl.counts .exited (fun _ hb hn => hsig.get hb hn) hts with hc | hc
      all_goals
        simp at hc
        omega
    have hawake : 0 < numAwake s.threads := by
      rcases hsig.counts with h1 | ⟨_, rfl⟩
      · rcases hl.point with ⟨hb, _⟩ | ⟨hb, _⟩
        · exact List.countP_pos_iff.mpr ⟨_, List.mem_of_getElem? hb, by decide⟩
        · exact List.countP_pos_iff.mpr ⟨_, List.mem_of_getElem? hb, by decide⟩
      · omega
    right
    rcases hsig.counts with h1 | ⟨h0, rfl⟩
    · have hm : Monitor.Exit.Move s.exit _ := .leaveWaking h1.1 hawake
      convert hm using 2
      · simp only [Pool.exit, hc.1]
        omega
      · simp only [Pool.exit]
        omega
    · have hm : Monitor.Exit.Move s.exit _ := .leave h0 hawake
      convert hm using 2
      · exact hc.1
      · simp only [Pool.exit]
        omega
  | called hp _ | skipped hp _ | returned hp | pushed hp _ _ _ | sent hp _ _ =>
    left
    simp only [Pool.exit, Monitor.Exit.mk.injEq]
    exact ⟨(counts_busy hp (by simp) (by simp)).1.symm,
      (counts_busy hp (by simp) (by simp)).2.2.symm⟩
  | woke hp =>
    exact (Signal.woke hp).exit
  | ended _ _ _ hsig => exact hsig.exit
  | joined _ hex =>
    left
    simp only [Pool.exit, Monitor.Exit.mk.injEq]
    exact ⟨(counts_exited hex).1.symm, (counts_exited hex).2.2.symm⟩
  | init _ _ => cases ha'
  | created hs => exact absurd (ha.symm.trans (h.starting hs).2) (by simp)
  | _ => exact .inl rfl

/-- While the pool is aborting, some worker is awake as long as one sleeps. -/
theorem Run.relayed (r : Run ok s) : s.abortThreads = true → s.exit.Relayed := by
  refine r.invariant (P := fun s => s.abortThreads = true → s.exit.Relayed) (fun s h ha => ?_)
    fun s a s' r h _ hs ha => ?_
  · rw [h.2] at ha
    cases ha
  · have m := step_move hs
    by_cases h0 : s.abortThreads = true
    · rcases m.exit (Run.waiting r) h0 ha with he | hm
      · rw [he]
        exact h h0
      · exact hm.relayed
    · -- only `pd_threadpool_end` sets the flag
      cases m with
      | ended _ _ _ hsig =>
        rcases hsig.counts with hc | ⟨hz, rfl⟩
        · exact fun h1 => absurd h1 (by simp only [Pool.exit]; omega)
        · exact fun _ => hz
      | init _ _ => cases ha
      | _ => exact absurd ha h0

/-- Some worker that is not gone is awake. -/
theorem Run.exists_awake (r : Run ok s) (ha : s.abortThreads = true)
    (h : ∃ p ∈ s.threads, p ≠ .exited) : ∃ p ∈ s.threads, p ≠ .asleep ∧ p ≠ .exited := by
  obtain ⟨p, hp, hne⟩ := h
  have hpos : 0 < numAwake s.threads := by
    by_contra h0
    have hz := Run.relayed r ha (by simp only [Pool.exit]; omega)
    by_cases hs : p = .asleep
    · subst hs
      have : 0 < numAsleep s.threads := List.countP_pos_iff.mpr ⟨_, hp, by decide⟩
      simp only [Pool.exit] at hz
      omega
    · have : 0 < numAwake s.threads := List.countP_pos_iff.mpr ⟨_, hp, by simp [hs, hne]⟩
      omega
  obtain ⟨q, hq, hb⟩ := List.countP_pos_iff.mp hpos
  exact ⟨q, hq, by simpa using hb⟩

/-! ## The joins -/

/-- How many steps a worker has left at most, once the pool is aborting. -/
def Point.left : Point → Nat
  | .taken _ => 5
  | .working _ => 4
  | .worked _ => 3
  | .pushed _ | .asleep => 2
  | .top | .woken => 1
  | .popNull | .exited => 0

def Pool.left (s : Pool) : Nat := (s.threads.map Point.left).sum

def Act.isWorker : Act → Prop
  | .worker _ _ => True
  | _ => False

theorem Signal.left {ts ts' : List Point} (h : Signal ts ts') :
    (ts'.map Point.left).sum ≤ (ts.map Point.left).sum := by
  cases h with
  | woke hj =>
    have := Monitor.sum_set Point.left (a := .woken) hj
    simp only [Point.left] at this
    omega
  | lost _ => exact le_refl _

theorem step_left {s s' : Pool} {i j : Wid} (ha : s.abortThreads = true)
    (h : step s (.worker i j) = some s') : s'.left < s.left ∧ s'.abortThreads = true := by
  have drop : ∀ {ts : List Point} {a b : Point}, ts[i]? = some b → a.left < b.left →
      ((ts.set i a).map Point.left).sum < (ts.map Point.left).sum := by
    intro ts a b hb hlt
    have := Monitor.sum_set Point.left (a := a) hb
    omega
  cases step_move h with
  | slept _ _ h0 | popNull _ _ h0 _ | popped _ _ h0 _ =>
    rw [ha] at h0
    cases h0
  | exited hl _ hsig =>
    refine ⟨?_, ha⟩
    rcases hl.point with ⟨hb, _⟩ | ⟨hb, _⟩
    · exact (drop (hsig.get hb (by decide)) (by decide)).trans_le hsig.left
    · exact (drop (hsig.get hb (by decide)) (by decide)).trans_le hsig.left
  | called hp _ | skipped hp _ | returned hp | pushed hp _ _ _ | sent hp _ _ =>
    exact ⟨drop hp (by simp [Point.left]), ha⟩

theorem exists_signal (s : Pool) : ∃ j s', pdCondSignal s j = some s' := by
  unfold pdCondSignal
  by_cases h : Point.asleep ∈ s.threads
  · obtain ⟨j, hj⟩ := List.getElem?_of_mem h
    exact ⟨j, _, by rw [if_pos h, if_pos hj]⟩
  · exact ⟨0, _, by rw [if_neg h]⟩

theorem exists_execLocked {s : Pool} (i : Wid) (ha : s.abortThreads = true) :
    ∃ j s', execLocked s i j = some s' := by
  obtain ⟨j, s1, h1⟩ := exists_signal s
  refine ⟨j, s1.setPoint i .exited, ?_⟩
  simp [execLocked, ha, h1]

/-- A worker that is awake can step, or the one that holds `mux` can. -/
theorem exists_step {s : Pool} (ha : s.abortThreads = true) (hc : Counted s)
    (h : ∃ p ∈ s.threads, p ≠ .asleep ∧ p ≠ .exited) :
    ∃ i j s', step s (.worker i j) = some s' := by
  by_cases hf : s.muxFree = true
  · obtain ⟨p, hp, hs, he⟩ := h
    obtain ⟨i, hi⟩ := List.getElem?_of_mem hp
    cases p with
    | top =>
      obtain ⟨j, s', hs'⟩ := exists_execLocked (s := s.logObs .muxLock) i ha
      exact ⟨i, j, s', by simp only [step, pdThreadpoolExec, hi, hf, if_true, hs']⟩
    | woken =>
      obtain ⟨j, s', hs'⟩ := exists_execLocked
        (s := (s.logObs .muxLock).setWaiting (s.waitingThreads - 1)) i ha
      exact ⟨i, j, s', by simp only [step, pdThreadpoolExec, hi, hf, if_true, hs']⟩
    | taken k => exact ⟨i, 0, _, by simp only [step, pdThreadpoolExec, hi]; rfl⟩
    | working k => exact ⟨i, 0, _, by simp only [step, pdThreadpoolExec, hi]; rfl⟩
    | worked k => exact ⟨i, 0, _, by simp only [step, pdThreadpoolExec, hi, hf, if_true]; rfl⟩
    | pushed k => exact ⟨i, 0, _, by simp only [step, pdThreadpoolExec, hi]; rfl⟩
    | popNull => exact absurd hp hc.pop
    | asleep => exact absurd rfl hs
    | exited => exact absurd rfl he
  · -- the worker between the push and the notification
    simp only [Pool.muxFree, List.all_eq_true, not_forall] at hf
    obtain ⟨p, hp, hpush⟩ := hf
    obtain ⟨i, hi⟩ := List.getElem?_of_mem hp
    cases p with
    | pushed k => exact ⟨i, 0, _, by simp only [step, pdThreadpoolExec, hi]; rfl⟩
    | _ => exact absurd rfl hpush

/-- **Shutdown does not deadlock.** Once `pd_threadpool_end` has set the flag, the workers that have
not left are never all asleep, and they can all leave. -/
theorem shutdown_no_deadlock {s : Pool} (r : Run AnyAct s) (ha : s.abortThreads = true) :
    ¬ ((∃ p ∈ s.threads, p ≠ .exited) ∧ ∀ p ∈ s.threads, p ≠ .exited → p = .asleep) ∧
    ∃ s', Machine.Reach step (fun _ a => a.isWorker) (· = s) s' ∧ ∀ p ∈ s'.threads, p = .exited := by
  constructor
  · rintro ⟨hne, hall⟩
    obtain ⟨p, hp, hs, he⟩ := Run.exists_awake r ha hne
    exact hs (hall p hp he)
  · -- by induction on the steps that are left
    generalize hn : s.left = n
    induction n using Nat.strong_induction_on generalizing s with
    | _ n ih =>
      by_cases hne : ∃ p ∈ s.threads, p ≠ .exited
      · obtain ⟨i, j, s1, hs1⟩ := exists_step ha (Run.counted r) (Run.exists_awake r ha hne)
        have hleft := step_left ha hs1
        obtain ⟨s', hr, hex⟩ := ih s1.left (hn ▸ hleft.1) (r.step trivial hs1) hleft.2 rfl
        have h1 : Machine.Reach step (fun _ a => a.isWorker) (· = s) s1 :=
          .step (a := .worker i j) (.init rfl) trivial hs1
        exact ⟨s', h1.trans hr, hex⟩
      · refine ⟨s, .init rfl, fun p hp => ?_⟩
        by_contra he
        exact hne ⟨p, hp, he⟩

/-- Both workers of a pool sleep when it ends. -/
theorem shutdown_no_deadlock_two : ∃ s, Run AnyAct s ∧ s.threads = [.woken, .asleep] ∧
    ∃ s', Machine.Reach step (fun _ a => a.isWorker) (· = s) s' ∧
      ∀ p ∈ s'.threads, p = .exited := by
  have r : Run AnyAct _ := Machine.Reach.play (.init start_init)
    (l := [.init 2, .create, .worker 0 0, .worker 1 0, .threadpoolEnd 0]) rfl
  exact ⟨_, r, rfl, (shutdown_no_deadlock r rfl).2⟩

end

end Pandio.Threadpool
