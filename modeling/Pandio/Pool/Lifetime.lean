import Pandio.Pool.Wakeups

/- The lifetime of `mux`: from `pd_mutex_init` in `pd_threadpool_init` to
   `pd_mutex_destroy` in `pd_threadpool_end`. The workers are gone when it is destroyed,
   but a `pd_task_submit` that has passed its checks and a loop that was notified are
   not: they lock it later. A `pd_task_submit` passes its checks as soon as `nthreads`
   is set, which is before `pd_mutex_init`. -/
namespace Pandio.Threadpool

/-! ## The lifetime -/

def muxAfter (alive : Bool) : Obs → Bool
  | .muxInit => true
  | .muxDestroy => false
  | _ => alive

/-- `mux` is initialised and not destroyed after the log. -/
def muxAlive (log : List Obs) : Bool := log.foldl muxAfter false

/-- Every lock of the log finds `mux` alive. -/
def Locked (alive : Bool) : List Obs → Prop
  | [] => True
  | o :: log => (o = .muxLock → alive = true) ∧ Locked (muxAfter alive o) log

section
variable {b : Bool} {l m : List Obs} {o : Obs}

theorem Locked.append (h : Locked b l) (hm : Locked (l.foldl muxAfter b) m) :
    Locked b (l ++ m) := by
  induction l generalizing b with
  | nil => exact hm
  | cons o l ih => exact ⟨h.1, ih h.2 hm⟩

theorem Locked.at (h : Locked b (l ++ .muxLock :: m)) : l.foldl muxAfter b = true := by
  induction l generalizing b with
  | nil => exact h.1 rfl
  | cons o l ih => exact ih h.2

theorem muxAlive_append : muxAlive (l ++ m) = m.foldl muxAfter (muxAlive l) :=
  List.foldl_append

end

/-- Nobody is about to lock `mux`: no `pd_task_submit` waits for it, and no loop is notified, or
between its notification and `pd__task_done`. -/
def Pool.MuxIdle (s : Pool) : Prop := s.submitting = [] ∧
  ∀ c, (s.ctx c).notifier.readable = false ∧ .signaled ∉ (s.ctx c).drains

/-- `pd_threadpool_end` destroys `mux` when nobody is about to lock it, and no `pd_task_submit` is
called while `pd_threadpool_init` has not come to `pd_mutex_init`. -/
def LocksSafely (s : Pool) : Act → Prop
  | .join => s.MuxIdle
  | .submit _ _ _ _ => s.starting = false
  | _ => True

/-- There is a pool, and its `pd_threadpool_init` has come to `pd_mutex_init`. -/
def Pool.muxReady (s : Pool) : Bool := s.nthreads ≠ 0 && !s.starting

/-- `mux` is alive while there is a pool, and nobody is about to lock it while there is none. -/
structure Lifetime (s : Pool) : Prop where
  locked : Locked false s.log
  alive : muxAlive s.log = s.muxReady
  idle : s.muxReady = false → s.MuxIdle

theorem read_of_not_readable {n : Notifier} (h : n.readable = false) : n.read = none := by
  cases n with
  | eventfd k =>
    simp only [Notifier.readable, decide_eq_false_iff_not] at h
    exact if_neg h
  | pipe k _ _ =>
    simp only [Notifier.readable, decide_eq_false_iff_not] at h
    exact if_neg h

section
variable {s s' : Pool} {act : Act}

/-- Entries other than those of `mux` are added to the log. -/
theorem Lifetime.quiet {l : List Obs} (h : Lifetime s) (hlog : s'.log = s.log ++ l)
    (hl : ∀ o ∈ l, o ≠ .muxInit ∧ o ≠ .muxLock ∧ o ≠ .muxDestroy) (hn : s'.muxReady = s.muxReady)
    (hi : s.muxReady = false → s'.MuxIdle) : Lifetime s' := by
  have hafter : ∀ b, l.foldl muxAfter b = b ∧ Locked b l := by
    intro b
    clear hlog
    induction l with
    | nil => exact ⟨rfl, trivial⟩
    | cons o l ih =>
      obtain ⟨h1, h2, h3⟩ := hl o (List.mem_cons_self ..)
      have ho : muxAfter b o = b := by
        cases o <;> first | rfl | contradiction
      obtain ⟨hf, hlk⟩ := ih fun o ho => hl o (List.mem_cons_of_mem _ ho)
      rw [List.foldl_cons, ho]
      exact ⟨hf, fun he => absurd he h2, by rw [ho]; exact hlk⟩
  refine ⟨?_, ?_, ?_⟩
  · rw [hlog]
    exact h.locked.append (hafter _).2
  · rw [hlog, muxAlive_append, (hafter _).1, hn]
    exact h.alive
  · rw [hn]
    exact hi

/-- `mux` is locked while there is a pool. -/
theorem Lifetime.lock {l : List Obs} (h : Lifetime s) (hn : s.muxReady = true)
    (hlog : s'.log = s.log ++ .muxLock :: l)
    (hl : ∀ o ∈ l, o ≠ .muxInit ∧ o ≠ .muxLock ∧ o ≠ .muxDestroy)
    (hn' : s'.muxReady = s.muxReady) : Lifetime s' := by
  have hlock : Lifetime { s with log := s.log ++ [.muxLock] } := by
    have halive := h.alive.trans hn
    refine ⟨h.locked.append ⟨fun _ => halive, trivial⟩, ?_, h.idle⟩
    rw [muxAlive_append]
    exact h.alive
  refine hlock.quiet ?_ hl hn' fun h0 => absurd (hn.symm.trans h0) (by simp)
  rw [hlog, List.append_assoc]
  rfl

/-- **A step that meets `LocksSafely` keeps to the lifetime.** -/
theorem Move.lifetime (m : Move s act s') (hok : LocksSafely s act) (hw : Waiting s)
    (h : Lifetime s) : Lifetime s' := by
  have ready : s.nthreads ≠ 0 → s.starting = false → s.muxReady = true := by
    intro hn hs
    simp [Pool.muxReady, hn, hs]
  have worker : ∀ {i : Wid} {p : Point}, s.threads[i]? = some p → s.muxReady = true := by
    intro i p hi
    by_contra h0
    have hnil : s.threads = [] := by
      apply hw.no_threads
      by_contra hno
      obtain ⟨hn, hs⟩ := not_or.mp hno
      exact h0 (ready hn (Bool.eq_false_of_not_eq_true hs))
    rw [hnil] at hi
    cases hi
  have locker : ∀ {i : Wid} {n : Nat}, Locks s i n → s.muxReady = true := by
    intro i n hl
    rcases hl.point with ⟨hi, _⟩ | ⟨hi, _⟩
    · exact worker hi
    · exact worker hi
  -- a context changes while there is no pool
  have idle : ∀ {c : CtxId} {x : Ctx}, (s.muxReady = false →
      x.notifier.readable = false ∧ .signaled ∉ x.drains) → s.muxReady = false →
      s.submitting = [] ∧ ∀ d, (Function.update s.ctx c x d).notifier.readable = false ∧
        .signaled ∉ (Function.update s.ctx c x d).drains := by
    intro c x hx h0
    refine ⟨(h.idle h0).1, fun d => ?_⟩
    by_cases hd : d = c
    · rw [hd, Function.update_self]
      exact hx h0
    · rw [Function.update_of_ne hd]
      exact (h.idle h0).2 d
  cases m with
  | refused _ => exact h.quiet rfl (by simp) rfl h.idle
  | submitted _ hn =>
    refine h.quiet (List.append_nil _).symm (by simp) rfl fun h0 => ?_
    exact absurd ((ready hn hok).symm.trans h0) (by simp)
  | enqueued hk _ _ =>
    refine h.lock ?_ rfl (by simp) rfl
    by_contra h0
    rw [(h.idle (Bool.eq_false_of_not_eq_true h0)).1] at hk
    cases hk
  | slept hl _ _ | exited hl _ _ | popNull hl _ _ _ | popped hl _ _ _ =>
    exact h.lock (locker hl) rfl (by simp) rfl
  | called hi _ => exact h.quiet rfl (by simp) rfl h.idle
  | skipped _ _ | woke _ => exact h.quiet (List.append_nil _).symm (by simp) rfl h.idle
  | returned hi => exact h.quiet rfl (by simp) rfl h.idle
  | pushed hi _ _ _ => exact h.lock (worker hi) rfl (by simp) rfl
  | sent hi _ _ =>
    refine h.quiet (List.append_nil _).symm (by simp) rfl fun h0 => ?_
    exact absurd ((worker hi).symm.trans h0) (by simp)
  | @read c x n hx _ hr =>
    refine h.quiet (List.append_nil _).symm (by simp) rfl fun h0 => ?_
    rw [hx, read_of_not_readable ((h.idle h0).2 c).1] at hr
    cases hr
  | readNothing _ | endedBefore _ | initBefore _ => exact h
  | @drained c x ds hx _ hd =>
    refine h.lock ?_ rfl (by simp) rfl
    by_contra h0
    refine ((h.idle (Bool.eq_false_of_not_eq_true h0)).2 c).2 ?_
    rw [← hx, hd]
    exact List.mem_cons_self ..
  | @doneCalled c x k q ds hx hd _ | @doneSkipped c x k q ds hx hd _ =>
    refine h.quiet rfl (by simp) rfl (idle fun h0 => ?_)
    obtain ⟨hr, hs⟩ := (h.idle h0).2 c
    rw [← hx] at hr hs
    rw [hd] at hs
    exact ⟨hr, by simpa using hs⟩
  | @doneReturned c x q ds hx hd | @drainReturned c x ds hx hd =>
    refine h.quiet (List.append_nil _).symm (by simp) rfl (idle fun h0 => ?_)
    obtain ⟨hr, hs⟩ := (h.idle h0).2 c
    rw [← hx] at hr hs
    rw [hd] at hs
    exact ⟨hr, by simpa using hs⟩
  | ended hn _ hs _ => exact h.lock (ready hn hs.2) rfl (by simp) rfl
  | joined _ _ =>
    refine ⟨h.locked.append ⟨fun he => ?_, trivial⟩, ?_, fun _ => hok⟩
    · cases he
    · rw [muxAlive_append]
      rfl
  | @init n m hn hm =>
    have h0 : s.muxReady = false := by simp [Pool.muxReady, hn]
    refine h.quiet (List.append_nil _).symm (by simp) ?_ h.idle
    rw [h0]
    simp [Pool.muxReady]
  | created hs =>
    have hready : Pool.muxReady { s with
        threads := .replicate s.nthreads .top, starting := false
        log := s.log ++ [.muxInit] } = true := by
      simp [Pool.muxReady, (hw.starting hs).1]
    refine ⟨h.locked.append ⟨fun he => ?_, trivial⟩, ?_, fun h0 => ?_⟩
    · cases he
    · rw [muxAlive_append, hready]
      rfl
    · exact absurd (hready.symm.trans h0) (by simp)

theorem Run.lifetime (r : Run LocksSafely s) : Lifetime s := by
  refine r.invariant (fun s h => ?_) fun s a s' r h hok hs =>
    (step_move hs).lifetime hok (Run.waiting r) h
  obtain ⟨hctx, hs⟩ := h
  refine ⟨?_, ?_, fun _ => ⟨?_, fun c => ?_⟩⟩
  · rw [hs]
    trivial
  · rw [hs]
    rfl
  · rw [hs]
  · obtain ⟨n, hn, hc⟩ := hctx c
    rw [hc]
    exact ⟨hn, by simp⟩

/-- **`mux` is locked in its lifetime only**, in every run that keeps to `LocksSafely`. -/
theorem mux_in_lifetime (r : Run LocksSafely s) {l m : List Obs} (h : s.log = l ++ .muxLock :: m) :
    muxAlive l = true := by
  have hlocked := (Run.lifetime r).locked
  rw [h] at hlocked
  exact hlocked.at

end

/-- No pool ends, and `LocksSafely` allows the call. -/
def submitsReady (s : Pool) : Act → Bool
  | .join => false
  | .submit _ _ _ _ => !s.starting
  | _ => true

/-- A task is submitted and its loop has called it done when the pool ends. -/
theorem mux_in_lifetime_ended : ∃ s l m, Run LocksSafely s ∧ s.nthreads = 0 ∧
    s.log = l ++ .muxLock :: m ∧ muxAlive l = true := by
  have r : Machine.Reach step (fun s a => submitsReady s a = true) Init _ :=
    Machine.Reach.play (.init start_init) (l := [.init 1, .create, .submit 0 7 false false,
      .enqueue 7 0, .worker 0 0, .worker 0 0, .worker 0 0, .worker 0 0, .notifierIo 0, .taskDone 0,
      .taskDone 0, .taskDone 0, .threadpoolEnd 0, .worker 0 0]) rfl
  have hsafely : ∀ s a, submitsReady s a = true → LocksSafely s a := by
    intro s a ha
    cases a with
    | join => cases ha
    | submit c k work done =>
      show s.starting = false
      simpa [submitsReady] using ha
    | _ => trivial
  have r : Run LocksSafely _ := r.mono hsafely
  have r := Machine.Reach.step (a := Act.join) r ⟨rfl, fun c => ?_⟩ rfl
  · exact ⟨_, [.muxInit], _, r, rfl, rfl, mux_in_lifetime r (l := [.muxInit]) rfl⟩
  · cases c with
    | zero => exact ⟨rfl, show Drain.signaled ∉ [] from List.not_mem_nil⟩
    | succ c => exact ⟨rfl, show Drain.signaled ∉ [] from List.not_mem_nil⟩

/-- **A loop that is notified after the pool has ended locks a `mux` that is destroyed**, and a
`pd_task_submit` in the middle of `pd_threadpool_init` one that is not initialised. -/
theorem not_mux_in_lifetime :
    (∃ s l m, Run AnyAct s ∧ s.log = l ++ .muxLock :: m ∧ .muxDestroy ∈ l ∧
      muxAlive l = false) ∧
    ∃ s l m, Run AnyAct s ∧ s.log = l ++ .muxLock :: m ∧ .muxInit ∉ l ∧ muxAlive l = false := by
  constructor
  · have r : Run AnyAct _ := Machine.Reach.play (.init start_init) (l := [.init 1, .create,
      .submit 0 7 false false, .enqueue 7 0, .worker 0 0, .worker 0 0, .worker 0 0, .worker 0 0,
      .threadpoolEnd 0, .worker 0 0, .join, .notifierIo 0, .taskDone 0]) rfl
    exact ⟨_, [.muxInit, .muxLock, .accepted 7 ⟨0, false, false⟩, .muxLock, .muxLock, .muxLock,
      .muxLock, .muxDestroy], [], r, rfl, by decide, rfl⟩
  · have r : Run AnyAct _ := Machine.Reach.play (.init start_init) (l := [.init 1,
      .submit 0 7 false false, .enqueue 7 0]) rfl
    exact ⟨_, [], _, r, rfl, by simp, rfl⟩

end Pandio.Threadpool
