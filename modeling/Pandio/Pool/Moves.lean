import Pandio.Pool.Model

/- What a step of the pool does, said once: `Move` lists every way in which a step
   changes the state, with what the code has tested on the way there. Invariants are
   case analyses of it. -/
namespace Pandio.Threadpool

/-- What `pd_cond_signal` does to the workers. -/
inductive Signal (ts : List Point) : List Point → Prop where
  | woke {j : Wid} : ts[j]? = some .asleep → Signal ts (ts.set j .woken)
  | lost : .asleep ∉ ts → Signal ts ts

/-- Worker `i` can take `mux` where `pd__threadpool_exec` tests for tasks, with `waiting_threads`
being `n` once it has. -/
structure Locks (s : Pool) (i : Wid) (n : Nat) : Prop where
  free : s.muxFree = true
  point : s.threads[i]? = some .top ∧ n = s.waitingThreads ∨
    s.threads[i]? = some .woken ∧ n = s.waitingThreads - 1

/-- The loop of `c` is outside `pd__task_done`, or in a done callback. -/
def Ctx.idle (x : Ctx) : Prop := x.drains = [] ∨ ∃ q ds, x.drains = .tasksDone q true :: ds

inductive Move (s : Pool) : Act → Pool → Prop where
  | refused {c : CtxId} {k : TaskId} {work done : Bool} :
      s.abortThreads = true ∨ s.nthreads = 0 →
      Move s (.submit c k work done) { s with log := s.log ++ [.refused k] }
  | submitted {c : CtxId} {k : TaskId} {work done : Bool} :
      s.abortThreads = false → s.nthreads ≠ 0 →
      Move s (.submit c k work done) { s with
        task := Function.update s.task k ⟨c, work, done⟩
        ctx := Function.update s.ctx c { s.ctx c with refs := (s.ctx c).refs + 1 }
        submitting := s.submitting ++ [k] }
  | enqueued {k : TaskId} {j : Wid} {ts : List Point} :
      k ∈ s.submitting → s.muxFree = true →
      Signal s.threads ts ∨ s.waitingThreads = 0 ∧ ts = s.threads →
      Move s (.enqueue k j) { s with
        threads := ts, submitting := s.submitting.erase k, tasks := s.tasks ++ [k]
        ntasks := s.ntasks + 1, log := s.log ++ [.muxLock, .accepted k (s.task k)] }
  | slept {i j : Wid} {n : Nat} :
      Locks s i n → s.ntasks = 0 → s.abortThreads = false →
      Move s (.worker i j) { s with
        threads := s.threads.set i .asleep, waitingThreads := n + 1, log := s.log ++ [.muxLock] }
  | exited {i j : Wid} {n : Nat} {ts : List Point} :
      Locks s i n → s.abortThreads = true → Signal s.threads ts →
      Move s (.worker i j) { s with
        threads := ts.set i .exited, waitingThreads := n, log := s.log ++ [.muxLock] }
  | popNull {i j : Wid} {n : Nat} :
      Locks s i n → s.ntasks ≠ 0 → s.abortThreads = false → s.tasks = [] →
      Move s (.worker i j) { s with
        threads := s.threads.set i .popNull, waitingThreads := n, tasks := []
        ntasks := s.ntasks - 1, log := s.log ++ [.muxLock] }
  | popped {i j : Wid} {n : Nat} {k : TaskId} {q : List TaskId} :
      Locks s i n → s.ntasks ≠ 0 → s.abortThreads = false → s.tasks = k :: q →
      Move s (.worker i j) { s with
        threads := s.threads.set i (.taken k), waitingThreads := n, tasks := q
        ntasks := s.ntasks - 1, log := s.log ++ [.muxLock] }
  | called {i j : Wid} {k : TaskId} :
      s.threads[i]? = some (.taken k) → (s.task k).work = true →
      Move s (.worker i j) { s with
        threads := s.threads.set i (.working k), log := s.log ++ [.work k] }
  | skipped {i j : Wid} {k : TaskId} :
      s.threads[i]? = some (.taken k) → (s.task k).work = false →
      Move s (.worker i j) { s with threads := s.threads.set i (.worked k) }
  | returned {i j : Wid} {k : TaskId} :
      s.threads[i]? = some (.working k) →
      Move s (.worker i j) { s with
        threads := s.threads.set i (.worked k), log := s.log ++ [.worked k] }
  | pushed {i j : Wid} {k : TaskId} {c : CtxId} {x : Ctx} :
      s.threads[i]? = some (.worked k) → s.muxFree = true → c = (s.task k).ctx → x = s.ctx c →
      Move s (.worker i j) { s with
        threads := s.threads.set i (.pushed k)
        ctx := Function.update s.ctx c { x with finishedTasks := x.finishedTasks ++ [k] }
        log := s.log ++ [.muxLock] }
  | sent {i j : Wid} {k : TaskId} {c : CtxId} {x : Ctx} :
      s.threads[i]? = some (.pushed k) → c = (s.task k).ctx → x = s.ctx c →
      Move s (.worker i j) { s with
        threads := s.threads.set i .top
        ctx := Function.update s.ctx c
          (if x.taskSignaled then x else { x with notifier := x.notifier.send }) }
  | woke {i : Wid} :
      s.threads[i]? = some .asleep →
      Move s (.spurious i) { s with threads := s.threads.set i .woken }
  | read {c : CtxId} {x : Ctx} {n : Notifier} :
      x = s.ctx c → x.idle → x.notifier.read = some n →
      Move s (.notifierIo c) { s with
        ctx := Function.update s.ctx c { x with notifier := n, drains := .signaled :: x.drains } }
  | readNothing {c : CtxId} : (s.ctx c).notifier.read = none → Move s (.notifierIo c) s
  | drained {c : CtxId} {x : Ctx} {ds : List Drain} :
      x = s.ctx c → s.muxFree = true → x.drains = .signaled :: ds →
      Move s (.taskDone c) { s with
        ctx := Function.update s.ctx c { x with
          finishedTasks := [], taskSignaled := false
          drains := .tasksDone x.finishedTasks false :: ds }
        log := s.log ++ [.muxLock] }
  | doneCalled {c : CtxId} {x : Ctx} {k : TaskId} {q : List TaskId} {ds : List Drain} :
      x = s.ctx c → x.drains = .tasksDone (k :: q) false :: ds → (s.task k).done = true →
      Move s (.taskDone c) { s with
        ctx := Function.update s.ctx c { x with drains := .tasksDone q true :: ds }
        log := s.log ++ [.retired k, .done k] }
  | doneSkipped {c : CtxId} {x : Ctx} {k : TaskId} {q : List TaskId} {ds : List Drain} :
      x = s.ctx c → x.drains = .tasksDone (k :: q) false :: ds → (s.task k).done = false →
      Move s (.taskDone c) { s with
        ctx := Function.update s.ctx c { x with
          refs := x.refs - 1, drains := .tasksDone q false :: ds }
        log := s.log ++ [.retired k] }
  | doneReturned {c : CtxId} {x : Ctx} {q : List TaskId} {ds : List Drain} :
      x = s.ctx c → x.drains = .tasksDone q true :: ds →
      Move s (.taskDone c) { s with
        ctx := Function.update s.ctx c { x with
          refs := x.refs - 1, drains := .tasksDone q false :: ds } }
  | drainReturned {c : CtxId} {x : Ctx} {ds : List Drain} :
      x = s.ctx c → x.drains = .tasksDone [] false :: ds →
      Move s (.taskDone c) { s with ctx := Function.update s.ctx c { x with drains := ds } }
  | endedBefore {j : Wid} : s.nthreads = 0 → Move s (.threadpoolEnd j) s
  | ended {j : Wid} {ts : List Point} :
      s.nthreads ≠ 0 → s.muxFree = true → s.joining = false ∧ s.starting = false →
      Signal s.threads ts →
      Move s (.threadpoolEnd j) { s with
        threads := ts, abortThreads := true, joining := true, log := s.log ++ [.muxLock] }
  | joined :
      s.joining = true → (∀ p ∈ s.threads, p = .exited) →
      Move s .join { s with
        threads := [], nthreads := 0, joining := false, log := s.log ++ [.muxDestroy] }
  | initBefore {n : Nat} : s.nthreads ≠ 0 → Move s (.init n) s
  | init {n m : Nat} :
      s.nthreads = 0 → m = (if 0 < n then n else PD_THREADPOOL_SIZE) →
      Move s (.init n) { s with nthreads := m, abortThreads := false, starting := true }
  | created : s.starting = true →
      Move s .create { s with
        threads := .replicate s.nthreads .top, starting := false, log := s.log ++ [.muxInit] }

section
variable {s s' : Pool} {i j : Wid} {n : Nat}

theorem pdCondSignal_signal (h : pdCondSignal s j = some s') :
    ∃ ts, Signal s.threads ts ∧ s' = { s with threads := ts } := by
  unfold pdCondSignal at h
  split at h
  · split at h
    · rename_i hj
      cases h
      exact ⟨_, .woke hj, rfl⟩
    · cases h
  · rename_i hn
    cases h
    exact ⟨_, .lost hn, rfl⟩

/-- The section under the lock at the top of `pd__threadpool_exec`. -/
theorem execLocked_move (hl : Locks s i n)
    (h : execLocked { s with waitingThreads := n, log := s.log ++ [.muxLock] } i j = some s') :
    Move s (.worker i j) s' := by
  unfold execLocked at h
  split at h
  · rename_i hw
    cases h
    exact .slept hl hw.1 hw.2
  · rename_i hw
    split at h
    · rename_i ha
      obtain ⟨s1, h1, rfl⟩ := Option.map_eq_some_iff.mp h
      obtain ⟨ts, hts, rfl⟩ := pdCondSignal_signal h1
      exact .exited hl ha hts
    · rename_i ha
      have ha : s.abortThreads = false := by simpa using ha
      have hn : s.ntasks ≠ 0 := fun h0 => hw ⟨h0, ha⟩
      split at h
      · rename_i hq
        cases h
        exact .popNull hl hn ha hq
      · rename_i hq
        cases h
        exact .popped hl hn ha hq

end

/-- **Every step is a move.** -/
theorem step_move {s s' : Pool} {a : Act} (h : step s a = some s') : Move s a s' := by
  cases a with
  | submit c k work done =>
    cases h
    simp only [pdTaskSubmit]
    split
    · rename_i ha
      exact .refused (.inl ha)
    · rename_i ha
      split
      · rename_i hn
        exact .refused (.inr hn)
      · rename_i hn
        exact .submitted (by simpa using ha) hn
  | enqueue k j =>
    simp only [step] at h
    split at h
    · rename_i hk
      obtain ⟨s1, h1, rfl⟩ := Option.map_eq_some_iff.mp h
      split at h1
      · obtain ⟨ts, hts, rfl⟩ := pdCondSignal_signal h1
        have := Move.enqueued (j := j) hk.1 hk.2 (.inl hts)
        simpa [Pool.logObs, Pool.setTasks, Pool.setSubmitting] using this
      · rename_i hw
        cases h1
        have hw : s.waitingThreads = 0 := Nat.eq_zero_of_not_pos hw
        have := Move.enqueued (j := j) hk.1 hk.2 (.inr ⟨hw, rfl⟩)
        simpa [Pool.logObs, Pool.setTasks, Pool.setSubmitting] using this
    · cases h
  | worker i j =>
    simp only [step, pdThreadpoolExec] at h
    split at h
    · rename_i hp
      split at h
      · rename_i hf
        exact execLocked_move ⟨hf, .inl ⟨hp, rfl⟩⟩ h
      · cases h
    · rename_i hp
      split at h
      · rename_i hf
        exact execLocked_move ⟨hf, .inr ⟨hp, rfl⟩⟩ h
      · cases h
    · rename_i k hp
      cases h
      split
      · rename_i hw
        exact .called hp hw
      · rename_i hw
        exact .skipped hp (by simpa using hw)
    · rename_i k hp
      cases h
      exact .returned hp
    · rename_i k hp
      split at h
      · rename_i hf
        cases h
        exact .pushed hp hf rfl rfl
      · cases h
    · rename_i k hp
      cases h
      exact .sent hp rfl rfl
    · cases h
  | spurious i =>
    simp only [step, spuriousWake] at h
    split at h
    · rename_i hp
      cases h
      exact .woke hp
    · cases h
  | notifierIo c =>
    simp only [step, pdNotifierIo] at h
    have read : (s.ctx c).idle → Move s (.notifierIo c) (notifierRead s c) := by
      intro hi
      simp only [notifierRead]
      split
      · rename_i n hn
        exact .read rfl hi hn
      · rename_i hn
        exact .readNothing hn
    split at h
    · rename_i hd
      cases h
      exact read (.inl hd)
    · rename_i q ds hd
      cases h
      exact read (.inr ⟨q, ds, hd⟩)
    · cases h
  | taskDone c =>
    simp only [step, pdTaskDone] at h
    split at h
    · rename_i ds hd
      split at h
      · rename_i hf
        cases h
        exact .drained rfl hf hd
      · cases h
    · rename_i k q ds hd
      cases h
      split
      · rename_i hk
        have := Move.doneCalled rfl hd hk
        simpa [Pool.logObs, Pool.setCtx] using this
      · rename_i hk
        exact .doneSkipped rfl hd (by simpa using hk)
    · rename_i q ds hd
      cases h
      exact .doneReturned rfl hd
    · rename_i ds hd
      cases h
      exact .drainReturned rfl hd
    · cases h
  | threadpoolEnd j =>
    simp only [step, pdThreadpoolEnd] at h
    split at h
    · rename_i hn
      cases h
      exact .endedBefore hn
    · rename_i hn
      split at h
      · rename_i hf
        obtain ⟨ts, hts, rfl⟩ := pdCondSignal_signal h
        exact .ended hn hf.1 hf.2 hts
      · cases h
  | join =>
    simp only [step, pdThreadpoolJoin] at h
    split at h
    · rename_i hj
      cases h
      exact .joined hj.1 (by simpa using hj.2)
    · cases h
  | init n =>
    cases h
    simp only [pdThreadpoolInit]
    split
    · rename_i hn
      exact .initBefore hn
    · rename_i hn
      exact .init (by simpa using hn) rfl
  | create =>
    simp only [step, pdThreadpoolCreate] at h
    split at h
    · rename_i hs
      cases h
      exact .created hs
    · cases h

end Pandio.Threadpool
