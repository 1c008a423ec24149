import Pandio.Lib.Reach

/- src/threadpool.c with its parties: the workers, the callers of `pd_task_submit`,
   `pd_threadpool_end` and `pd_threadpool_init`, and the threads that run the loops
   of the contexts, each with its notifier (src/sys/notifier_unix.c).

   A worker stands at one of the points of `pd__threadpool_exec` between which other
   parties run. What a party does under `mux` is one step, but for the push on
   `finished_tasks` and the notification after it, which are two; the worker between
   them holds `mux`. `pd_cond_signal` wakes the sleeper the action names, and
   `pd_cond_wait` may return without a signal. Creating a thread and taking memory
   for it succeed. One thread calls `pd_threadpool_init` and `pd_threadpool_end`.

   Correspondence (C ↔ Lean):
     `pd_task_submit`      ↔ `pdTaskSubmit` up to its lock, `pdTaskEnqueue` from there
     `pd__threadpool_exec` ↔ `pdThreadpoolExec`, by the worker's point
     `pd__task_done`       ↔ `pdTaskDone`, by the point of the loop's thread
     `pd__notifier_io`     ↔ `pdNotifierIo`, with `Notifier.read`
     `pd_notifier_send`    ↔ `Notifier.send`
     `pd_threadpool_end`   ↔ `pdThreadpoolEnd` up to the joins, `pdThreadpoolJoin` after
     `pd_threadpool_init`  ↔ `pdThreadpoolInit`, `pdThreadpoolCreate` from `pd_mutex_init` on -/
namespace Pandio.Threadpool

/-! ## Data -/

abbrev Wid := Nat
abbrev CtxId := Nat
abbrev TaskId := Nat

/-- The descriptor of a notifier: the counter of an eventfd, or the bytes in a pipe with room
for at least one notification. -/
inductive Notifier where
  | eventfd (counter : Nat)
  | pipe (bytes capacity : Nat) (room : 8 ≤ capacity)

/-- A `pd_task_t`: the context it was last submitted to, and whether its callbacks are set. -/
structure PdTask where
  ctx : CtxId := 0
  work : Bool := false
  done : Bool := false
  deriving DecidableEq

/-- Where a worker stands in `pd__threadpool_exec`. -/
inductive Point where
  /-- before the lock at the top of the loop -/
  | top
  /-- in `pd_cond_wait` -/
  | asleep
  /-- in `pd_cond_wait`, woken, without `mux` -/
  | woken
  /-- `queue_pop` returned NULL -/
  | popNull
  /-- the task is popped, `mux` is released -/
  | taken (k : TaskId)
  /-- in the work function of the task -/
  | working (k : TaskId)
  /-- after the work function -/
  | worked (k : TaskId)
  /-- under `mux`, the task pushed on `finished_tasks`, before the notification -/
  | pushed (k : TaskId)
  | exited
  deriving DecidableEq

/-- Where a loop's thread stands in a `pd__task_done`. -/
inductive Drain where
  /-- the notifier has been read -/
  | signaled
  /-- the local queue, and whether a done callback runs -/
  | tasksDone (queue : List TaskId) (inDone : Bool)

/-- The local queue. -/
def Drain.queue : Drain → List TaskId
  | signaled => []
  | tasksDone q _ => q

/-- What the pool uses of a `pd_io_t`. `refs` is the pool's share of `ctx->refs`. The drains are
nested where a done callback runs the loop. -/
structure Ctx where
  refs : Nat := 0
  finishedTasks : List TaskId := []
  taskSignaled : Bool := false
  notifier : Notifier
  drains : List Drain := []

inductive Obs where
  | muxInit
  | muxLock
  | muxDestroy
  /-- `pd_task_submit` has enqueued the task, with these fields. -/
  | accepted (k : TaskId) (x : PdTask)
  /-- `pd_task_submit` returns `PD_ECANCELED`. -/
  | refused (k : TaskId)
  /-- The work function is called. -/
  | work (k : TaskId)
  /-- The work function has returned. -/
  | worked (k : TaskId)
  /-- `pd__task_done` has popped the task from its local queue. -/
  | retired (k : TaskId)
  /-- The done callback is called. -/
  | done (k : TaskId)
  deriving DecidableEq

/-- The static variables of threadpool.c and what they are used with. -/
structure Pool where
  nthreads : Nat := 0
  threads : List Point := []
  waitingThreads : Nat := 0
  tasks : List TaskId := []
  ntasks : Nat := 0
  abortThreads : Bool := false
  task : TaskId → PdTask := fun _ => {}
  /-- the calls of `pd_task_submit` between their checks and `mux` -/
  submitting : List TaskId := []
  /-- `pd_threadpool_init` has set `nthreads` and stands before its `pd_mutex_init` -/
  starting : Bool := false
  /-- `pd_threadpool_end` waits for the workers -/
  joining : Bool := false
  ctx : CtxId → Ctx
  log : List Obs := []

def PD_THREADPOOL_SIZE : Nat := 4

namespace Pool

variable (s : Pool)

def logObs (o : Obs) : Pool := { s with log := s.log ++ [o] }

def setTask (k : TaskId) (x : PdTask) : Pool := { s with task := Function.update s.task k x }

def setCtx (c : CtxId) (x : Ctx) : Pool := { s with ctx := Function.update s.ctx c x }

def setPoint (i : Wid) (p : Point) : Pool := { s with threads := s.threads.set i p }

def setWaiting (n : Nat) : Pool := { s with waitingThreads := n }

def setTasks (q : List TaskId) (n : Nat) : Pool := { s with tasks := q, ntasks := n }

def setSubmitting (l : List TaskId) : Pool := { s with submitting := l }

/-- No worker stands between the push and the notification. -/
def muxFree : Bool := s.threads.all fun p => match p with | .pushed _ => false | _ => true

end Pool

/-! ## The notifier -/

namespace Notifier

/-- The poller reports the descriptor. -/
def readable : Notifier → Bool
  | eventfd n => 0 < n
  | pipe b _ _ => 0 < b

/-- `write` of eight bytes. A full counter and a full pipe refuse them. -/
def send : Notifier → Notifier
  | eventfd n => if n + 1 < 2 ^ 64 - 1 then eventfd (n + 1) else eventfd n
  | pipe b c h => if b + 8 ≤ c then pipe (b + 8) c h else pipe b c h

/-- `read` of up to 512 bytes, which fails on an empty descriptor. -/
def read : Notifier → Option Notifier
  | eventfd n => if 0 < n then some (eventfd 0) else none
  | pipe b c h => if 0 < b then some (pipe (b - 512) c h) else none

end Notifier

/-! ## Functions -/

open Pool

/-- `pd_cond_signal`: `j` is the sleeper that is woken, if there is one. -/
def pdCondSignal (s : Pool) (j : Wid) : Option Pool :=
  if Point.asleep ∈ s.threads then
    if s.threads[j]? = some .asleep then some (s.setPoint j .woken) else none
  else some s

/-- `pd_task_submit` until it waits for `mux`. -/
def pdTaskSubmit (s : Pool) (c : CtxId) (k : TaskId) (work done : Bool) : Pool :=
  if s.abortThreads then s.logObs (.refused k)
  else if s.nthreads = 0 then s.logObs (.refused k)
  else
    -- `ctx->refs` is counted before the lock
    let x := s.ctx c
    ((s.setTask k ⟨c, work, done⟩).setCtx c { x with refs := x.refs + 1 }).setSubmitting
      (s.submitting ++ [k])

/-- `pd_task_submit` from its lock on. -/
def pdTaskEnqueue (s : Pool) (k : TaskId) (j : Wid) : Option Pool :=
  let s1 := ((s.logObs .muxLock).setSubmitting (s.submitting.erase k)).setTasks (s.tasks ++ [k])
    (s.ntasks + 1)
  (if 0 < s1.waitingThreads then pdCondSignal s1 j else some s1).map
    (·.logObs (.accepted k (s.task k)))

/-- `pd__threadpool_exec` under the lock at its top, from the test of the inner loop on. -/
def execLocked (s : Pool) (i j : Wid) : Option Pool :=
  if s.ntasks = 0 ∧ s.abortThreads = false then
    some ((s.setWaiting (s.waitingThreads + 1)).setPoint i .asleep)
  else if s.abortThreads then
    (pdCondSignal s j).map (·.setPoint i .exited)
  else
    match s.tasks with
    -- `queue_pop` finds nothing, and `ntasks` goes down all the same
    | [] => some ((s.setTasks [] (s.ntasks - 1)).setPoint i .popNull)
    | k :: q => some ((s.setTasks q (s.ntasks - 1)).setPoint i (.taken k))

/-- The next step of worker `i`; `j` is the sleeper that its signal wakes. -/
def pdThreadpoolExec (s : Pool) (i j : Wid) : Option Pool :=
  match s.threads[i]? with
  | some .top => if s.muxFree then execLocked (s.logObs .muxLock) i j else none
  | some .woken =>
    if s.muxFree then
      execLocked ((s.logObs .muxLock).setWaiting (s.waitingThreads - 1)) i j
    else none
  | some (.taken k) =>
    some (if (s.task k).work then (s.logObs (.work k)).setPoint i (.working k)
      else s.setPoint i (.worked k))
  | some (.working k) => some ((s.logObs (.worked k)).setPoint i (.worked k))
  | some (.worked k) =>
    if s.muxFree then
      let c := (s.task k).ctx
      let x := s.ctx c
      some (((s.logObs .muxLock).setCtx c { x with finishedTasks := x.finishedTasks ++ [k] }).setPoint
        i (.pushed k))
    else none
  | some (.pushed k) =>
    let c := (s.task k).ctx
    let x := s.ctx c
    -- no function of the source sets `task_signaled`
    some ((s.setCtx c (if x.taskSignaled then x else { x with notifier := x.notifier.send })).setPoint
      i .top)
  | _ => none

/-- A wake-up without a signal. -/
def spuriousWake (s : Pool) (i : Wid) : Option Pool :=
  if s.threads[i]? = some .asleep then some (s.setPoint i .woken) else none

/-- `pd__notifier_io`: the handler of the notifier is called if there was something to read. -/
def notifierRead (s : Pool) (c : CtxId) : Pool :=
  let x := s.ctx c
  match x.notifier.read with
  | some n => s.setCtx c { x with notifier := n, drains := .signaled :: x.drains }
  | none => s

/-- `pd__notifier_io` from the poll, or from the loop that a done callback runs. -/
def pdNotifierIo (s : Pool) (c : CtxId) : Option Pool :=
  match (s.ctx c).drains with
  | [] | .tasksDone _ true :: _ => some (notifierRead s c)
  | _ => none

/-- The next step of the `pd__task_done` that the loop of `c` is in. -/
def pdTaskDone (s : Pool) (c : CtxId) : Option Pool :=
  let x := s.ctx c
  match x.drains with
  | .signaled :: ds =>
    if s.muxFree then
      some ((s.logObs .muxLock).setCtx c { x with
        finishedTasks := [], taskSignaled := false, drains := .tasksDone x.finishedTasks false :: ds })
    else none
  | .tasksDone (k :: q) false :: ds =>
    let s1 := s.logObs (.retired k)
    some (if (s.task k).done then
        (s1.logObs (.done k)).setCtx c { x with drains := .tasksDone q true :: ds }
      else s1.setCtx c { x with refs := x.refs - 1, drains := .tasksDone q false :: ds })
  | .tasksDone q true :: ds =>
    some (s.setCtx c { x with refs := x.refs - 1, drains := .tasksDone q false :: ds })
  | .tasksDone [] false :: ds => some (s.setCtx c { x with drains := ds })
  | [] => none

/-- `pd_threadpool_end` until it joins the workers. -/
def pdThreadpoolEnd (s : Pool) (j : Wid) : Option Pool :=
  if s.nthreads = 0 then some s
  else if s.muxFree ∧ s.joining = false ∧ s.starting = false then
    pdCondSignal { s.logObs .muxLock with abortThreads := true, joining := true } j
  else none

/-- `pd_threadpool_end` after its joins. -/
def pdThreadpoolJoin (s : Pool) : Option Pool :=
  if s.joining ∧ s.threads.all (· = .exited) then
    some { s.logObs .muxDestroy with threads := [], nthreads := 0, joining := false }
  else none

/-- `pd_threadpool_init` up to its `pd_mutex_init`. -/
def pdThreadpoolInit (s : Pool) (n : Nat) : Pool :=
  if s.nthreads ≠ 0 then s
  else
    let m := if 0 < n then n else PD_THREADPOOL_SIZE
    { s with abortThreads := false, nthreads := m, starting := true }

/-- `pd_threadpool_init` from there on. -/
def pdThreadpoolCreate (s : Pool) : Option Pool :=
  if s.starting then
    some { s.logObs .muxInit with threads := .replicate s.nthreads .top, starting := false }
  else none

/-! ## The machine -/

inductive Act where
  | submit (c : CtxId) (k : TaskId) (work done : Bool)
  | enqueue (k : TaskId) (j : Wid)
  | worker (i j : Wid)
  | spurious (i : Wid)
  | notifierIo (c : CtxId)
  | taskDone (c : CtxId)
  | threadpoolEnd (j : Wid)
  | join
  | init (n : Nat)
  | create

def step (s : Pool) : Act → Option Pool
  | .submit c k work done => some (pdTaskSubmit s c k work done)
  | .enqueue k j => if k ∈ s.submitting ∧ s.muxFree then pdTaskEnqueue s k j else none
  | .worker i j => pdThreadpoolExec s i j
  | .spurious i => spuriousWake s i
  | .notifierIo c => pdNotifierIo s c
  | .taskDone c => pdTaskDone s c
  | .threadpoolEnd j => pdThreadpoolEnd s j
  | .join => pdThreadpoolJoin s
  | .init n => some (pdThreadpoolInit s n)
  | .create => pdThreadpoolCreate s

/-- The program before any pool: contexts with an empty notifier each. -/
def Init (s : Pool) : Prop :=
  (∀ c, ∃ n : Notifier, n.readable = false ∧ s.ctx c = { notifier := n }) ∧
    s = { ctx := s.ctx, task := s.task }

/-- The program before any pool, on Linux. -/
def start : Pool := { ctx := fun _ => { notifier := .eventfd 0 } }

theorem start_init : Init start := ⟨fun _ => ⟨.eventfd 0, rfl, rfl⟩, rfl⟩

/-- The runs whose every step meets `ok`. -/
abbrev Run (ok : Pool → Act → Prop) : Pool → Prop := Machine.Reach step ok Init

/-- The task is between a call of `pd_task_submit` and its end in `pd__task_done`. -/
def Pool.pending (s : Pool) (k : TaskId) : Bool :=
  let x := s.ctx (s.task k).ctx
  k ∈ s.submitting || k ∈ s.tasks ||
    s.threads.any (fun p => p = .taken k ∨ p = .working k ∨ p = .worked k) ||
    k ∈ x.finishedTasks || k ∈ x.drains.flatMap Drain.queue

/-- No task is submitted again before it is done. -/
def SubmitsOnce (s : Pool) : Act → Prop
  | .submit _ k _ _ => s.pending k = false
  | _ => True

instance (s : Pool) (a : Act) : Decidable (SubmitsOnce s a) :=
  match a with
  | .submit _ k _ _ => inferInstanceAs (Decidable (s.pending k = false))
  | .enqueue .. | .worker .. | .spurious _ | .notifierIo _ | .taskDone _ | .threadpoolEnd _ | .join
  | .init _ | .create => .isTrue trivial

def AnyAct (_ : Pool) (_ : Act) : Prop := True

instance (s : Pool) (a : Act) : Decidable (AnyAct s a) := .isTrue trivial

end Pandio.Threadpool
