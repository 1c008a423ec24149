import Pandio.Pool.Model
import Pandio.Unix.World

/- src/sys/fs_unix.c over the thread pool. A request is a task whose work function makes
   the system call and whose done callback is the request's. `pd_fs_open` works on a
   copy of the path, which its work function frees. The functions ignore what
   `pd_task_submit` returns: a request that the pool refuses is never heard of again.

   A work function repeats a system call that a signal interrupts; each call is a step.
   Taking memory for a path may fail, and the request then has no path.

   Correspondence (C ↔ Lean):
     `pd_fs_init`                       ↔ `pdFsInit`
     `pd_fs_open`                       ↔ `pdFsOpen`
     `pd_fs_read`, `_write`             ↔ `pdFsRead`, `pdFsWrite`
     `pd_fs_stat`, `_close`             ↔ `pdFsStat`, `pdFsClose`
     `pd__fs_open_work`, `_read_work` … ↔ `pdFsOpenWork`, `pdFsReadWork` …, by `FsParams.work`
     `pd__fs_work_done`                 ↔ the entry `called` -/
namespace Pandio.Threadpool

/-! ## Data -/

/-- The address of a copy of a path. -/
abbrev Ptr := Nat

def PD_UNKNOWN : Int := -7000

/-- The parameters of a request, of the type that `op->type` says. -/
inductive FsParams where
  | unknown
  | open (path : Option Ptr) (oflag mode : Int)
  | read (fd : Int) (size : Nat)
  | write (fd : Int) (size : Nat)
  | stat (fd : Int)
  | close (fd : Int)

/-- The result of a request. -/
inductive FsResult where
  | none
  | fd (fd : Int)
  | size (n : Nat)
  | st (size : Nat)

/-- A `pd_fs_t`. -/
structure PdFs where
  ctx : CtxId
  status : Int
  params : FsParams
  result : FsResult

/-- A copy of a path, and the context of the request it was made for. -/
structure PathCopy where
  path : String
  ctx : CtxId

/-- Each entry names the request and its context. -/
inductive FsObs where
  /-- One of `pd_fs_open` to `pd_fs_close` is called, with a pool that runs or without. -/
  | issued (k : TaskId) (c : CtxId) (running : Bool)
  /-- The system call is made, with this result. -/
  | performed (k : TaskId) (c : CtxId) (r : SysRes)
  /-- The callback of the request is called, with this status. -/
  | called (k : TaskId) (c : CtxId) (status : Int)
  deriving DecidableEq

/-- The pool, the requests, which are tasks, and the copies of paths. -/
structure Fs where
  pool : Pool
  op : TaskId → Option PdFs := fun _ => none
  copies : Ptr → Option PathCopy := fun _ => none
  log : List FsObs := []

/-- The pool is there and takes tasks. -/
def Pool.running (s : Pool) : Bool := s.nthreads ≠ 0 && !s.abortThreads

namespace Fs

variable (s : Fs)

def logObs (o : FsObs) : Fs := { s with log := s.log ++ [o] }

def setPool (p : Pool) : Fs := { s with pool := p }

def setOp (k : TaskId) (o : PdFs) : Fs := { s with op := Function.update s.op k (some o) }

/-- `strdup`, which returns `p`. -/
def strdup (p : Option Ptr) (x : PathCopy) : Fs :=
  match p with
  | some p => { s with copies := Function.update s.copies p (some x) }
  | none => s

def free (p : Option Ptr) : Fs :=
  match p with
  | some p => { s with copies := Function.update s.copies p none }
  | none => s

end Fs

/-! ## Functions -/

def pdFsInit (s : Fs) (c : CtxId) (k : TaskId) : Fs :=
  s.setOp k { ctx := c, status := PD_UNKNOWN, params := .unknown, result := .none }

/-- The end of each of the five functions: the task is submitted, and what `pd_task_submit` returns
is lost. -/
def fsSubmit (s : Fs) (k : TaskId) (o : PdFs) (params : FsParams) : Fs :=
  let s := s.setOp k { o with params := params }
  (s.logObs (.issued k o.ctx s.pool.running)).setPool (pdTaskSubmit s.pool o.ctx k true true)

/-- `strdup` returns `p`. -/
def pdFsOpen (s : Fs) (k : TaskId) (o : PdFs) (path : String) (p : Option Ptr) (oflag mode : Int) :
    Fs :=
  fsSubmit (s.strdup p { path := path, ctx := o.ctx }) k o (.open p oflag mode)

def pdFsRead (s : Fs) (k : TaskId) (o : PdFs) (fd : Int) (size : Nat) : Fs :=
  fsSubmit s k o (.read fd size)

def pdFsWrite (s : Fs) (k : TaskId) (o : PdFs) (fd : Int) (size : Nat) : Fs :=
  fsSubmit s k o (.write fd size)

def pdFsStat (s : Fs) (k : TaskId) (o : PdFs) (fd : Int) : Fs := fsSubmit s k o (.stat fd)

def pdFsClose (s : Fs) (k : TaskId) (o : PdFs) (fd : Int) : Fs := fsSubmit s k o (.close fd)

/-- 0, or `pd_errno`. -/
def fsStatus : SysRes → Int
  | .err e => World.pdErrmap e
  | .ok _ => 0

/-- `open` has returned `r`; the path is freed by the caller. -/
def pdFsOpenWork (op : PdFs) (oflag mode : Int) (r : SysRes) : PdFs :=
  { op with
    status := fsStatus r
    result := .fd (match r with | .err _ => -1 | .ok fd => fd)
    params := .open none oflag mode }

/-- `read` has returned `r`. A call that fails leaves the result. -/
def pdFsReadWork (op : PdFs) (r : SysRes) : PdFs :=
  match r with
  | .err _ => { op with status := fsStatus r }
  | .ok n => { op with status := fsStatus r, result := .size n }

/-- `write` has returned `r`. -/
def pdFsWriteWork (op : PdFs) (r : SysRes) : PdFs := pdFsReadWork op r

/-- `fstat` has returned `r`, with the size in it. -/
def pdFsStatWork (op : PdFs) (r : SysRes) : PdFs :=
  match r with
  | .err _ => { op with status := fsStatus r }
  | .ok n => { op with status := fsStatus r, result := .st n }

/-- `close` has returned `r`. -/
def pdFsCloseWork (op : PdFs) (r : SysRes) : PdFs := { op with status := fsStatus r }

/-- The work function of the request, after its system call. -/
def PdFs.work (op : PdFs) (r : SysRes) : PdFs :=
  match op.params with
  | .unknown => op
  | .open _ oflag mode => pdFsOpenWork op oflag mode r
  | .read _ _ => pdFsReadWork op r
  | .write _ _ => pdFsWriteWork op r
  | .stat _ => pdFsStatWork op r
  | .close _ => pdFsCloseWork op r

/-- The copy that the work function frees. -/
def PdFs.path (op : PdFs) : Option Ptr :=
  match op.params with
  | .open p _ _ => p
  | _ => none

/-- The work function of a request returns. -/
def fsWork (s : Fs) (k : TaskId) (o : PdFs) (r : SysRes) : Fs :=
  ((s.free o.path).setOp k (o.work r)).logObs (.performed k o.ctx r)

/-! ## The machine -/

/-- What a system call of a work function returns. -/
structure SysCall where
  res : SysRes
  errno_pos : ∀ e, res = .err e → 0 < e

/-- The call of one of the five functions. -/
inductive FsCall where
  | open (path : String) (p : Option Ptr) (oflag mode : Int)
  | read (fd : Int) (size : Nat)
  | write (fd : Int) (size : Nat)
  | stat (fd : Int)
  | close (fd : Int)

inductive FsAct where
  | init (c : CtxId) (k : TaskId)
  | issue (k : TaskId) (q : FsCall)
  /-- A step of the pool; `r` is what the system call returns, if it makes one. -/
  | pool (a : Act) (r : SysCall)

/-- Memory for a path is not in use. -/
def fsIssue (s : Fs) (k : TaskId) (o : PdFs) : FsCall → Option Fs
  | .open path p oflag mode =>
    if p.all fun p => (s.copies p).isNone then some (pdFsOpen s k o path p oflag mode) else none
  | .read fd size => some (pdFsRead s k o fd size)
  | .write fd size => some (pdFsWrite s k o fd size)
  | .stat fd => some (pdFsStat s k o fd)
  | .close fd => some (pdFsClose s k o fd)

/-- The request whose work function worker `i` is in. -/
def Fs.working (s : Fs) (i : Wid) : Option (TaskId × PdFs) :=
  match s.pool.threads[i]? with
  | some (.working k) => (s.op k).map (k, ·)
  | _ => none

/-- The request whose callback the loop of `c` is about to call. -/
def Fs.finishing (s : Fs) (c : CtxId) : Option (TaskId × PdFs) :=
  match (s.pool.ctx c).drains with
  | .tasksDone (k :: _) false :: _ => if (s.pool.task k).done then (s.op k).map (k, ·) else none
  | _ => none

/-- A task that is no request is submitted by the application itself. -/
def fsPoolStep (s : Fs) (a : Act) (r : SysCall) : Option Fs :=
  match a with
  | .submit _ k _ _ => if (s.op k).isNone then (step s.pool a).map s.setPool else none
  | .worker i _ =>
    match s.working i with
    | some (k, o) =>
      if r.res = .err EINTR then some s else (step s.pool a).map (fsWork s k o r.res).setPool
    | none => (step s.pool a).map s.setPool
  | .taskDone c =>
    match s.finishing c with
    | some (k, o) => (step s.pool a).map (s.logObs (.called k o.ctx o.status)).setPool
    | none => (step s.pool a).map s.setPool
  | _ => (step s.pool a).map s.setPool

def fsStep (s : Fs) : FsAct → Option Fs
  | .init c k => some (pdFsInit s c k)
  | .issue k q => (s.op k).bind fun o => fsIssue s k o q
  | .pool a r => fsPoolStep s a r

/-- No request is initialised or issued again before it is done, and no task submitted. -/
def IssuesOnce (s : Fs) : FsAct → Prop
  | .init _ k | .issue k _ => s.pool.pending k = false
  | .pool a _ => SubmitsOnce s.pool a

instance (s : Fs) (a : FsAct) : Decidable (IssuesOnce s a) :=
  match a with
  | .init _ k => inferInstanceAs (Decidable (s.pool.pending k = false))
  | .issue k _ => inferInstanceAs (Decidable (s.pool.pending k = false))
  | .pool a _ => inferInstanceAs (Decidable (SubmitsOnce s.pool a))

/-- The program before any request. -/
def FsInit (s : Fs) : Prop := Init s.pool ∧ s = { pool := s.pool }

/-- The runs in which no request is used again before it is done. -/
abbrev FsRun : Fs → Prop := Machine.Reach fsStep IssuesOnce FsInit

/-- The program before any request, on Linux. -/
def fsStart : Fs := { pool := start }

theorem fsStart_init : FsInit fsStart := ⟨start_init, rfl⟩

/-- No system call, or one that returns 0. -/
def SysCall.none : SysCall := ⟨.ok 0, by simp⟩

def SysCall.fails (e : Nat) (he : 0 < e) : SysCall := ⟨.err e, fun _ h => by cases h; exact he⟩

end Pandio.Threadpool
