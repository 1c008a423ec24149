import Pandio.Unix.StreamSteps

/- src/sys/event_kqueue.c. `kevent` with no event list applies the changes in their
   order and stops at the first one that fails; a filter that is not registered
   cannot be deleted. Both changes of `pd__event_set` go in one call, the one for
   reading first, and nobody looks at the result.

   The machine is the one of event_epoll.c with the poll replaced, beside the filters
   that are registered for each descriptor, with the event each of them was registered
   for; the functions of tcp_unix.c are the same, but for `pd_tcp_server_close`, which
   looks at the result of `pd__event_del`. What epoll has registered, and `errno` after
   its calls, stay in the state for comparison.

   Correspondence (C ↔ Lean):
     `pd__event_set`, `pd__event_add` ↔ `Filters.eventSet`
     `pd__event_del`                  ↔ nothing; `close` deletes the filters
     `pd_tcp_server_close`            ↔ `kqTcpServerClose`
     `pd_io_run`                      ↔ `kqIoRun` for the poll, the rest as before -/
namespace Pandio
open World

/-! ## kevent -/

/-- The filters registered for a descriptor, each with its `udata`. -/
structure Filters where
  read : Option Handle
  write : Option Handle
  deriving DecidableEq

/-- No filter. -/
def Filters.none : Filters := { read := .none, write := .none }

/-- An entry of the change list. -/
inductive Change where
  | addRead (h : Handle)
  | deleteRead
  | addWrite (h : Handle)
  | deleteWrite

/-- One change, or `ENOENT`. -/
def Filters.change (f : Filters) : Change → Option Filters
  | .addRead h => some { f with read := some h }
  | .deleteRead => if f.read.isSome then some { f with read := .none } else .none
  | .addWrite h => some { f with write := some h }
  | .deleteWrite => if f.write.isSome then some { f with write := .none } else .none

/-- `kevent` with a change list and no event list. -/
def Filters.kevent (f : Filters) : List Change → Filters
  | [] => f
  | c :: rest =>
    match f.change c with
    | some f' => f'.kevent rest
    | .none => f

/-- `pd__event_set` for the event of a handle, which `pd__event_add` calls. -/
def Filters.eventSet (f : Filters) (h : Handle) (flags : Flags) : Filters :=
  f.kevent [if flags.pollin then .addRead h else .deleteRead,
    if flags.pollout then .addWrite h else .deleteWrite]

/-- The filters that `event->flags` asks for. -/
def Flags.filters (flags : Flags) (h : Handle) : Filters :=
  { read := if flags.pollin then some h else .none
    write := if flags.pollout then some h else .none }

/-- **What one call registers.** The change for writing is lost exactly if reading is off and was
off before. -/
theorem eventSet_eq_iff (f : Filters) (h : Handle) (flags : Flags) :
    f.eventSet h flags = flags.filters h ↔
      flags.pollin = true ∨ f.read ≠ none ∨ f.write = (flags.filters h).write := by
  obtain ⟨r, w⟩ := f
  obtain ⟨i, o⟩ := flags
  cases r <;> cases w <;> cases i <;> cases o <;>
    simp [Filters.eventSet, Filters.kevent, Filters.change, Flags.filters]

/-- epoll replaces what is registered. -/
theorem pd_eventSet_interest {w : World} {s : Sid} {n : Nat}
    (ho : w.kernel.isOpen (w.tcp s).fd = true) (hi : w.kernel.interest (w.tcp s).fd ≠ none) :
    (pd_eventSet w s (.ok n)).kernel.interest (w.tcp s).fd = some (.tcp s, (w.tcp s).flags) := by
  obtain ⟨r, hr⟩ := Option.ne_none_iff_exists'.mp hi
  simp [pd_eventSet, Kernel.ctl, ho, hr, World.setKernel, World.setErrno, World.logObs]

/-! ## The loop -/

/-- An entry of the event list. -/
structure Kevent where
  ident : Fd
  write : Bool
  evError : Bool
  evEof : Bool

/-- The translation of `pd_io_run`. -/
def Kevent.events (e : Kevent) : Events :=
  { pollin := !e.write, pollout := e.write, close := e.evError || e.evEof }

structure KqCfg where
  cfg : Cfg
  filters : Fd → Filters
  /-- The stream `pd__event_add` has set a descriptor up for, while no other handle changes its
  filters. -/
  holder : Fd → Option Sid

/-- The event list holds events of registered filters, with their `udata`. -/
def KqCfg.reported (c : KqCfg) (e : Kevent) : Option (Handle × Events) :=
  (if e.write then (c.filters e.ident).write else (c.filters e.ident).read).map (·, e.events)

/-- The head of the loop of `pd_io_run` with its `kevent`. -/
def kqIoRun (c : KqCfg) (timeout : Int) (a : Answer) (events : List Kevent) :
    Option (World × List Item) :=
  let w := c.cfg.world
  if w.refs = 0 then some (w.goOn [])
  else
    match a.sys 0 with
    | .err e => if e = EINTR then some ((w.setErrno (.err e)).goOn [.ioRun timeout]) else none
    | .ok _ =>
      let w := w.setNow w.kernel.clock
      let events := (events.filterMap c.reported).take MAX_EVENTS
      some (w.goOn (events.map (fun e => .dispatch e.1 e.2) ++
        [.timersRun, .pendingClose, .ioAfterTick, .ioNext]))

/-- `pd_tcp_server_close`, with the value it returns: `pd__event_del` does nothing and returns 0. -/
def kqTcpServerClose (w : World) (l : Lid) (a : Answer) : World :=
  let fd := (w.server l).fd
  let w := w.logObs (.ctl (.server l) fd .del)
  let c := w.kernel.close fd (a.sys 1)
  let w := w.setKernel c.1
  match c.2 with
  | .err e => (w.setErrno (.err e)).setResult (-1)
  | .ok _ => ((w.logObs (.serverClosed l fd)).decRefs (.server l)).setResult 0

/-- What an entry of the log does to the filters of the descriptor, with the handle's flags after
it. -/
def Filters.apply (w : World) (fd : Fd) (f : Filters) : Obs → Filters
  | .ctl (.tcp s) fd' .add | .ctl (.tcp s) fd' .mod =>
    if fd' = fd then f.eventSet (.tcp s) (w.tcp s).flags else f
  | .ctl (.server l) fd' .add =>
    if fd' = fd then f.eventSet (.server l) (w.server l).flags else f
  | _ => f

/-- What it does to its holder. -/
def holderAfter (fd : Fd) (h : Option Sid) : Obs → Option Sid
  | .ctl (.tcp s) fd' .add => if fd' = fd then some s else h
  | .ctl (.tcp s) fd' .mod => if fd' = fd ∧ h ≠ some s then none else h
  | .ctl (.server _) fd' .add => if fd' = fd then none else h
  | _ => h

/-- The state after a step of tcp_unix.c; a descriptor that is closed has no filters. -/
def KqCfg.after (c : KqCfg) (cfg : Cfg) : KqCfg :=
  let new := cfg.world.log.drop c.cfg.world.log.length
  { cfg
    filters := fun fd =>
      if cfg.world.kernel.isOpen fd then new.foldl (Filters.apply cfg.world fd) (c.filters fd)
      else .none
    holder := fun fd =>
      if cfg.world.kernel.isOpen fd then new.foldl (holderAfter fd) (c.holder fd) else none }

inductive KqAct where
  | step (x : Act)
  /-- The loop polls. -/
  | poll (a : Answer) (events : List Kevent)

def kqStep (c : KqCfg) : KqAct → Option KqCfg
  | .step x =>
    match x, c.cfg.stack with
    | .lib _, .lib (.ioRun _) :: _ => none
    | .api (.tcpServerClose l) a, .app _ :: _ =>
      some (c.after ⟨kqTcpServerClose c.cfg.world l a, c.cfg.stack⟩)
    | _, _ => (step c.cfg x).map c.after
  | .poll a events =>
    match c.cfg.stack with
    | .lib (.ioRun timeout) :: rest =>
      (kqIoRun c timeout a events).map fun r => { c with cfg := ⟨r.1, r.2 ++ rest⟩ }
    | _ => none

/-- `task_signal` is registered. -/
def KqCfg.Init (c : KqCfg) : Prop :=
  c.cfg.Init ∧ (c.filters = fun fd =>
    if fd = c.cfg.world.signalFd then { read := some .taskSignal, write := none } else .none) ∧
    c.holder = fun _ => none

/-- The runs on kqueue whose steps all meet `ok`. -/
abbrev KqRun (ok : KqCfg → KqAct → Prop) : KqCfg → Prop := Machine.Reach kqStep ok KqCfg.Init

/-! ## pd_tcp_server_close -/

/-- The listener is registered at its descriptor, if that is open. -/
def World.listens (w : World) (l : Lid) : World :=
  w.setKernel { w.kernel with
    interest :=
      if w.kernel.isOpen (w.server l).fd then
        Function.update w.kernel.interest (w.server l).fd (some (.server l, (w.server l).flags))
      else w.kernel.interest }

/-- On kqueue `pd_tcp_server_close` does what it does on epoll for a listener that is registered. -/
theorem pdTcpServerClose_listens (w : World) (l : Lid) (a : Answer) :
    pdTcpServerClose (w.listens l) l a = kqTcpServerClose w l a := by
  by_cases ho : w.kernel.isOpen (w.server l).fd = true
  · cases hc : a.sys 1 with
    | ok n =>
      simp [pdTcpServerClose, kqTcpServerClose, World.listens, ho, hc, Kernel.ctl, Kernel.close,
        World.setKernel, World.logObs]
    | err e =>
      by_cases he : e = EINTR <;>
        simp [pdTcpServerClose, kqTcpServerClose, World.listens, ho, hc, he, Kernel.ctl,
          Kernel.close, World.setKernel, World.logObs]
  · simp [pdTcpServerClose, kqTcpServerClose, World.listens, ho, Kernel.ctl, Kernel.close,
      World.setKernel, World.logObs, World.setErrno, World.setResult]

section
variable {c c' : KqCfg} {x : Act}

/-- **A step is one of the machine of event_epoll.c**, from a state in which a listener that is closed
is registered. -/
theorem kqStep_step (h : kqStep c (.step x) = some c') : c' = c.after c'.cfg ∧
    (step c.cfg x = some c'.cfg ∨ ∃ l a, x = .api (.tcpServerClose l) a ∧
      step ⟨c.cfg.world.listens l, c.cfg.stack⟩ x = some c'.cfg) := by
  simp only [kqStep] at h
  split at h
  · cases h
  · rename_i l a cb rest hst
    cases h
    refine ⟨rfl, .inr ⟨l, a, rfl, ?_⟩⟩
    simp only [step, hst, api, Option.map_some, goOn, List.map_nil, List.nil_append,
      pdTcpServerClose_listens, KqCfg.after]
  · obtain ⟨cfg, hcfg, rfl⟩ := Option.map_eq_some_iff.mp h
    exact ⟨rfl, .inl hcfg⟩

end

/-! ## Flags and filters -/

/-- `pd__event_add` or `pd__event_set` is called for the stream. -/
def isSetUpObs (s : Sid) : Obs → Bool
  | .ctl (.tcp s') _ .add | .ctl (.tcp s') _ .mod => s' = s
  | _ => false

/-- The stream is the one its descriptor was set up for. -/
def KqCfg.Holds (c : KqCfg) (s : Sid) : Prop := c.holder (c.cfg.world.tcp s).fd = some s

instance (c : KqCfg) (s : Sid) : Decidable (c.Holds s) := inferInstanceAs (Decidable (_ = _))

/-- The filters of an open stream's descriptor are those its flags ask for. -/
def Agrees (s : Sid) (c : KqCfg) : Prop :=
  c.Holds s → c.filters (c.cfg.world.tcp s).fd = (c.cfg.world.tcp s).flags.filters (.tcp s)

/-- Writable events are not switched on or off while reading stays off. -/
def Keeps (v v' : StreamView) : Prop :=
  v'.tcp.flags.pollin = true ∨ v.tcp.flags.pollin = true ∨
    v'.tcp.flags.pollout = v.tcp.flags.pollout

def KqCfg.view (c : KqCfg) (s : Sid) : StreamView := c.cfg.world.streamView s

section
variable {w : World} {fd : Fd} {s : Sid} {f : Filters} {h : Option Sid} {m : List Obs} {o : Obs}

/-- An entry that is not the stream's takes its descriptor, or leaves the filters. -/
theorem apply_other (ho : isSetUpObs s o = false) (hh : holderAfter fd h o = some s) :
    h = some s ∧ f.apply w fd o = f := by
  cases o with
  | ctl x fd' k =>
    cases x <;> cases k <;>
      simp_all [isSetUpObs, holderAfter, Filters.apply, ite_eq_iff]; grind
  | _ => exact ⟨hh, rfl⟩

theorem foldl_other (hm : m.filter (isSetUpObs s) = []) (hh : m.foldl (holderAfter fd) h = some s) :
    h = some s ∧ m.foldl (Filters.apply w fd) f = f := by
  induction m generalizing h f with
  | nil => exact ⟨hh, rfl⟩
  | cons o m ih =>
    have ho : isSetUpObs s o = false := by
      by_contra ho
      rw [List.filter_cons_of_pos (by simpa using ho)] at hm
      cases hm
    rw [List.filter_cons_of_neg (by simp [ho])] at hm
    obtain ⟨hh', hf⟩ := ih (f := f.apply w fd o) hm hh
    obtain ⟨h1, h2⟩ := apply_other (f := f) (w := w) ho hh'
    exact ⟨h1, hf.trans h2⟩

/-- The stream's own `pd__event_set`. -/
theorem foldl_set (hm : m.filter (isSetUpObs s) = [.ctl (.tcp s) fd .mod])
    (hh : m.foldl (holderAfter fd) h = some s) : h = some s ∧
      m.foldl (Filters.apply w fd) f = f.eventSet (.tcp s) (w.tcp s).flags := by
  obtain ⟨m1, m2, rfl, hm1, -, hm2⟩ := List.filter_eq_cons_iff.mp hm
  have hm1 : m1.filter (isSetUpObs s) = [] := List.filter_eq_nil_iff.mpr hm1
  rw [List.foldl_append, List.foldl_cons] at hh
  rw [List.foldl_append, List.foldl_cons]
  obtain ⟨hmid, hf2⟩ := foldl_other (f := (m1.foldl (Filters.apply w fd) f).apply w fd
    (.ctl (.tcp s) fd .mod)) (w := w) hm2 hh
  have hmid : m1.foldl (holderAfter fd) h = some s := by
    simp only [holderAfter, true_and] at hmid
    split at hmid
    · cases hmid
    · exact hmid
  obtain ⟨h1, hf1⟩ := foldl_other (f := f) (w := w) hm1 hmid
  refine ⟨h1, hf2.trans ?_⟩
  rw [hf1]
  exact if_pos rfl

/-- Its `pd__event_add`. -/
theorem foldl_add (hm : m.filter (isSetUpObs s) = [.ctl (.tcp s) fd .add])
    (hh : m.foldl (holderAfter fd) h = some s) :
    ∃ f', m.foldl (Filters.apply w fd) f = Filters.eventSet f' (.tcp s) (w.tcp s).flags := by
  obtain ⟨m1, m2, rfl, -, -, hm2⟩ := List.filter_eq_cons_iff.mp hm
  rw [List.foldl_append, List.foldl_cons] at hh
  rw [List.foldl_append, List.foldl_cons]
  obtain ⟨-, hf2⟩ := foldl_other (f := (m1.foldl (Filters.apply w fd) f).apply w fd
    (.ctl (.tcp s) fd .add)) (w := w) hm2 hh
  exact ⟨_, hf2.trans (if_pos rfl)⟩

end

section
variable {s : Sid} {v v' : StreamView} {now : Nat} {l : List Item}

/-- What a step that works for a stream does at the poller, where `m` is logged. -/
inductive PollerStep (s : Sid) (v v' : StreamView) (m : List Obs) : Prop where
  | quiet : m.filter (isSetUpObs s) = [] → v'.tcp.flags = v.tcp.flags → v'.tcp.fd = v.tcp.fd →
      PollerStep s v v' m
  | set : m.filter (isSetUpObs s) = [.ctl (.tcp s) v'.tcp.fd .mod] → v'.tcp.fd = v.tcp.fd →
      PollerStep s v v' m
  | opened : m.filter (isSetUpObs s) = [.ctl (.tcp s) v'.tcp.fd .add] →
      v'.tcp.flags.pollin = true → PollerStep s v v' m

/-- An operation is queued after `m` was logged. -/
theorem PollerStep.enqueue {m : List Obs} (op : Op) (hm : m.filter (isSetUpObs s) = []) :
    ∃ m', ((v.logs m).enqueue s op).log = v.log ++ m' ∧
      PollerStep s v ((v.logs m).enqueue s op) m' := by
  unfold StreamView.enqueue
  split
  · exact ⟨m, rfl, .quiet hm rfl rfl⟩
  · refine ⟨m ++ [.ctl (.tcp s) v.tcp.fd .mod], ?_, ?_⟩
    · show v.log ++ m ++ [Obs.ctl (.tcp s) v.tcp.fd .mod] = _
      exact List.append_assoc ..
    · refine PollerStep.set ?_ rfl
      rw [List.filter_append, hm]
      simp [isSetUpObs, StreamView.setWrites, StreamView.setPollout, StreamView.logs]

theorem StreamExec.poller {fr : Frame} (h : StreamExec s now v fr v' l) :
    ∃ m, v'.log = v.log ++ m ∧ PollerStep s v v' m := by
  have set : ∀ fd, [Obs.ctl (.tcp s) fd .mod].filter (isSetUpObs s) = [.ctl (.tcp s) fd .mod] := by
    simp [isSetUpObs]
  cases h with
  | loopEnd _ _ | connected _ _ => exact ⟨_, rfl, .set (set _) rfl⟩
  | loopShut _ _ => exact ⟨_, rfl, .set (by simp [isSetUpObs, StreamView.setPollout]) rfl⟩
  | connectedCalled _ _ =>
    exact ⟨_, by rw [logs_log]; exact List.append_assoc ..,
      .set (by simp [isSetUpObs, StreamView.connected]) rfl⟩
  | tryQueued _ => exact PollerStep.enqueue _ rfl
  | closeAgain _ | buffer | ioClosed _ _ | ioStale _ _ _ | ioWrite _ _ _ | ioNothing _ _ | client _ _
  | connectNothing _ => exact ⟨[], (List.append_nil _).symm, .quiet rfl rfl rfl⟩
  | _ => exact ⟨_, rfl, .quiet rfl rfl rfl⟩

/-- So does a call, unless `pd_tcp_connect` has closed the descriptor it wrote. -/
theorem StreamApi.poller {c : Call} (h : StreamApi s v c v' l) :
    (∃ m, v'.log = v.log ++ m ∧ PollerStep s v v' m) ∨
      ∃ b fd, c = .tcpConnect s b ∧ v'.log = v.log ++ [.abandoned s fd] := by
  have set : ∀ fd, [Obs.ctl (.tcp s) fd .mod].filter (isSetUpObs s) = [.ctl (.tcp s) fd .mod] := by
    simp [isSetUpObs]
  have add : ∀ fd, [Obs.opened s fd, .ctl (.tcp s) fd .add].filter (isSetUpObs s) =
      [.ctl (.tcp s) fd .add] := by
    simp [isSetUpObs]
  cases h with
  | accept | connect => exact .inl ⟨_, rfl, .opened (add _) rfl⟩
  | connectRefused => exact .inr ⟨_, _, rfl, rfl⟩
  | writeQueued _ _ => exact .inl (PollerStep.enqueue _ rfl)
  | shutLater _ _ | pause | resume => exact .inl ⟨_, rfl, .set (set _) rfl⟩
  | connectNothing | closeAgain _ | shutNothing _ | setOnData | setOnClose =>
    exact .inl ⟨[], (List.append_nil _).symm, .quiet rfl rfl rfl⟩
  | _ => exact .inl ⟨_, rfl, .quiet rfl rfl rfl⟩

end

/-! ## Steps -/

/-- A step logs after what is logged. -/
theorem step_log {c c' : Cfg} {x : Act} (hs : step c x = some c') :
    ∃ m, c'.world.log = c.world.log ++ m := by
  rcases step_cases hs with ⟨a, f, rest, r, rfl, hst, hr, rfl⟩ |
    ⟨k, a, cb, rest, r, rfl, hst, hr, rfl⟩ | ⟨p, cb, rest, rfl, hst, hcb, rfl⟩ |
    ⟨e, w', rfl, he, rfl⟩
  · obtain ⟨m, hm, -⟩ := (exec_touches hr).log
    exact ⟨m, hm⟩
  · obtain ⟨m, hm, -⟩ := (api_touches hr).log
    exact ⟨m, hm⟩
  · exact ⟨[], (List.append_nil _).symm⟩
  · exact ⟨[], by rw [List.append_nil]; exact (env_keeps he).log⟩

/-- A descriptor that was closed is not open. -/
theorem Kernel.close_self (k : Kernel) (fd : Fd) (r : SysRes) :
    (k.close fd r).1.isOpen fd = false := by
  unfold Kernel.close
  split
  · simpa using ‹(!k.isOpen fd) = true›
  · simp

/-- A `pd_tcp_connect` that abandons a descriptor leaves the stream one that is closed. -/
theorem pdTcpConnect_fd {w : World} {s : Sid} {b : Bool} {a : Answer} {fd : Fd}
    (h : ((pdTcpConnect w s b a).streamView s).log = (w.streamView s).log ++ [.abandoned s fd]) :
    (pdTcpConnect w s b a).kernel.isOpen ((pdTcpConnect w s b a).tcp s).fd = false := by
  have register : ∀ w' : World, w'.log = w.log → ∀ fd',
      ((((pd_eventAdd (w'.logObs (.opened s fd')) s (a.sys 6)).incRefs (.tcp s)).setResult
        0).streamView s).log ≠ (w.streamView s).log ++ [.abandoned s fd] := by
    intro w' hw fd' h
    have hlog : (((pd_eventAdd (w'.logObs (.opened s fd')) s (a.sys 6)).incRefs
        (.tcp s)).setResult 0).log = w'.log ++ [.opened s fd'] ++
          [.ctl (.tcp s) (w'.tcp s).fd .add] ++ [.refInc (.tcp s)] := rfl
    have hlen := congrArg List.length h
    simp [World.streamView, hlog, hw, List.filter_append, isStreamObs] at hlen
  simp only [pdTcpConnect] at h ⊢
  split at h
  · simp at h
  · split at h
    · simp at h
    · split at h
      · simp at h
      · simp at h
      · split at h
        · exact absurd h (register _ (by rfl) _)
        · split at h
          · rename_i hne
            rw [if_pos hne]
            simp only [failErrno, closeQuietly, World.setResult, World.setErrno, World.setKernel,
              World.setTcp, World.logObs, Function.update_self]
            exact Kernel.close_self ..
          · exact absurd h (register _ (by rfl) _)

section
variable {c c' : Cfg} {x : Act} {s : Sid}

theorem isSetUpObs_isStreamObs {o : Obs} (h : isSetUpObs s o = true) : isStreamObs s o = true := by
  unfold isSetUpObs at h
  split at h <;> simp_all [isStreamObs]

/-- The stream's calls of the poller are among what is logged of it. -/
theorem setUp_filter (m : List Obs) :
    (m.filter (isStreamObs s)).filter (isSetUpObs s) = m.filter (isSetUpObs s) := by
  rw [List.filter_filter]
  refine List.filter_congr fun o _ => ?_
  by_cases ho : isSetUpObs s o = true
  · simp [ho, isSetUpObs_isStreamObs ho]
  · simp [ho]

/-- **What a step does at the poller for a stream**, where `m` is logged; otherwise it has left the
stream a descriptor that is closed. -/
theorem step_poller (hs : step c x = some c') {m : List Obs}
    (hm : c'.world.log = c.world.log ++ m) :
    PollerStep s (c.world.streamView s) (c'.world.streamView s) m ∨
      c'.world.kernel.isOpen (c'.world.tcp s).fd = false := by
  have hlog : (c'.world.streamView s).log =
      (c.world.streamView s).log ++ m.filter (isStreamObs s) := by
    show c'.world.log.filter _ = c.world.log.filter _ ++ _
    rw [hm, List.filter_append]
  -- what is known of the stream's own entries is known of all
  have whole : ∀ m', (c'.world.streamView s).log = (c.world.streamView s).log ++ m' →
      PollerStep s (c.world.streamView s) (c'.world.streamView s) m' →
      PollerStep s (c.world.streamView s) (c'.world.streamView s) m := by
    intro m' hm' hp
    obtain rfl := List.append_cancel_left (hm'.symm.trans hlog)
    cases hp with
    | quiet h1 h2 h3 => exact .quiet (setUp_filter m ▸ h1) h2 h3
    | set h1 h2 => exact .set (setUp_filter m ▸ h1) h2
    | opened h1 h2 => exact .opened (setUp_filter m ▸ h1) h2
  have hsame : (c'.world.streamView s).log = (c.world.streamView s).log →
      c'.world.tcp s = c.world.tcp s →
      PollerStep s (c.world.streamView s) (c'.world.streamView s) m := by
    intro hl ht
    exact whole [] (by rw [hl, List.append_nil])
      (.quiet rfl (congrArg Tcp.flags ht) (congrArg Tcp.fd ht))
  rcases step_stream (s := s) hs with hv | ⟨a, f, rest, l, rfl, hst, -, he⟩ |
    ⟨k, a, cb, rest, l, rfl, hst, -, ha⟩
  · exact .inl (hsame (congrArg StreamView.log hv) (congrArg StreamView.tcp hv))
  · obtain ⟨m', hm', hp⟩ := he.poller
    exact .inl (whole m' hm' hp)
  · rcases ha.poller with ⟨m', hm', hp⟩ | ⟨b, fd, rfl, hl⟩
    · exact .inl (whole m' hm' hp)
    · rcases step_cases hs with ⟨_, _, _, _, hx, -⟩ | ⟨_, _, _, _, r, hx, -, hr, rfl⟩ |
        ⟨_, _, _, hx, -⟩ | ⟨_, _, hx, -⟩
      · cases hx
      · cases hx
        cases hr
        exact .inr (pdTcpConnect_fd hl)
      · cases hx
      · cases hx

end

section
variable {s : Sid} {c c' : KqCfg} {x : KqAct}

/-- The poll leaves the streams alone. -/
theorem kqIoRun_streamView {timeout : Int} {a : Answer} {events : List Kevent}
    {r : World × List Item} (h : kqIoRun c timeout a events = some r) :
    r.1.streamView s = c.view s := by
  simp only [kqIoRun] at h
  split at h
  · cases h
    rfl
  · split at h
    · split at h <;> cases h
      rfl
    · cases h
      rfl

/-- **The filters and the flags of an open stream part company in exactly the steps that switch
writable events while reading stays off.** -/
theorem KqCfg.after_agrees_iff {cfg : Cfg} {m : List Obs} (ha : Agrees s c)
    (hlog : cfg.world.log = c.cfg.world.log ++ m)
    (hp : PollerStep s (c.view s) (cfg.world.streamView s) m) (hr : (c.after cfg).Holds s) :
    Agrees s (c.after cfg) ↔ Keeps (c.view s) (cfg.world.streamView s) := by
  have hopen : cfg.world.kernel.isOpen (cfg.world.tcp s).fd = true := by
    by_contra ho
    simp [Holds, after, ho] at hr
  have hholder : m.foldl (holderAfter (cfg.world.tcp s).fd) (c.holder (cfg.world.tcp s).fd) =
      some s := by
    have hr := hr
    simp only [Holds, after, hopen, if_true, hlog, List.drop_left] at hr
    exact hr
  have hfilters : (c.after cfg).filters (cfg.world.tcp s).fd =
      m.foldl (Filters.apply cfg.world (cfg.world.tcp s).fd) (c.filters (cfg.world.tcp s).fd) := by
    simp only [after, hopen, if_true, hlog, List.drop_left]
  have hag : Agrees s (c.after cfg) ↔
      m.foldl (Filters.apply cfg.world (cfg.world.tcp s).fd) (c.filters (cfg.world.tcp s).fd) =
        (cfg.world.tcp s).flags.filters (.tcp s) := by
    rw [← hfilters]
    exact ⟨fun h => h hr, fun h _ => h⟩
  rw [hag]
  cases hp with
  | quiet hm hflags hfd =>
    have hflags : (cfg.world.tcp s).flags = (c.cfg.world.tcp s).flags := hflags
    have hfd : (cfg.world.tcp s).fd = (c.cfg.world.tcp s).fd := hfd
    obtain ⟨hold, hf⟩ := foldl_other (w := cfg.world) (f := c.filters (cfg.world.tcp s).fd) hm hholder
    rw [hf]
    rw [hfd] at hold ⊢
    have hk : Keeps (c.view s) (cfg.world.streamView s) :=
      .inr (.inr (congrArg Flags.pollout hflags))
    exact iff_of_true (hflags ▸ ha hold) hk
  | set hm hfd =>
    have hm : m.filter (isSetUpObs s) = [.ctl (.tcp s) (cfg.world.tcp s).fd .mod] := hm
    have hfd : (cfg.world.tcp s).fd = (c.cfg.world.tcp s).fd := hfd
    obtain ⟨hold, hf⟩ := foldl_set (w := cfg.world) (f := c.filters (cfg.world.tcp s).fd) hm hholder
    rw [hfd] at hold
    rw [hf, eventSet_eq_iff, hfd, ha hold]
    simp only [Keeps, Flags.filters, KqCfg.view, World.streamView]
    cases (c.cfg.world.tcp s).flags.pollin <;> cases (c.cfg.world.tcp s).flags.pollout <;>
      cases (cfg.world.tcp s).flags.pollin <;> cases (cfg.world.tcp s).flags.pollout <;> simp
  | opened hm hin =>
    have hm : m.filter (isSetUpObs s) = [.ctl (.tcp s) (cfg.world.tcp s).fd .add] := hm
    obtain ⟨f', hf⟩ := foldl_add (w := cfg.world) (f := c.filters (cfg.world.tcp s).fd) hm hholder
    rw [hf, eventSet_eq_iff]
    exact iff_of_true (.inl hin) (.inl hin)

/-- **One step.** -/
theorem kqStep_agrees_iff (ha : Agrees s c) (h : kqStep c x = some c') (hr : c'.Holds s) :
    Agrees s c' ↔ Keeps (c.view s) (c'.view s) := by
  cases x with
  | poll a events =>
    simp only [kqStep] at h
    split at h
    · obtain ⟨r, hq, rfl⟩ := Option.map_eq_some_iff.mp h
      have hv : r.1.streamView s = c.view s := kqIoRun_streamView hq
      have ht : r.1.tcp s = c.cfg.world.tcp s := congrArg StreamView.tcp hv
      refine iff_of_true (fun hr => ?_) (.inr (.inr (congrArg (·.tcp.flags.pollout) hv)))
      simp only [KqCfg.Holds, ht] at hr ⊢
      exact ha hr
    · cases h
  | step x =>
    obtain ⟨hc, hs⟩ := kqStep_step h
    -- the step is taken where the streams are the same
    obtain ⟨w, hw, hlog, hs⟩ : ∃ w : World, (∀ s, w.streamView s = c.view s) ∧
        w.log = c.cfg.world.log ∧ step ⟨w, c.cfg.stack⟩ x = some c'.cfg := by
      rcases hs with hs | ⟨l, a, -, hs⟩
      · exact ⟨_, fun _ => rfl, rfl, hs⟩
      · exact ⟨c.cfg.world.listens l, fun _ => rfl, rfl, hs⟩
    obtain ⟨m, hm⟩ := step_log hs
    have hm : c'.cfg.world.log = w.log ++ m := hm
    rw [hlog] at hm
    rcases step_poller (s := s) hs (m := m) (by rw [hm, ← hlog]) with hp | hclosed
    · have hp : PollerStep s (w.streamView s) (c'.view s) m := hp
      rw [hw s] at hp
      rw [hc] at hr ⊢
      exact KqCfg.after_agrees_iff ha hm hp hr
    · rw [hc] at hr
      simp [KqCfg.Holds, KqCfg.after, hclosed] at hr

/-- No call of this step loses a change for writing. -/
def StepKeeps (s : Sid) (c : KqCfg) (x : KqAct) : Prop :=
  ∀ c', kqStep c x = some c' → Keeps (c.view s) (c'.view s)

instance (v v' : StreamView) : Decidable (Keeps v v') :=
  inferInstanceAs (Decidable (_ ∨ _ ∨ _))

instance (s : Sid) (c : KqCfg) (x : KqAct) : Decidable (StepKeeps s c x) :=
  match h : kqStep c x with
  | none => .isTrue fun c' hs => by rw [h] at hs; cases hs
  | some c' => decidable_of_iff (Keeps (c.view s) (c'.view s))
      ⟨fun hk c'' hs => by rw [h] at hs; cases hs; exact hk, fun hall => hall c' h⟩

/-- **kqueue agrees with the flags of an open stream, as epoll does, exactly as long as no call
switches writable events while reading is paused.** A run all of whose steps keep to that agrees
after each of them, and the first step that does not makes the two differ. -/
theorem kqueue_agrees_iff (hc : KqRun (StepKeeps s) c) :
    Agrees s c ∧ ∀ x c', kqStep c x = some c' → c'.Holds s →
      (Agrees s c' ↔ Keeps (c.view s) (c'.view s)) := by
  have hagrees : Agrees s c := by
    induction hc with
    | init hi =>
      intro hr
      rw [KqCfg.Holds, hi.2.2] at hr
      cases hr
    | step _ hok hs ih =>
      intro hr
      exact (kqStep_agrees_iff ih hs hr).mpr (hok _ hs) hr
  exact ⟨hagrees, fun x c' hs hr => kqStep_agrees_iff hagrees hs hr⟩

end

/-! ## A write that blocks while reading is paused -/

/-- `task_signal` is registered and nothing else. -/
def KqCfg.start (fds : List Fd) : KqCfg :=
  { cfg := Cfg.start fds
    filters := fun fd => if fd = 3 then { read := some .taskSignal, write := none } else .none
    holder := fun _ => none }

theorem KqCfg.start_init (fds : List Fd) : (KqCfg.start fds).Init :=
  ⟨Cfg.start_init fds, rfl, rfl⟩

/-- The application writes a byte to an open stream, for which the kernel has no room. -/
def blockedWrite : List KqAct :=
  [.step (.api (.tcpWrite 0 0 (pdWriteInit [65] true (by decide))) (.ok 0 [])),
   .step (.lib .again)]

/-- While the stream is read, both filters are registered. -/
theorem kqueue_agrees_reading : ∃ c, KqRun (StepKeeps 0) c ∧ c.Holds 0 ∧
    c.filters 5 = { read := some (.tcp 0), write := some (.tcp 0) } ∧ Agrees 0 c := by
  have hplay : (Machine.play kqStep (StepKeeps 0) (KqCfg.start [5])
      (.step (.api (.tcpAccept 0 5) (.ok 0 [])) :: blockedWrite)).map
        (fun c => (decide (c.Holds 0), c.filters 5)) =
      some (true, { read := some (.tcp 0), write := some (.tcp 0) }) := by
    rfl
  obtain ⟨c, hc, hv⟩ := Option.map_eq_some_iff.mp hplay
  rw [Prod.mk.injEq] at hv
  have hrun : KqRun (StepKeeps 0) c := Machine.Reach.play (.init (KqCfg.start_init [5])) hc
  exact ⟨c, hrun, of_decide_eq_true hv.1, hv.2, (kqueue_agrees_iff hrun).1⟩

/-- While it is paused, `EV_DELETE` for reading fails before the change for writing is looked at:
the flags ask for writable events, and no filter is registered. -/
theorem not_kqueue_agrees : ¬ ∀ (s : Sid) (c : KqCfg), KqRun (fun _ _ => True) c → Agrees s c := by
  have hplay : (Machine.play kqStep (fun _ _ => True) (KqCfg.start [5])
      (.step (.api (.tcpAccept 0 5) (.ok 0 [])) :: .step (.api (.tcpPause 0) (.ok 0 [])) ::
        blockedWrite)).map (fun c => (decide (c.Holds 0), (c.cfg.world.tcp 0).flags,
          c.filters (c.cfg.world.tcp 0).fd)) =
      some (true, ⟨false, true⟩, .none) := by
    rfl
  obtain ⟨c, hc, hv⟩ := Option.map_eq_some_iff.mp hplay
  simp only [Prod.mk.injEq] at hv
  intro hall
  have hagrees := hall 0 c (Machine.Reach.play (.init (KqCfg.start_init [5])) hc)
    (of_decide_eq_true hv.1)
  rw [hv.2.1, hv.2.2] at hagrees
  exact absurd hagrees (by decide)

end Pandio
