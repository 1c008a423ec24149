import Pandio.Unix.TimersDue
import Pandio.Unix.LoopPhases
import Pandio.Unix.Kqueue

/- The poll of `pd_io_run` and signals, on epoll and on kqueue. The timeout is computed
   at the end of an iteration, or when `pd_io_run` is called, and a poll that a signal
   interrupts is repeated with the same timeout, however much time it has taken.

   The loops of event_epoll.c and event_kqueue.c differ in what their polls report.
   Both are runs of one loop whose poll may report anything, and what is shown of its
   timeouts holds for both. Callbacks take no time here: the clock advances while the
   loop polls, and at no other time.

   Correspondence (C ↔ Lean):
     the loop of `pd_io_run` around its poll ↔ `pollWith`
     `epoll_wait`, `kevent`                  ↔ `epollAct`, `kqAct`
     `pd_tcp_server_close` on kqueue         ↔ `LoopAct.serverClose` -/
namespace Pandio
open World

/-! ## A loop with any poller -/

/-- The head of the loop of `pd_io_run`, with a poll that gives `r` and reports `events`. -/
def pollWith (w : World) (timeout : Int) (r : SysRes) (events : List (Handle × Events)) :
    Option (World × List Item) :=
  if w.refs = 0 then some (w.goOn [])
  else
    match r with
    | .err e => if e = EINTR then some ((w.setErrno (.err e)).goOn [.ioRun timeout]) else none
    | .ok _ =>
      some ((w.setNow w.kernel.clock).goOn (events.map (fun e => .dispatch e.1 e.2) ++
        [.timersRun, .pendingClose, .ioAfterTick, .ioNext]))

/-- What happens next: a step that is no poll, or a poll; or a call of `pd_tcp_server_close` where
`pd__event_del` does nothing. -/
inductive LoopAct where
  | step (x : Act)
  | poll (r : SysRes) (events : List (Handle × Events))
  | serverClose (l : Lid) (a : Answer)

def loopStep (c : Cfg) : LoopAct → Option Cfg
  | .step x =>
    match x, c.stack with
    | .lib _, .lib (.ioRun _) :: _ => none
    | _, _ => step c x
  | .poll r events =>
    match c.stack with
    | .lib (.ioRun timeout) :: rest =>
      (pollWith c.world timeout r events).map fun q => ⟨q.1, q.2 ++ rest⟩
    | _ => none
  | .serverClose l a =>
    match c.stack with
    | .app _ :: _ => some ⟨kqTcpServerClose c.world l a, c.stack⟩
    | _ => none

/-- The runs of the loop whose steps all meet `ok`. -/
abbrev LoopRun (ok : Cfg → LoopAct → Prop) : Cfg → Prop := Machine.Reach loopStep ok Cfg.Init

/-- A step of the machine of event_epoll.c. -/
def epollAct (c : Cfg) (x : Act) : LoopAct :=
  match x, c.stack with
  | .lib a, .lib (.ioRun _) :: _ =>
    .poll (a.sys 0) ((polledEvents c.world.kernel a.events).take MAX_EVENTS)
  | x, _ => .step x

/-- A step of the machine of event_kqueue.c. -/
def kqAct (c : KqCfg) : KqAct → LoopAct
  | .step (.api (.tcpServerClose l) a) => .serverClose l a
  | .step x => .step x
  | .poll a events => .poll (a.sys 0) ((events.filterMap c.reported).take MAX_EVENTS)

theorem epoll_loopStep {c c' : Cfg} {x : Act} (h : step c x = some c') :
    loopStep c (epollAct c x) = some c' := by
  cases x with
  | lib a =>
    cases hst : c.stack with
    | nil => simp [step, hst] at h
    | cons i rest =>
      cases i with
      | app k => simp [step, hst] at h
      | lib f =>
        cases f with
        | ioRun timeout =>
          have hpoll : ioRun c.world timeout a = pollWith c.world timeout (a.sys 0)
              ((polledEvents c.world.kernel a.events).take MAX_EVENTS) := by
            unfold ioRun pollWith
            cases a.sys 0 <;> rfl
          simp only [epollAct, hst, loopStep]
          rw [← hpoll]
          simpa [step, hst, exec] using h
        | _ => simpa [epollAct, hst, loopStep] using h
  | _ => simpa [epollAct, loopStep] using h

theorem kq_loopStep {c c' : KqCfg} {x : KqAct} (h : kqStep c x = some c') :
    loopStep c.cfg (kqAct c x) = some c'.cfg := by
  cases x with
  | step x =>
    simp only [kqStep] at h
    split at h
    · cases h
    · rename_i l a cb rest hst
      cases h
      simp only [kqAct, loopStep, hst, KqCfg.after]
    · rename_i x _ _ hlib hclose
      obtain ⟨cfg, hcfg, rfl⟩ := Option.map_eq_some_iff.mp h
      have hx : kqAct c (.step x) = .step x := by
        unfold kqAct
        split
        · rename_i l a he
          cases he
          -- the call is one of a callback
          rcases step_cases hcfg with ⟨_, _, _, _, hx, -⟩ | ⟨_, _, cb, rest, _, hx, hst, -⟩ |
            ⟨_, _, _, hx, -⟩ | ⟨_, _, hx, -⟩
          · cases hx
          · exact absurd hst (hclose l a cb rest rfl)
          · cases hx
          · cases hx
        · rename_i he
          cases he
          rfl
        · rename_i he
          cases he
      rw [hx]
      simp only [loopStep]
      exact hcfg
  | poll a events =>
    simp only [kqStep] at h
    split at h
    · rename_i timeout rest hst
      obtain ⟨r, hr, rfl⟩ := Option.map_eq_some_iff.mp h
      have hpoll : kqIoRun c timeout a events = pollWith c.cfg.world timeout (a.sys 0)
          ((events.filterMap c.reported).take MAX_EVENTS) := by
        unfold kqIoRun pollWith
        cases a.sys 0 <;> rfl
      simp only [kqAct, loopStep, hst, ← hpoll, hr, Option.map_some]
    · cases h

/-- The state in which the listener is registered, if its descriptor is open. -/
def Cfg.listens (c : Cfg) (l : Lid) : Cfg := ⟨c.world.listens l, c.stack⟩

/-- From there, `pd_tcp_server_close` is the same on all pollers. -/
theorem loopStep_serverClose {c c' : Cfg} {l : Lid} {a : Answer}
    (h : loopStep c (.serverClose l a) = some c') :
    loopStep (c.listens l) (.step (.api (.tcpServerClose l) a)) = some c' := by
  simp only [loopStep] at h
  split at h
  · rename_i cb rest hst
    cases h
    simp [loopStep, step, Cfg.listens, hst, api, goOn, pdTcpServerClose_listens]
  · cases h

/-! ## Timeouts -/

/-- The loop is in its poll. -/
def polling (c : Cfg) : Bool :=
  match c.stack with
  | .lib (.ioRun _) :: _ => c.world.refs ≠ 0
  | _ => false

/-- The step is one of the surroundings. -/
def LoopAct.isEnv : LoopAct → Bool
  | .step (.env _) => true
  | _ => false

/-- Callbacks take no time. -/
def NoTimeInCallbacks (c : Cfg) (x : LoopAct) : Prop :=
  ∀ n, x = .step (.env (.tick n)) → polling c = true

/-- A poll call that is made now does not wait past the deadline of an active timer. -/
def PollsInTime (c : Cfg) : Prop :=
  ∀ timeout rest, c.stack = .lib (.ioRun timeout) :: rest → c.world.refs ≠ 0 →
    ∀ t, (c.world.timer t).active = true →
      0 ≤ timeout ∧ timeout ≤ max 0 ((c.world.timer t).timeout - (c.world.kernel.clock : Int))

/-- A signal in the poll does no harm: no time has passed since `ctx->now`, or a timer is due then, or
all deadlines are beyond the largest timeout. -/
def InterruptHarmless (w : World) : Prop :=
  w.kernel.clock = w.now ∨ (∃ t, (w.timer t).active = true ∧ (w.timer t).timeout = w.now) ∨
    ∀ t, (w.timer t).active = true → w.kernel.clock + INT_MAX ≤ (w.timer t).timeout

/-- The step is no interrupted poll, or a harmless one. -/
def NoLateSignal (c : Cfg) (x : LoopAct) : Prop :=
  ∀ events, x = .poll (.err EINTR) events → c.world.refs ≠ 0 → InterruptHarmless c.world

/-- The timers are as `pd_timers_next` expects them, and callbacks take no time. -/
def TimersInTime (c : Cfg) (x : LoopAct) : Prop :=
  (∀ x', x = .step x' → TimersKept c x') ∧ NoTimeInCallbacks c x

instance (c : Cfg) : (x : LoopAct) → Decidable (NoTimeInCallbacks c x)
  | .step (.env (.tick n)) => decidable_of_iff (polling c = true)
      ⟨fun h _ he => by cases he; exact h, fun h => h n rfl⟩
  | .step (.env (.arrive ..)) | .step (.env (.peerFin _)) | .step (.env (.workDone _))
  | .step (.env (.openFd _)) | .step (.env (.closeFd _)) | .step (.lib _) | .step (.api ..)
  | .step (.ret _) | .poll .. | .serverClose .. => .isTrue fun _ he => by cases he

instance (c : Cfg) : (x : LoopAct) → Decidable (TimersInTime c x)
  | .step x => decidable_of_iff (TimersKept c x ∧ NoTimeInCallbacks c (.step x))
      ⟨fun h => ⟨fun _ he => by cases he; exact h.1, h.2⟩, fun h => ⟨h.1 x rfl, h.2⟩⟩
  | .poll .. | .serverClose .. => .isTrue ⟨fun _ he => (by cases he), fun _ he => (by cases he)⟩

/-! ## The invariant -/

/-- A loop about to poll has the timeout of `pd_timers_next`, and no timer is overdue; the loop's time
is the clock's except in a poll. -/
structure LoopInv (c : Cfg) : Prop where
  valid : TimersValid c.world
  due : DueInv c
  order : c.stack.IsChain Above
  now : polling c = false → c.world.now = c.world.kernel.clock
  le : c.world.now ≤ c.world.kernel.clock
  timeout : ∀ timeout rest, c.stack = .lib (.ioRun timeout) :: rest →
    timeout = pdTimersNext c.world

section
variable {c c' : Cfg} {w w' : World} {a : Answer} {r : World × List Item}

theorem time_of_timerBase (h : w'.timerBase = w.timerBase) :
    w'.now = w.now ∧ w'.kernel.clock = w.kernel.clock :=
  ⟨congrArg (·.2.now) h, congrArg (·.2.clock) h⟩

/-- Only the poll reads the clock. -/
theorem exec_time {f : Frame} (hf : ∀ timeout, f ≠ .ioRun timeout) (h : exec w f a = some r) :
    r.1.now = w.now ∧ r.1.kernel.clock = w.kernel.clock := by
  cases f with
  | timersRun =>
    simp only [exec, pdTimersRun] at h
    split at h
    · cases h
      exact ⟨rfl, rfl⟩
    · split at h
      · cases h
        exact ⟨rfl, rfl⟩
      · obtain ⟨w1, hw, h⟩ := Option.bind_eq_some_iff.mp h
        have ht := pdTimerStop_time hw
        split at h <;> cases h <;> exact ht
  | timersRearm t =>
    simp only [exec, pdTimersRearm] at h
    split at h
    · obtain ⟨w1, hw, rfl⟩ := Option.map_eq_some_iff.mp h
      exact pdTimerStart_time hw
    · cases h
      exact ⟨rfl, rfl⟩
  | ioRun timeout => exact absurd rfl (hf timeout)
  | _ => exact time_of_timerBase (exec_timerBase rfl h)

theorem api_time {k : Call} (h : api w k a = some r) :
    r.1.now = w.now ∧ r.1.kernel.clock = w.kernel.clock := by
  cases k with
  | timerStart t b d =>
    obtain ⟨w1, hw, rfl⟩ := Option.map_eq_some_iff.mp h
    exact pdTimerStart_time (w := w.logObs (.timerStart t)) hw
  | timerRepeat t b d =>
    obtain ⟨w1, hw, rfl⟩ := Option.map_eq_some_iff.mp h
    unfold pdTimerRepeat at hw
    have ht := pdTimerStart_time hw
    exact ht
  | timerStop t =>
    obtain ⟨w1, hw, rfl⟩ := Option.map_eq_some_iff.mp h
    have ht := pdTimerStop_time hw
    exact ht
  | _ => exact time_of_timerBase (api_timerBase rfl h)

theorem env_time {e : Env} (h : env w e = some w') : w'.now = w.now ∧ w'.refs = w.refs ∧
    (w'.kernel.clock = w.kernel.clock ∨ ∃ n, e = .tick n ∧ w'.kernel.clock = w.kernel.clock + n) := by
  cases e with
  | tick n =>
    simp only [env] at h
    split at h <;> cases h
    exact ⟨rfl, rfl, .inr ⟨n, rfl, rfl⟩⟩
  | openFd fd =>
    simp only [env] at h
    split at h <;> cases h
    exact ⟨rfl, rfl, .inl (Kernel.newSocket_clock ..)⟩
  | closeFd fd =>
    cases h
    exact ⟨rfl, rfl, .inl (Kernel.close_clock ..)⟩
  | arrive | peerFin | workDone =>
    simp only [env] at h
    split at h <;> cases h
    exact ⟨rfl, rfl, .inl rfl⟩

end

/-! ## Steps -/

section
variable {c c' : Cfg} {i : Item} {l rest : List Item}

theorem order_not_ioRun {timeout : Int} {tail : List Item} (hchain : (i :: rest).IsChain Above) :
    rest ≠ .lib (.ioRun timeout) :: tail := by
  rintro rfl
  exact (List.isChain_cons_cons.mp hchain).1

theorem polling_of_ne (h : ∀ timeout rest, c.stack ≠ .lib (.ioRun timeout) :: rest) :
    polling c = false := by
  unfold polling
  split
  · rename_i timeout rest hst
    exact absurd hst (h timeout rest)
  · rfl

theorem LoopInv.poll {r : SysRes} {events : List (Handle × Events)} (hinv : LoopInv c)
    (hs : loopStep c (.poll r events) = some c') : LoopInv c' := by
  simp only [loopStep] at hs
  split at hs
  · rename_i timeout rest hst
    obtain ⟨q, hq, rfl⟩ := Option.map_eq_some_iff.mp hs
    have hchain := hinv.order
    have hnone := hinv.due.done
    rw [hst] at hchain hnone
    have hnone := hnone rfl
    unfold pollWith at hq
    split at hq
    · -- the loop ends
      rename_i hrefs
      cases hq
      have hpoll : polling c = false := by simp [polling, hst, hrefs]
      refine ⟨hinv.valid, ⟨hinv.due.bounded, fun _ => hnone⟩, hchain.tail, fun _ => hinv.now hpoll,
        hinv.le, ?_⟩
      intro timeout' tail ht
      exact absurd ht (order_not_ioRun hchain)
    · rename_i hrefs
      split at hq
      · split at hq <;> cases hq
        -- the poll was interrupted
        refine ⟨hinv.valid.congr rfl rfl, ⟨hinv.due.bounded, fun _ => hnone⟩, hchain, ?_,
          hinv.le, ?_⟩
        · intro hfalse
          exact absurd hfalse (by simp [polling, goOn, setErrno, hrefs])
        · intro timeout' tail ht
          cases ht
          exact hinv.timeout timeout rest hst
      · cases hq
        have hp : (Frame.ioRun timeout).Pushes _ := .poll timeout events
        obtain ⟨hl, hlast⟩ := hp.phases
        refine ⟨hinv.valid.congr rfl rfl, ⟨hinv.due.bounded, ?_⟩, ?_, fun _ => rfl, le_refl _, ?_⟩
        · intro hd
          simp only [goOn, List.map_append, List.map_map, List.map_cons, List.map_nil,
            List.append_assoc, List.cons_append, Function.comp_def, timersDone_poll] at hd
          cases hd
        · have happ := Stack.chain_replace hchain hl hlast
          simpa [goOn, Function.comp_def] using happ
        · intro timeout' tail ht
          exfalso
          cases events with
          | nil => cases ht
          | cons e events => cases ht
  · cases hs

/-- A step that is no poll leaves the times equal. -/
theorem LoopInv.step_now {x : Act} (hinv : LoopInv c) (hx : (LoopAct.step x).isEnv = false)
    (hs : loopStep c (.step x) = some c') : c'.world.now = c'.world.kernel.clock := by
  have hpoll : ∀ a timeout rest, x = .lib a → c.stack ≠ .lib (.ioRun timeout) :: rest := by
    rintro a timeout rest rfl hst
    simp [loopStep, hst] at hs
  have hs : Pandio.step c x = some c' := by simpa only [loopStep] using hs
  rcases step_cases hs with ⟨a, f, rest, r, rfl, hst, hr, rfl⟩ |
    ⟨k, a, cb, rest, r, rfl, hst, hr, rfl⟩ | ⟨p, cb, rest, rfl, hst, hcb, rfl⟩ |
    ⟨e, w', rfl, he, rfl⟩
  · have htime := exec_time (fun timeout hf => hpoll a timeout rest rfl (hf ▸ hst)) hr
    have hnow := hinv.now (polling_of_ne fun timeout rest => hpoll a timeout rest rfl)
    show r.1.now = r.1.kernel.clock
    rw [htime.1, htime.2, hnow]
  · have htime := api_time hr
    have hnow := hinv.now (polling_of_ne fun timeout rest => by rw [hst]; simp)
    show r.1.now = r.1.kernel.clock
    rw [htime.1, htime.2, hnow]
  · exact hinv.now (polling_of_ne fun timeout rest => by rw [hst]; simp)
  · cases hx

theorem LoopInv.step {x : Act} (hinv : LoopInv c) (hok : TimersInTime c (.step x))
    (hs : loopStep c (.step x) = some c') : LoopInv c' := by
  have hkept := hok.1 x rfl
  have hpoll : ∀ a timeout rest, x = .lib a → c.stack ≠ .lib (.ioRun timeout) :: rest := by
    rintro a timeout rest rfl hst
    simp [loopStep, hst] at hs
  have hstay : (LoopAct.step x).isEnv = false → c'.world.now = c'.world.kernel.clock :=
    fun hx => hinv.step_now hx hs
  have hs : Pandio.step c x = some c' := by simpa only [loopStep] using hs
  have hvalid := (step_timers hinv.valid hkept.1 hs).1
  have hdue := hinv.due.step hinv.valid hkept hs
  have hchain := hinv.order
  rcases step_cases hs with ⟨a, f, rest, r, rfl, hst, hr, rfl⟩ |
    ⟨k, a, cb, rest, r, rfl, hst, hr, rfl⟩ | ⟨p, cb, rest, rfl, hst, hcb, rfl⟩ |
    ⟨e, w', rfl, he, rfl⟩
  · have hf : ∀ timeout, f ≠ .ioRun timeout := by
      rintro timeout rfl
      exact hpoll a timeout rest rfl hst
    have hsame := hstay rfl
    rw [hst] at hchain
    -- the poll has its own step, so this frame is another
    obtain ⟨hl, hlast⟩ := (exec_pushes hr).phases
    refine ⟨hvalid, hdue, Stack.chain_replace hchain hl hlast, fun _ => hsame, le_of_eq hsame, ?_⟩
    intro timeout tail ht
    cases hitems : r.2 with
    | nil =>
      rw [hitems] at ht
      exact absurd ht (order_not_ioRun hchain)
    | cons i l =>
      rw [hitems, List.cons_append, List.cons.injEq] at ht
      rcases ((exec_pushes hr).top hitems).2.2 timeout ht.1 with h | rfl
      · exact absurd h (hf timeout)
      · cases hr
        cases hitems
        cases ht.1
        rfl
  · have hsame := hstay rfl
    rw [hst] at hchain
    have hp := api_pushes hr
    have horder := Stack.chain_push hchain hp.phases fun _ _ => Above.of_app
    refine ⟨hvalid, hdue, horder, fun _ => hsame, le_of_eq hsame, ?_⟩
    intro timeout tail ht
    cases hitems : r.2 with
    | nil =>
      rw [hitems] at ht
      cases ht
    | cons i l =>
      rw [hitems, List.cons_append, List.cons.injEq] at ht
      obtain rfl := (hp.top hitems).2.2 timeout ht.1
      cases hr
      cases hitems
      cases ht.1
      rfl
  · have hsame := hstay rfl
    rw [hst] at hchain
    refine ⟨hvalid, hdue, hchain.tail, fun _ => hsame, le_of_eq hsame, ?_⟩
    intro timeout tail ht
    exact absurd ht (order_not_ioRun hchain)
  · obtain ⟨hnow, hrefs, hclock⟩ := env_time he
    have hsame : polling ⟨w', c.stack⟩ = polling c := by
      simp only [polling, hrefs]
    refine ⟨hvalid, hdue, hchain, ?_, ?_, ?_⟩
    · intro hp
      rw [hsame] at hp
      -- time passes during the poll only
      rcases hclock with hclock | ⟨n, rfl, _⟩
      · show w'.now = w'.kernel.clock
        rw [hnow, hclock]
        exact hinv.now hp
      · rw [hok.2 n rfl] at hp
        cases hp
    · show w'.now ≤ w'.kernel.clock
      have := hinv.le
      rcases hclock with hclock | ⟨n, _, hclock⟩ <;> omega
    · intro timeout tail ht
      rw [(env_pendingCloses he).2]
      exact hinv.timeout timeout tail ht

theorem LoopInv.listens {l : Lid} (hinv : LoopInv c) : LoopInv (c.listens l) :=
  ⟨hinv.valid.congr rfl rfl, ⟨hinv.due.bounded, hinv.due.done⟩, hinv.order, hinv.now, hinv.le,
    hinv.timeout⟩

theorem TimersInTime.serverClose {l : Lid} {a : Answer} :
    TimersInTime (c.listens l) (.step (.api (.tcpServerClose l) a)) := by
  refine ⟨fun x' he => ?_, fun n he => by cases he⟩
  cases he
  refine ⟨?_, ?_, fun hx => by cases hx⟩ <;> intro p hp <;> simp [started, rearmed] at hp

theorem LoopRun.inv {c : Cfg} (r : LoopRun TimersInTime c) : LoopInv c := by
  refine Machine.Reach.invariant (P := LoopInv) ?_ ?_ r
  · rintro c ⟨k, fd, -, -, rfl⟩
    refine ⟨⟨⟨_, heapInit_valid _, fun t => by simp [World.init, pdTimerInit]⟩,
      by simp [World.init, heapInit]⟩, ⟨by simp [World.init, pdTimerInit], ?_⟩, by simp, fun _ => rfl,
      le_refl _, by simp⟩
    simp [NoneOverdue, World.init, pdTimerInit]
  · intro c x c' _ hinv hok hs
    cases x with
    | step x => exact hinv.step hok hs
    | poll r events => exact hinv.poll hs
    | serverClose l a => exact hinv.listens.step .serverClose (loopStep_serverClose hs)

/-! ## The timeouts of the polls -/

/-- The timeout of `pd_timers_next`, compared with the clock. -/
theorem timersNext_inTime_iff {w : World} (hv : TimersValid w) (hnone : NoneOverdue w)
    (hlt : ∀ t, (w.timer t).timeout < 2 ^ 64) (hle : w.now ≤ w.kernel.clock) :
    (∀ t, (w.timer t).active = true → 0 ≤ pdTimersNext w ∧
      pdTimersNext w ≤ max 0 ((w.timer t).timeout - (w.kernel.clock : Int))) ↔
      InterruptHarmless w := by
  cases hpeek : heapPeek w.timers with
  | none =>
    have hidle : ∀ t, (w.timer t).active = false := (hv.peek []).2 hpeek
    refine iff_of_true (fun t hact => ?_) (.inr (.inr fun t hact => ?_)) <;>
      (rw [hidle t] at hact; cases hact)
  | some m =>
    have hmin := (hv.peek []).1 m hpeek
    have hact : (w.timer m).active = true := hmin.active
    have hleast : ∀ t, (w.timer t).active = true → (w.timer m).timeout ≤ (w.timer t).timeout :=
      hmin.le
    have hnext := (hnone.nextExact hv hlt).earliest m hact hleast
    have hahead := hnone m hact
    rw [hnext]
    have hmax : 0 < INT_MAX := by decide
    constructor
    · intro h
      have hm := (h m hact).2
      by_cases hclock : w.kernel.clock = w.now
      · exact .inl hclock
      by_cases hdue : (w.timer m).timeout = w.now
      · exact .inr (.inl ⟨m, hact, hdue⟩)
      · -- the timeout is the largest, or it was computed too early
        refine .inr (.inr fun t ht => ?_)
        have := hleast t ht
        omega
    · rintro (hclock | ⟨t', ht', hdue⟩ | hfar) t ht
      · have := hleast t ht
        omega
      · have := hleast t' ht'
        omega
      · have := hfar t ht
        omega

/-- **A poll call of a run waits past no deadline exactly if it is no poll that was interrupted too
late.** -/
theorem polls_inTime_iff {x : LoopAct} (r : LoopRun TimersInTime c) (hok : TimersInTime c x)
    (hx : x.isEnv = false) (hs : loopStep c x = some c') : PollsInTime c' ↔ NoLateSignal c x := by
  have hinv := r.inv
  have hinv' := LoopRun.inv (r.step hok hs)
  have hmade : ∀ timeout rest, c'.stack = .lib (.ioRun timeout) :: rest →
      ((∀ t, (c'.world.timer t).active = true → 0 ≤ timeout ∧
        timeout ≤ max 0 ((c'.world.timer t).timeout - (c'.world.kernel.clock : Int))) ↔
        InterruptHarmless c'.world) := by
    intro timeout rest hst
    have hnone : NoneOverdue c'.world := hinv'.due.done (by rw [hst]; rfl)
    rw [hinv'.timeout timeout rest hst]
    exact timersNext_inTime_iff hinv'.valid hnone hinv'.due.bounded hinv'.le
  have calm : c'.world.now = c'.world.kernel.clock → PollsInTime c' := by
    intro hnow timeout rest hst _
    exact (hmade timeout rest hst).mpr (.inl hnow.symm)
  cases x with
  | step x => exact iff_of_true (calm (hinv.step_now hx hs)) fun _ h => by cases h
  | serverClose l a =>
    have hnow := hinv.listens.step_now rfl (loopStep_serverClose hs)
    exact iff_of_true (calm hnow) fun _ h => by cases h
  | poll res events =>
    simp only [loopStep] at hs
    split at hs
    · rename_i timeout rest hst
      obtain ⟨q, hq, rfl⟩ := Option.map_eq_some_iff.mp hs
      have hchain := hinv.order
      rw [hst] at hchain
      unfold pollWith at hq
      split at hq
      · rename_i hrefs
        cases hq
        refine iff_of_true ?_ fun _ _ hne => absurd hrefs hne
        intro timeout' tail ht
        exact absurd ht (order_not_ioRun hchain)
      · rename_i hrefs
        split at hq
        · split at hq <;> cases hq
          rename_i e he
          subst he
          have hharm := hmade timeout rest rfl
          constructor
          · intro h events' _ _
            exact hharm.mp (h timeout rest rfl hrefs)
          · intro h timeout' tail ht _
            cases ht
            exact hharm.mpr (h events rfl hrefs)
        · cases hq
          refine iff_of_true ?_ fun _ h => by cases h
          intro timeout' tail ht
          cases events <;> cases ht
    · cases hs

/-- **On epoll and on kqueue the polls wait past no deadline exactly as long as no poll is interrupted
late**: a poll call that does is one that repeats such a poll, and every one that repeats such a poll
does. -/
theorem signals_delay_iff (c c' : Cfg) (x : Act) (k k' : KqCfg) (y : KqAct) :
    (Run (fun c x => TimersInTime c (epollAct c x)) c →
      TimersInTime c (epollAct c x) → (epollAct c x).isEnv = false → Pandio.step c x = some c' →
      (PollsInTime c' ↔ NoLateSignal c (epollAct c x))) ∧
    (KqRun (fun k y => TimersInTime k.cfg (kqAct k y)) k →
      TimersInTime k.cfg (kqAct k y) → (kqAct k y).isEnv = false → kqStep k y = some k' →
      (PollsInTime k'.cfg ↔ NoLateSignal k.cfg (kqAct k y))) := by
  constructor
  · intro r hok hx hs
    have hrun : LoopRun TimersInTime c :=
      Machine.Reach.map id epollAct (fun _ h => h) (fun _ _ h => h)
        (fun _ _ _ h => epoll_loopStep h) r
    exact polls_inTime_iff hrun hok hx (epoll_loopStep hs)
  · intro r hok hx hs
    have hrun : LoopRun TimersInTime k.cfg :=
      Machine.Reach.map KqCfg.cfg kqAct (fun _ h => h.1) (fun _ _ h => h)
        (fun _ _ _ h => kq_loopStep h) r
    exact polls_inTime_iff hrun hok hx (kq_loopStep hs)

/-- An answer in which every system call is interrupted. -/
def Answer.interrupted : Answer :=
  { sys := fun _ => .err EINTR, events := [], errno_pos := fun _ _ h => by cases h; decide }

/-- A timer is due in 10, and a signal comes at once, on both. -/
theorem signals_delay_atOnce :
    (∃ c c', Pandio.step c (.lib .interrupted) = some c' ∧
      c'.stack = [.lib (.ioRun 10), .app .main] ∧ c'.world.refs = 1 ∧ PollsInTime c') ∧
    ∃ c c', kqStep c (.poll .interrupted []) = some c' ∧
      c'.cfg.stack = [.lib (.ioRun 10), .app .main] ∧ c'.cfg.world.refs = 1 ∧
      PollsInTime c'.cfg := by
  constructor
  · have hplay : ((Machine.play Pandio.step (fun c x => TimersInTime c (epollAct c x)) (Cfg.start [])
        [.api (.timerStart 0 true 10) (.ok 0 []), .api .ioRun (.ok 0 [])]).bind
          fun c => (Pandio.step c (.lib .interrupted)).map fun c' =>
            (c.world.kernel.clock, c.world.now, c.stack, c'.stack, c'.world.refs)) =
        some (0, 0, [.lib (.ioRun 10), .app .main], [.lib (.ioRun 10), .app .main], 1) := by
      decide +kernel
    obtain ⟨c, hc, hplay⟩ := Option.bind_eq_some_iff.mp hplay
    obtain ⟨c', hs, heq⟩ := Option.map_eq_some_iff.mp hplay
    simp only [Prod.mk.injEq] at heq
    obtain ⟨hclock, hnow, hst, hst', hrefs⟩ := heq
    have hact : epollAct c (.lib .interrupted) = .poll (.err EINTR) [] := by
      simp [epollAct, hst, Answer.interrupted, polledEvents]
    have hiff := (signals_delay_iff c c' (.lib .interrupted) (KqCfg.start []) (KqCfg.start [])
      (.poll .interrupted [])).1 (Run.play (Cfg.start_init []) _ hc)
    refine ⟨c, c', hs, hst', hrefs, (hiff ?_ ?_ hs).mpr ?_⟩ <;> rw [hact]
    · exact ⟨fun _ he => (by cases he), fun _ he => (by cases he)⟩
    · rfl
    · exact fun _ _ _ => .inl (hclock.trans hnow.symm)
  · have hplay : ((Machine.play kqStep (fun c x => TimersInTime c.cfg (kqAct c x)) (KqCfg.start [])
        [.step (.api (.timerStart 0 true 10) (.ok 0 [])), .step (.api .ioRun (.ok 0 []))]).bind
          fun c => (kqStep c (.poll .interrupted [])).map fun c' =>
            (c.cfg.world.kernel.clock, c.cfg.world.now, c'.cfg.stack, c'.cfg.world.refs)) =
        some (0, 0, [.lib (.ioRun 10), .app .main], 1) := by
      decide +kernel
    obtain ⟨c, hc, hplay⟩ := Option.bind_eq_some_iff.mp hplay
    obtain ⟨c', hs, heq⟩ := Option.map_eq_some_iff.mp hplay
    simp only [Prod.mk.injEq] at heq
    obtain ⟨hclock, hnow, hst, hrefs⟩ := heq
    have hiff := (signals_delay_iff (Cfg.start []) (Cfg.start []) (.lib .interrupted) c c'
      (.poll .interrupted [])).2 (Machine.Reach.play (.init (KqCfg.start_init [])) hc)
    refine ⟨c, c', hs, hst, hrefs, (hiff ?_ rfl hs).mpr ?_⟩
    · exact ⟨fun _ he => (by cases he), fun _ he => (by cases he)⟩
    · exact fun _ _ _ => .inl (hclock.trans hnow.symm)

/-- A timer is due in 10, and a signal comes after 9: the poll is repeated with a timeout of 10. -/
theorem not_polls_inTime : ∃ c c', Run AnyStep c ∧
    TimersInTime c (epollAct c (.lib .interrupted)) ∧ step c (.lib .interrupted) = some c' ∧
    c'.stack = [.lib (.ioRun 10), .app .main] ∧ c'.world.refs = 1 ∧ c'.world.kernel.clock = 9 ∧
    (c'.world.timer 0).active = true ∧ (c'.world.timer 0).timeout = 10 ∧ ¬ PollsInTime c' := by
  have hplay : ((Machine.play step AnyStep (Cfg.start [])
      [.api (.timerStart 0 true 10) (.ok 0 []), .api .ioRun (.ok 0 []), .env (.tick 9)]).bind
        fun c => (step c (.lib .interrupted)).map fun c' => (c.stack, c'.stack, c'.world.refs,
          c'.world.kernel.clock, (c'.world.timer 0).active, (c'.world.timer 0).timeout)) =
      some ([.lib (.ioRun 10), .app .main], [.lib (.ioRun 10), .app .main], 1, 9, true, 10) := by
    decide +kernel
  obtain ⟨c, h1, hplay⟩ := Option.bind_eq_some_iff.mp hplay
  obtain ⟨c', h2, heq⟩ := Option.map_eq_some_iff.mp hplay
  simp only [Prod.mk.injEq] at heq
  obtain ⟨hst, hst', hrefs, hclock, hact, hdue⟩ := heq
  refine ⟨c, c', Run.play (Cfg.start_init []) _ h1, ?_, h2, hst', hrefs, hclock, hact, hdue, ?_⟩
  · simp [TimersInTime, NoTimeInCallbacks, epollAct, hst]
  · intro h
    have hlate := (h 10 [.app .main] hst' (by rw [hrefs]; decide) 0 hact).2
    rw [hdue, hclock] at hlate
    omega

end

end Pandio
