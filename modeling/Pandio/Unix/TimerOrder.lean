import Pandio.Lib.Past
import Pandio.Unix.TimerSide

/- When timers fire: the callbacks of a whole run start in the order of their
   deadlines and none of them early, and a timer that was stopped stays stopped.
   Both come from `TimerMove`, by an invariant over the runs in which the heap
   never outgrows 32 bits. -/
namespace Pandio
open World

namespace TimerView

variable {v : TimerView} {t t' : Tid} {cb : Bool} {d : Nat}

/-! ## What starting and stopping change -/

theorem start_timer_ne (h : t' ≠ t) : (v.start t cb d).timer t' = v.timer t' := by
  unfold start
  split
  · rfl
  · simp [h]

theorem stop_timer_ne (h : t' ≠ t) : (v.stop t).timer t' = v.timer t' := by
  unfold stop
  split
  · simp [h]
  · rfl

theorem start_active : ((v.start t cb d).timer t).active = true := by
  unfold start
  split
  · assumption
  · simp

theorem stop_active : ((v.stop t).timer t).active = false := by
  unfold stop
  split
  · simp
  · simp_all

@[simp] theorem stop_timeout : ((v.stop t).timer t').timeout = (v.timer t').timeout := by
  unfold stop
  split
  · by_cases h : t' = t
    · subst h
      simp
    · simp [h]
  · rfl

@[simp] theorem stop_onTimeout : ((v.stop t).timer t').onTimeout = (v.timer t').onTimeout := by
  unfold stop
  split
  · by_cases h : t' = t
    · subst h
      simp
    · simp [h]
  · rfl

@[simp] theorem start_now : (v.start t cb d).now = v.now := by unfold start; split <;> rfl

@[simp] theorem start_clock : (v.start t cb d).clock = v.clock := by unfold start; split <;> rfl

@[simp] theorem stop_now : (v.stop t).now = v.now := by unfold stop; split <;> rfl

@[simp] theorem stop_clock : (v.stop t).clock = v.clock := by unfold stop; split <;> rfl

end TimerView

section
variable {w w' : World} {t t' : Tid} {cb : Bool} {d : Nat}

theorem pdTimerStart_time (h : pdTimerStart w t cb d = some w') :
    w'.now = w.now ∧ w'.kernel.clock = w.kernel.clock := by
  have hview := pdTimerStart_timerView [] h
  constructor
  · have hnow := congrArg TimerView.now hview
    rwa [TimerView.start_now] at hnow
  · have hclock := congrArg TimerView.clock hview
    rwa [TimerView.start_clock] at hclock

theorem pdTimerStop_time (h : pdTimerStop w t = some w') :
    w'.now = w.now ∧ w'.kernel.clock = w.kernel.clock := by
  have hview := pdTimerStop_timerView [] h
  constructor
  · have hnow := congrArg TimerView.now hview
    rwa [TimerView.stop_now] at hnow
  · have hclock := congrArg TimerView.clock hview
    rwa [TimerView.stop_clock] at hclock

theorem pdTimerStart_timer (h : pdTimerStart w t cb d = some w') :
    w'.timer = ((w.timerView []).start t cb d).timer :=
  congrArg TimerView.timer (pdTimerStart_timerView [] h)

theorem pdTimerStop_timer (h : pdTimerStop w t = some w') :
    w'.timer = ((w.timerView []).stop t).timer :=
  congrArg TimerView.timer (pdTimerStop_timerView [] h)

/-- `pd_timer_start` sets the deadline of an inactive timer, and no other. -/
theorem pdTimerStart_timeout (h : pdTimerStart w t' cb d = some w') :
    (w'.timer t).timeout =
      if t = t' ∧ (w.timer t').active = false then (w.now + d) % 2 ^ 64
      else (w.timer t).timeout := by
  rw [pdTimerStart_timer h]
  by_cases ht : t = t'
  · subst ht
    by_cases hact : (w.timer t).active = true
    · simp [TimerView.start, timerView, hact]
    · simp [TimerView.start, timerView, hact]
  · rw [TimerView.start_timer_ne ht, if_neg (fun h => ht h.1)]
    rfl

theorem pdTimerStop_timeout (h : pdTimerStop w t' = some w') :
    (w'.timer t).timeout = (w.timer t).timeout := by
  rw [pdTimerStop_timer h, TimerView.stop_timeout]
  rfl

/-- `pd_timer_start` makes the timer active, and no other. -/
theorem pdTimerStart_active (h : pdTimerStart w t cb d = some w') (t' : Tid) :
    (w'.timer t').active = true ↔ t' = t ∨ (w.timer t').active = true := by
  rw [pdTimerStart_timer h]
  by_cases ht : t' = t
  · subst ht
    simp [TimerView.start_active]
  · rw [TimerView.start_timer_ne ht]
    simp [ht, timerView]

/-- `pd_timer_stop` makes the timer inactive, and no other. -/
theorem pdTimerStop_active (h : pdTimerStop w t = some w') (t' : Tid) :
    (w'.timer t').active = true ↔ t' ≠ t ∧ (w.timer t').active = true := by
  rw [pdTimerStop_timer h]
  by_cases ht : t' = t
  · subst ht
    simp [TimerView.stop_active]
  · rw [TimerView.stop_timer_ne ht]
    simp [ht, timerView]

end

/-- No started timer's deadline exceeds 64 bits. -/
def NoOverflow (c : Cfg) (x : Act) : Prop := ∀ p ∈ started c x, c.world.now + p.2 < 2 ^ 64

instance (c : Cfg) (x : Act) : Decidable (NoOverflow c x) :=
  inferInstanceAs (Decidable (∀ p ∈ started c x, _))

/-- The state of the timers after the runs that start no timer too many. -/
theorem Run.timersValid {ok : Cfg → Act → Prop} (hok : ∀ c x, ok c x → TimersFit c x) {c : Cfg}
    (r : Run ok c) : TimersValid c.world := by
  refine r.invariant (P := fun c => TimersValid c.world) ?_ ?_
  · rintro c ⟨k, fd, -, -, rfl⟩
    exact ⟨⟨_, heapInit_valid _, fun t => by simp [World.init, pdTimerInit]⟩, by simp [World.init, heapInit]⟩
  · intro c x c' _ hv h hs
    exact (step_timers hv (hok c x h) hs).1

/-! ## The order of the callbacks -/

/-- The callbacks of timers: the deadline, and the loop's time when it was called. -/
def timerCalls (log : List Obs) : List (Nat × Nat) :=
  log.filterMap fun o =>
    match o with
    | .cb (.onTimeout _ timeout) now => some (timeout, now)
    | _ => none

theorem timerCalls_append (l1 l2 : List Obs) :
    timerCalls (l1 ++ l2) = timerCalls l1 ++ timerCalls l2 := List.filterMap_append ..

theorem timerCalls_filter (l : List Obs) : timerCalls (l.filter isTimerObs) = timerCalls l := by
  unfold timerCalls
  rw [List.filterMap_filter]
  congr 1
  funext o
  unfold isTimerObs
  split <;> first | rfl | (split <;> simp_all)

/-- Every callback so far was due, no later deadline than the one of any active timer, and came
after those with earlier deadlines. -/
structure OrderInv (v : TimerView) : Prop where
  clock : v.now ≤ v.clock
  sorted : (timerCalls v.log).Pairwise fun e e' => e.1 ≤ e'.1
  due : ∀ e ∈ timerCalls v.log, e.1 ≤ e.2
  past : ∀ e ∈ timerCalls v.log, e.1 ≤ v.now
  ahead : ∀ e ∈ timerCalls v.log, ∀ t, (v.timer t).active = true → e.1 ≤ (v.timer t).timeout

section
variable {v v' : TimerView} {t : Tid} {cb : Bool} {d : Nat}

/-- The order is kept when no callback starts and every active timer's deadline is kept or lies
ahead of the loop's time. -/
theorem OrderInv.keep (h : OrderInv v) (hclock : v'.now ≤ v'.clock) (hnow : v.now ≤ v'.now)
    (hlog : timerCalls v'.log = timerCalls v.log)
    (htimer : ∀ t, (v'.timer t).active = true →
      (v.timer t).active = true ∧ (v'.timer t).timeout = (v.timer t).timeout ∨
        v.now ≤ (v'.timer t).timeout) : OrderInv v' where
  clock := hclock
  sorted := by
    rw [hlog]
    exact h.sorted
  due := by
    rw [hlog]
    exact h.due
  past := by
    rw [hlog]
    exact fun e he => le_trans (h.past e he) hnow
  ahead := by
    rw [hlog]
    intro e he t hact
    rcases htimer t hact with ⟨h1, h2⟩ | h1
    · rw [h2]
      exact h.ahead e he t h1
    · exact le_trans (h.past e he) h1

theorem OrderInv.logObs {o : Obs} (h : OrderInv v) (ho : timerCalls [o] = []) :
    OrderInv (v.logObs o) := by
  refine h.keep h.clock (le_refl _) ?_ ?_
  · simp only [TimerView.logObs, timerCalls_append, ho, List.append_nil]
  · exact fun t hact => .inl ⟨hact, rfl⟩

theorem OrderInv.start (h : OrderInv v) (hd : (v.timer t).active = false → v.now + d < 2 ^ 64) :
    OrderInv (v.start t cb d) := by
  unfold TimerView.start
  split
  · exact h
  · rename_i hact
    have hsum := hd (by simpa using hact)
    refine h.keep h.clock (le_refl _) ?_ ?_
    · simp [timerCalls]
    · intro t' hact'
      by_cases ht : t' = t
      · subst ht
        refine .inr ?_
        simp only [Function.update_self, Nat.mod_eq_of_lt hsum]
        omega
      · simp only [Function.update_of_ne ht] at hact' ⊢
        exact .inl ⟨hact', trivial⟩

theorem OrderInv.setInterval {i : Nat} (h : OrderInv v) : OrderInv (v.setInterval t i) := by
  refine h.keep h.clock (le_refl _) rfl ?_
  intro t' hact'
  unfold TimerView.setInterval at hact' ⊢
  by_cases ht : t' = t
  · subst ht
    simp_all
  · simp_all

theorem OrderInv.stop (h : OrderInv v) : OrderInv (v.stop t) := by
  unfold TimerView.stop
  split
  · refine h.keep h.clock (le_refl _) ?_ ?_
    · simp [timerCalls]
    · intro t' hact'
      by_cases ht : t' = t
      · subst ht
        simp at hact'
      · simp only [Function.update_of_ne ht] at hact' ⊢
        exact .inl ⟨hact', trivial⟩
  · exact h

/-- `pd_timers_run` takes the earliest timer, when it is due. -/
theorem OrderInv.fire (h : OrderInv v) (hmin : v.Earliest t) (hdue : (v.timer t).timeout ≤ v.now) :
    OrderInv ((v.stop t).fire t) := by
  have hs := h.stop (t := t)
  -- what is still active has a deadline no earlier than the one that fires
  have hrest : ∀ t', ((v.stop t).timer t').active = true →
      (v.timer t).timeout ≤ ((v.stop t).timer t').timeout := by
    intro t' hact
    by_cases ht : t' = t
    · subst ht
      rw [TimerView.stop_active] at hact
      cases hact
    · rw [TimerView.stop_timer_ne ht] at hact ⊢
      exact hmin.le t' hact
  have hlog : (timerCalls (v.stop t).log) = timerCalls v.log := by
    unfold TimerView.stop
    split
    · simp [timerCalls]
    · rfl
  unfold TimerView.fire
  split
  · have hone : timerCalls [.cb (.onTimeout t ((v.stop t).timer t).timeout) (v.stop t).now] =
        [((v.timer t).timeout, v.now)] := by simp [timerCalls]
    refine ⟨hs.clock, ?_, ?_, ?_, ?_⟩
    all_goals simp only [timerCalls_append, hone]
    · rw [List.pairwise_append]
      refine ⟨hs.sorted, List.pairwise_singleton .., ?_⟩
      intro e he e' he'
      rw [List.mem_singleton.mp he']
      rw [hlog] at he
      exact h.ahead e he t hmin.active
    · intro e he
      rcases List.mem_append.mp he with he | he
      · exact hs.due e he
      · rw [List.mem_singleton.mp he]
        exact hdue
    · intro e he
      rcases List.mem_append.mp he with he | he
      · exact hs.past e he
      · rw [List.mem_singleton.mp he, TimerView.stop_now]
        exact hdue
    · intro e he t' hact
      rcases List.mem_append.mp he with he | he
      · exact hs.ahead e he t' hact
      · rw [List.mem_singleton.mp he]
        exact hrest t' hact
  · refine hs.keep hs.clock (le_refl _) ?_ ?_
    · simp
    · exact fun t' hact => .inl ⟨hact, rfl⟩

theorem TimerMove.orderInv {P : Tid → Nat → Prop} {Q : Tid → Prop} (m : TimerMove P Q v v')
    (hP : ∀ t d, P t d → v.now + d < 2 ^ 64) (h : OrderInv v) : OrderInv v' := by
  cases m with
  | tick n =>
    apply h.keep
    · exact le_trans h.clock (Nat.le_add_right ..)
    · exact le_refl _
    · rfl
    · exact fun t hact => .inl ⟨hact, rfl⟩
  | poll => exact h.keep (le_refl _) h.clock rfl fun t hact => .inl ⟨hact, rfl⟩
  | start hd => exact (h.logObs rfl).start fun hact => hP _ _ (hd hact)
  | @repeating t cb d hd =>
    apply ((h.logObs rfl).setInterval).start
    intro hact
    apply hP t d
    apply hd
    simpa [TimerView.setInterval, TimerView.logObs] using hact
  | stop t => exact h.stop.logObs rfl
  | fire hmin hdue => exact h.fire hmin hdue
  | @rearm t rest _ _ _ hd =>
    have hr : OrderInv { v with rearms := rest } :=
      h.keep h.clock (le_refl _) rfl fun t hact => .inl ⟨hact, rfl⟩
    exact hr.start fun hact => hP _ _ (hd hact)
  | once _ _ => exact h.keep h.clock (le_refl _) rfl fun t hact => .inl ⟨hact, rfl⟩

end

theorem Run.orderInv {c : Cfg} (r : Run (fun c x => TimersFit c x ∧ NoOverflow c x) c) :
    OrderInv c.timerView := by
  refine r.invariant (P := fun c => OrderInv c.timerView) ?_ ?_
  · rintro c ⟨k, fd, -, -, rfl⟩
    exact ⟨le_refl _, List.Pairwise.nil, by simp [Cfg.timerView, timerView, World.init, timerCalls],
      by simp [Cfg.timerView, timerView, World.init, timerCalls],
      by simp [Cfg.timerView, timerView, World.init, timerCalls]⟩
  · intro c x c' r h hok hs
    have hv := Run.timersValid (fun c x hx => hx.1) r
    rcases (step_timers hv hok.1 hs).2 with he | hm
    · rw [he]
      exact h
    · exact hm.orderInv (fun t d hd => hok.2 _ hd) h

/-- The callbacks of timers came in the order of their deadlines, and none of them early. -/
def TimersInOrder (c : Cfg) : Prop :=
  (timerCalls c.world.log).Pairwise (fun e e' => e.1 ≤ e'.1) ∧ ∀ e ∈ timerCalls c.world.log, e.1 ≤ e.2

/-- **Timers fire in the order of their deadlines, and never early.** -/
theorem timers_in_order {c : Cfg} (r : Run (fun c x => TimersFit c x ∧ NoOverflow c x) c) :
    TimersInOrder c := by
  have h := Run.orderInv r
  have hlog : timerCalls c.timerView.log = timerCalls c.world.log := timerCalls_filter _
  exact ⟨hlog ▸ h.sorted, hlog ▸ h.due⟩

/-- Two timers fire in one call of `pd_timers_run`, and the first, which repeats, once more. -/
theorem timers_in_order_two : ∃ c, Run (fun c x => TimersFit c x ∧ NoOverflow c x) c ∧
    timerCalls c.world.log = [(5, 7), (6, 7), (12, 12)] ∧ TimersInOrder c := by
  have r : Run (fun c x => TimersFit c x ∧ NoOverflow c x) _ := Run.play (Cfg.start_init [])
    [.api (.timerStart 1 true 6) (.ok 0 []), .api (.timerRepeat 0 true 5) (.ok 0 []),
      .env (.tick 7), .api .ioRun (.ok 0 []), .lib (.ok 0 []), .lib (.ok 0 []), .ret none,
      .lib (.ok 0 []), .lib (.ok 0 []), .ret none, .lib (.ok 0 []), .lib (.ok 0 []),
      .lib (.ok 0 []), .lib (.ok 0 []), .lib (.ok 0 []), .env (.tick 5), .lib (.ok 0 []),
      .lib (.ok 0 [])] rfl
  exact ⟨_, r, rfl, timers_in_order r⟩

/-! ## Stopping -/

/-- The entry is a call of the application that starts or stops the timer. -/
def isCallOn (t : Tid) (o : Obs) : Bool := o = .timerStart t ∨ o = .timerStop t

/-- The application's last call on the timer is `pd_timer_stop`. -/
def Stopped (t : Tid) (log : List Obs) : Prop := (log.filter (isCallOn t)).getLast? = some (.timerStop t)

instance (t : Tid) (log : List Obs) : Decidable (Stopped t log) := inferInstanceAs (Decidable (_ = _))

theorem Stopped.append {t : Tid} {l1 l2 : List Obs} (h : l2.filter (isCallOn t) = []) :
    Stopped t (l1 ++ l2) ↔ Stopped t l1 := by
  simp only [Stopped, List.filter_append, h, List.append_nil]

theorem not_stopped_start {t : Tid} {l : List Obs} : ¬ Stopped t (l ++ [.timerStart t]) := by
  simp [Stopped, isCallOn]

theorem stopped_filter {t : Tid} {l : List Obs} :
    Stopped t (l.filter isTimerObs) ↔ Stopped t l := by
  unfold Stopped
  rw [List.filter_filter, List.filter_congr]
  rintro o -
  by_cases h : isCallOn t o = true
  · have h' := h
    simp only [isCallOn, decide_eq_true_eq] at h'
    rcases h' with rfl | rfl <;> simp [h, isTimerObs]
  · simp [h]

/-- An entry is no callback of a timer that is stopped. -/
def CalledUnstopped (past : List Obs) (o : Obs) : Prop :=
  ∀ t timeout now, o = .cb (.onTimeout t timeout) now → ¬ Stopped t past

/-- A timer whose last call was `pd_timer_stop` is not active; no callback came after such a call;
and a timer holds one reference while it is active. -/
structure StopInv (v : TimerView) : Prop where
  inactive : ∀ t, Stopped t v.log → (v.timer t).active = false
  calls : Past CalledUnstopped v.log
  refs : ∀ t, v.log.count (.refInc (.timer t)) =
    v.log.count (.refDec (.timer t)) + if (v.timer t).active then 1 else 0

section
variable {v v' : TimerView} {t : Tid} {cb : Bool} {d : Nat}

/-- Neither a callback nor a reference, and the timers' activity is kept. -/
theorem StopInv.logObs {o : Obs} (h : StopInv v) (hact : ∀ t, Stopped t (v.log ++ [o]) →
      (v.timer t).active = false) (hcall : ∀ t d n, o ≠ .cb (.onTimeout t d) n)
    (href : ∀ t, o ≠ .refInc t ∧ o ≠ .refDec t) : StopInv (v.logObs o) where
  inactive := hact
  calls := h.calls.snoc fun t d n ho => absurd ho (hcall t d n)
  refs := fun t => by
    have h1 := (href (.timer t)).1
    have h2 := (href (.timer t)).2
    simp only [TimerView.logObs, List.count_append, List.count_singleton, beq_iff_eq, h1, h2,
      if_false, Nat.add_zero]
    exact h.refs t

theorem StopInv.setInterval {i : Nat} (h : StopInv v) : StopInv (v.setInterval t i) := by
  have hact : ∀ t', ((v.setInterval t i).timer t').active = (v.timer t').active := by
    intro t'
    unfold TimerView.setInterval
    by_cases ht : t' = t
    · subst ht
      simp
    · simp [ht]
  refine ⟨fun t' hs => ?_, h.calls, fun t' => ?_⟩
  · rw [hact]
    exact h.inactive t' hs
  · rw [hact]
    exact h.refs t'

theorem StopInv.start (h : StopInv v) (hs : (v.timer t).active = false → ¬ Stopped t v.log) :
    StopInv (v.start t cb d) := by
  unfold TimerView.start
  split
  · exact h
  · rename_i hact
    have hinactive : (v.timer t).active = false := by simpa using hact
    have hlog : ∀ t', Stopped t' (v.log ++ [.refInc (.timer t)]) ↔ Stopped t' v.log :=
      fun t' => Stopped.append (by simp [isCallOn])
    refine ⟨fun t' hst => ?_, h.calls.snoc (fun t d n ho => by cases ho), fun t' => ?_⟩
    · rw [hlog] at hst
      by_cases ht : t' = t
      · subst ht
        exact absurd hst (hs hinactive)
      · simp only [Function.update_of_ne ht]
        exact h.inactive t' hst
    · have hr := h.refs t'
      by_cases ht : t' = t
      · subst ht
        simp only [hinactive] at hr
        simp [List.count_append, hr]
      · simp [List.count_append, ht, Ne.symm ht, hr]

theorem StopInv.stop (h : StopInv v) : StopInv (v.stop t) := by
  unfold TimerView.stop
  split
  · rename_i hact
    have hlog : ∀ t', Stopped t' (v.log ++ [.refDec (.timer t)]) ↔ Stopped t' v.log :=
      fun t' => Stopped.append (by simp [isCallOn])
    refine ⟨fun t' hst => ?_, h.calls.snoc (fun t d n ho => by cases ho), fun t' => ?_⟩
    · by_cases ht : t' = t
      · subst ht
        simp
      · simp only [Function.update_of_ne ht]
        exact h.inactive t' ((hlog t').mp hst)
    · have hr := h.refs t'
      by_cases ht : t' = t
      · subst ht
        simp only [hact, if_true] at hr
        simp [List.count_append, hr]
      · simp [List.count_append, ht, Ne.symm ht, hr]
  · exact h

/-- The callback of an active timer starts. -/
theorem StopInv.fire (h : StopInv v) (hact : (v.timer t).active = true) :
    StopInv ((v.stop t).fire t) := by
  have hs := h.stop (t := t)
  have hun : ¬ Stopped t (v.stop t).log := by
    have hn : ¬ Stopped t v.log := fun hst => by
      rw [h.inactive t hst] at hact
      cases hact
    unfold TimerView.stop
    rw [if_pos hact]
    have happ : Stopped t (v.log ++ [.refDec (.timer t)]) ↔ Stopped t v.log :=
      Stopped.append (by simp [isCallOn])
    exact fun hst => hn (happ.mp hst)
  unfold TimerView.fire
  split
  · refine ⟨fun t' hst => ?_, ?_, fun t' => ?_⟩
    · apply hs.inactive t'
      rw [Stopped.append (by simp [isCallOn])] at hst
      exact hst
    · refine hs.calls.snoc ?_
      rintro t' d n ho
      cases ho
      exact hun
    · simpa [List.count_append, List.count_singleton] using hs.refs t'
  · rw [List.append_nil]
    exact ⟨hs.inactive, hs.calls, hs.refs⟩

theorem TimerMove.stopInv {P : Tid → Nat → Prop} {Q : Tid → Prop} (m : TimerMove P Q v v')
    (hQ : ∀ t, Q t → ¬ Stopped t v.log) (h : StopInv v) : StopInv v' := by
  -- a call that starts `t` leaves it unstopped, whatever it was
  have started : ∀ t, StopInv (v.logObs (.timerStart t)) := by
    intro t
    refine h.logObs (fun t' hst => ?_) (by simp) (by simp)
    by_cases ht : t' = t
    · subst ht
      exact absurd hst not_stopped_start
    · refine h.inactive t' ?_
      rwa [Stopped.append] at hst
      simp [isCallOn, Ne.symm ht]
  cases m with
  | tick n => exact ⟨h.inactive, h.calls, h.refs⟩
  | poll => exact ⟨h.inactive, h.calls, h.refs⟩
  | start _ => exact (started _).start fun _ => not_stopped_start
  | repeating _ => exact (started _).setInterval.start fun _ => not_stopped_start
  | stop t =>
    have hs := h.stop (t := t)
    refine hs.logObs (fun t' hst => ?_) (by simp) (by simp)
    by_cases ht : t' = t
    · subst ht
      exact TimerView.stop_active
    · refine hs.inactive t' ?_
      rwa [Stopped.append] at hst
      simp [isCallOn, Ne.symm ht]
  | fire hmin _ => exact h.fire hmin.active
  | @rearm t rest _ _ hq _ =>
    have hr : StopInv { v with rearms := rest } := ⟨h.inactive, h.calls, h.refs⟩
    exact hr.start fun _ => hQ t hq
  | once _ _ => exact ⟨h.inactive, h.calls, h.refs⟩

end

/-- When the callback of a timer returns whose interval is not 0, the application's last call on
the timer is not `pd_timer_stop`. -/
def StopsKept (c : Cfg) (x : Act) : Prop := ∀ t ∈ rearmed c x, ¬ Stopped t c.world.log

instance (c : Cfg) (x : Act) : Decidable (StopsKept c x) :=
  inferInstanceAs (Decidable (∀ t ∈ rearmed c x, _))

theorem Run.stopInv {c : Cfg} (r : Run (fun c x => TimersFit c x ∧ StopsKept c x) c) :
    StopInv c.timerView := by
  refine r.invariant (P := fun c => StopInv c.timerView) ?_ ?_
  · rintro c ⟨k, fd, -, -, rfl⟩
    exact ⟨fun _ _ => rfl, Past.nil, fun _ => rfl⟩
  · intro c x c' r h hok hs
    have hv := Run.timersValid (fun c x hx => hx.1) r
    rcases (step_timers hv hok.1 hs).2 with he | hm
    · rw [he]
      exact h
    · apply hm.stopInv _ h
      intro t ht
      rw [Cfg.timerView, timerView, stopped_filter]
      exact hok.2 t ht

/-- A stopped timer is inactive and holds no reference, and no callback came between a stop and the
next start. -/
def StopFinal (c : Cfg) : Prop :=
  (∀ t, Stopped t c.world.log → (c.world.timer t).active = false ∧
    c.world.log.count (.refInc (.timer t)) = c.world.log.count (.refDec (.timer t))) ∧
  Past CalledUnstopped c.world.log

/-- **A stopped timer stays stopped** until the application starts it again. -/
theorem timer_stop_final {c : Cfg} (r : Run (fun c x => TimersFit c x ∧ StopsKept c x) c) :
    StopFinal c := by
  have h := Run.stopInv r
  refine ⟨fun t hs => ?_, ?_⟩
  · have hact := h.inactive t (stopped_filter.mpr hs)
    have hrefs := h.refs t
    rw [show c.timerView.timer = c.world.timer from rfl] at hact hrefs
    refine ⟨hact, ?_⟩
    rw [hact] at hrefs
    simp only [Cfg.timerView, timerView] at hrefs
    rwa [List.count_filter rfl, List.count_filter rfl] at hrefs
  · refine h.calls.of_filter.mono ?_
    rintro past o hp t d n rfl
    have := hp rfl t d n rfl
    rwa [stopped_filter] at this

/-- A stop in the callback of a timer that repeats is always lost: the condition cannot be left
out. -/
theorem stop_lost {c c' : Cfg} {x : Act} {t : Tid} (hs : step c x = some c')
    (ht : t ∈ rearmed c x) (hst : Stopped t c.world.log) : ¬ StopFinal c' := by
  intro h
  unfold rearmed at ht
  split at ht
  · rename_i a t' rest hstack
    split at ht
    · rename_i hi
      cases ht
      simp only [step, hstack, exec, pdTimersRearm, if_pos hi] at hs
      obtain ⟨r, hr, rfl⟩ := Option.map_eq_some_iff.mp hs
      obtain ⟨w, hw, rfl⟩ := Option.map_eq_some_iff.mp hr
      have hview := pdTimerStart_timerView [] hw
      have hactive : (w.timer t).active = true := by
        have hstart : (((c.world.timerView []).start t (c.world.timer t).onTimeout
            (c.world.timer t).interval).timer t).active = true := TimerView.start_active
        rwa [← hview] at hstart
      -- the log has grown by a reference at most
      have hlog : Stopped t w.log := by
        rw [← stopped_filter] at hst ⊢
        rw [show w.log.filter isTimerObs = (w.timerView []).log from rfl, hview]
        unfold TimerView.start
        split
        · exact hst
        · exact (Stopped.append (by simp [isCallOn])).mpr hst
      have := (h.1 t hlog).1
      rw [show (w.goOn [.timersRun]).1.timer t = w.timer t from rfl, hactive] at this
      cases this
    · cases ht
  · cases ht

/-- A timer that repeats is stopped from another timer's callback. -/
theorem timer_stop_final_other : ∃ c, Run (fun c x => TimersFit c x ∧ StopsKept c x) c ∧
    Stopped 0 c.world.log ∧ StopFinal c := by
  have r : Run (fun c x => TimersFit c x ∧ StopsKept c x) _ := Run.play (Cfg.start_init [])
    [.api (.timerRepeat 0 true 6) (.ok 0 []), .api (.timerStart 1 true 5) (.ok 0 []),
      .env (.tick 7), .api .ioRun (.ok 0 []), .lib (.ok 0 []), .lib (.ok 0 []),
      .api (.timerStop 0) (.ok 0 []), .ret none, .lib (.ok 0 []), .lib (.ok 0 [])] rfl
  exact ⟨_, r, rfl, timer_stop_final r⟩

/-- A timer that repeats is stopped in its own callback, and fires again. -/
theorem stop_in_own_callback : ∃ c, Run AnyStep c ∧ c.world.log =
    [.timerStart 0, .refInc (.timer 0), .refDec (.timer 0), .cb (.onTimeout 0 5) 5, .timerStop 0,
      .refInc (.timer 0), .refDec (.timer 0), .cb (.onTimeout 0 10) 10] :=
  ⟨_, Run.play (Cfg.start_init [])
    [.api (.timerRepeat 0 true 5) (.ok 0 []), .env (.tick 5), .api .ioRun (.ok 0 []),
      .lib (.ok 0 []), .lib (.ok 0 []), .api (.timerStop 0) (.ok 0 []), .ret none,
      .lib (.ok 0 []), .env (.tick 5), .lib (.ok 0 []), .lib (.ok 0 []), .lib (.ok 0 []),
      .lib (.ok 0 []), .lib (.ok 0 []), .lib (.ok 0 [])] rfl, rfl⟩

theorem not_timer_stop_final : ¬ ∀ c, Run AnyStep c → StopFinal c := by
  intro h
  obtain ⟨c, r, hlog⟩ := stop_in_own_callback
  have hpast := (h c r).2
  rw [hlog] at hpast
  exact hpast [_, _, _, _, _, _, _] _ [] rfl 0 10 10 rfl rfl

end Pandio
