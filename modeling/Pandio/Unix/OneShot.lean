import Pandio.Unix.TimerOrder

/- One-shot timers. `pd_timer_repeat` leaves the interval in the timer, and neither
   `pd_timer_start` nor `pd_timer_stop` takes it out again: after the callback
   `pd_timers_run` reads it, whichever of the two started the timer. So what a
   `pd_timer_start` leads to is decided by the interval that is there already, and the
   runs that follow it are counted here, from the call on. -/
namespace Pandio
open World

/-- The entry is a call of a callback of `t`. -/
def isFiring (t : Tid) (o : Obs) : Bool :=
  match o with
  | .cb (.onTimeout t' _) _ => t' = t
  | _ => false

def firings (t : Tid) (log : List Obs) : Nat := log.countP (isFiring t)

/-- Between the two states a callback of `t` was invoked at most once, unless the application has
called `pd_timer_start` or `pd_timer_repeat` on `t`. -/
def FiresOnce (t : Tid) (c c' : Cfg) : Prop :=
  ∃ m, c'.timerView.log = c.timerView.log ++ m ∧ (.timerStart t ∉ m → firings t m ≤ 1)

theorem firings_append (t : Tid) (l1 l2 : List Obs) :
    firings t (l1 ++ l2) = firings t l1 + firings t l2 := List.countP_append ..

namespace TimerView

variable {v : TimerView} {t t' : Tid} {cb : Bool} {d : Nat}

/-! ## What starting and stopping log -/

theorem start_log (v : TimerView) (t t' : Tid) (cb : Bool) (d : Nat) :
    ∃ l, (v.start t' cb d).log = v.log ++ l ∧ firings t l = 0 := by
  unfold start
  split
  · exact ⟨[], (List.append_nil _).symm, rfl⟩
  · exact ⟨[.refInc (.timer t')], rfl, rfl⟩

theorem stop_log (v : TimerView) (t t' : Tid) :
    ∃ l, (v.stop t').log = v.log ++ l ∧ firings t l = 0 := by
  unfold stop
  split
  · exact ⟨[.refDec (.timer t')], rfl, rfl⟩
  · exact ⟨[], (List.append_nil _).symm, rfl⟩

theorem start_interval : ((v.start t' cb d).timer t).interval = (v.timer t).interval := by
  by_cases h : t = t'
  · subst h
    unfold start
    split
    · rfl
    · simp
  · rw [start_timer_ne h]

theorem stop_interval : ((v.stop t').timer t).interval = (v.timer t).interval := by
  by_cases h : t = t'
  · subst h
    unfold stop
    split
    · simp
    · rfl
  · rw [stop_timer_ne h]

end TimerView

/-! ## Firings left -/

/-- Since the log was `past`, and unless the application has started `t` again, its interval has
been 0, and a firing is left only if there was none. -/
def Shot (t : Tid) (past : List Obs) (v : TimerView) : Prop :=
  ∃ m, v.log = past ++ m ∧ (.timerStart t ∉ m →
    (v.timer t).interval = 0 ∧ firings t m + (v.timer t).active.toNat ≤ 1)

section
variable {v v' : TimerView} {t t' : Tid} {past l : List Obs}

/-- A change of the timers that neither sets the interval of `t` nor adds a firing. -/
theorem Shot.grow (h : Shot t past v) (hlog : v'.log = v.log ++ l)
    (hint : .timerStart t ∉ l → (v'.timer t).interval = (v.timer t).interval)
    (hleft : .timerStart t ∉ l → (v.timer t).interval = 0 →
      firings t l + (v'.timer t).active.toNat ≤ (v.timer t).active.toNat) : Shot t past v' := by
  obtain ⟨m, hm, hs⟩ := h
  refine ⟨m ++ l, by rw [hlog, hm, List.append_assoc], fun hnot => ?_⟩
  rw [List.mem_append, not_or] at hnot
  obtain ⟨hi, hle⟩ := hs hnot.1
  have hl := hleft hnot.2 hi
  rw [firings_append]
  refine ⟨(hint hnot.2).trans hi, ?_⟩
  omega

theorem Shot.same (h : Shot t past v) (hlog : v'.log = v.log) (ht : v'.timer t = v.timer t) :
    Shot t past v' := by
  apply h.grow (l := [])
  · rw [hlog, List.append_nil]
  · intro _
    rw [ht]
  · intro _ _
    rw [ht]
    exact Nat.le_of_eq (Nat.zero_add _)

/-- The application starts `t` again. -/
theorem Shot.called (h : Shot t past v) (hlog : v'.log = v.log ++ l) (hl : .timerStart t ∈ l) :
    Shot t past v' :=
  h.grow hlog (fun hn => absurd hl hn) fun hn => absurd hl hn

theorem Shot.start_ne {cb : Bool} {d : Nat} (h : Shot t past v) (ht : t' ≠ t) :
    Shot t past (v.start t' cb d) := by
  obtain ⟨l, hlog, hl⟩ := TimerView.start_log v t t' cb d
  have htimer : (v.start t' cb d).timer t = v.timer t := TimerView.start_timer_ne ht.symm
  apply h.grow hlog
  · intro _
    rw [htimer]
  · intro _ _
    rw [htimer, hl, Nat.zero_add]

theorem Shot.stop (h : Shot t past v) : Shot t past (v.stop t') := by
  obtain ⟨l, hlog, hl⟩ := TimerView.stop_log v t t'
  apply h.grow hlog
  · intro _
    exact TimerView.stop_interval
  · intro _ _
    by_cases ht : t = t'
    · subst ht
      rw [TimerView.stop_active, hl]
      exact Nat.zero_le _
    · rw [TimerView.stop_timer_ne ht, hl, Nat.zero_add]

/-- `pd_timers_run` takes a timer, which is active. -/
theorem Shot.fire (h : Shot t past v) (hact : (v.timer t').active = true) :
    Shot t past ((v.stop t').fire t') := by
  by_cases ht : t' = t
  · subst ht
    obtain ⟨l, hlog, hl⟩ := TimerView.stop_log v t' t'
    apply h.grow (l := l ++ if ((v.stop t').timer t').onTimeout then
      [.cb (.onTimeout t' ((v.stop t').timer t').timeout) (v.stop t').now] else [])
    · rw [TimerView.fire, hlog, List.append_assoc]
    · intro _
      exact TimerView.stop_interval
    · intro _ _
      have hoff : (((v.stop t').fire t').timer t').active = false := TimerView.stop_active
      rw [hoff, hact, firings_append, hl]
      split <;> simp [firings, isFiring]
  · have hs : Shot t past (v.stop t') := h.stop
    unfold TimerView.fire
    split
    · apply hs.grow rfl
      · exact fun _ => rfl
      · intro _ _
        simp [firings, isFiring, ht]
    · exact hs.same (List.append_nil _) rfl

theorem TimerMove.shot {P : Tid → Nat → Prop} {Q : Tid → Prop} (m : TimerMove P Q v v')
    (h : Shot t past v) : Shot t past v' := by
  -- a call of the application on another timer
  have logged : ∀ o : Obs, firings t [o] = 0 → Shot t past (v.logObs o) := by
    intro o ho
    apply h.grow rfl
    · exact fun _ => rfl
    · intro _ _
      rw [ho, Nat.zero_add]
      exact le_refl _
  cases m with
  | tick n => exact h.same rfl rfl
  | poll => exact h.same rfl rfl
  | @start t' cb d _ =>
    by_cases ht : t' = t
    · subst ht
      obtain ⟨l, hlog, _⟩ :=
        TimerView.start_log (v.logObs (.timerStart t')) t' t' cb d
      apply h.called (l := .timerStart t' :: l)
      · rw [hlog, TimerView.logObs, List.append_assoc, List.singleton_append]
      · exact List.mem_cons_self
    · exact (logged _ rfl).start_ne ht
  | @repeating t' cb d _ =>
    by_cases ht : t' = t
    · subst ht
      obtain ⟨l, hlog, _⟩ := TimerView.start_log
        ((v.logObs (.timerStart t')).setInterval t' d) t' t' cb d
      apply h.called (l := .timerStart t' :: l)
      · rw [hlog]
        simp [TimerView.setInterval, TimerView.logObs]
      · exact List.mem_cons_self
    · have hset : Shot t past ((v.logObs (.timerStart t')).setInterval t' d) :=
        (logged (.timerStart t') rfl).same rfl (by simp [TimerView.setInterval, Ne.symm ht])
      exact hset.start_ne ht
  | stop t' =>
    apply h.stop.grow rfl
    · exact fun _ => rfl
    · intro _ _
      exact Nat.le_of_eq (Nat.zero_add _)
  | fire hmin _ => exact h.fire hmin.active
  | @rearm t' rest _ hi _ _ =>
    have hrest : Shot t past { v with rearms := rest } := h.same rfl rfl
    by_cases ht : t' = t
    · subst ht
      -- with an interval of 0 there is no such step
      obtain ⟨l, hlog, hl⟩ := TimerView.start_log { v with rearms := rest } t' t'
        (v.timer t').onTimeout (v.timer t').interval
      apply hrest.grow hlog
      · exact fun _ => TimerView.start_interval
      · exact fun _ h0 => absurd h0 hi
    · exact hrest.start_ne ht
  | once _ _ => exact h.same rfl rfl

end

/-! ## Runs -/

/-- The interval is what it was after a `pd_timer_start`. -/
theorem step_start_interval {c c' : Cfg} {t : Tid} {cb : Bool} {d : Nat} {a : Answer}
    (hs : step c (.api (.timerStart t cb d) a) = some c') :
    (c'.world.timer t).interval = (c.world.timer t).interval := by
  rcases step_cases hs with ⟨_, _, _, _, hx, _⟩ | ⟨k, a', cb', rest, r, hx, hst, hr, rfl⟩ |
    ⟨_, _, _, hx, _⟩ | ⟨_, _, hx, _⟩
  · cases hx
  · cases hx
    obtain ⟨w, hw, rfl⟩ := Option.map_eq_some_iff.mp hr
    show (w.timer t).interval = _
    rw [pdTimerStart_timer hw, TimerView.start_interval]
    rfl
  · cases hx
  · cases hx

/-- **A timer that is started with no interval left in it fires at most once**, whatever it was
used for before. -/
theorem one_shot_fires_once {c c' c'' : Cfg} {t : Tid} {cb : Bool} {d : Nat} {a : Answer}
    (r : Run TimersFit c) (hint : (c.world.timer t).interval = 0)
    (hfit : TimersFit c (.api (.timerStart t cb d) a))
    (hs : step c (.api (.timerStart t cb d) a) = some c')
    (h : Machine.Reach step TimersFit (· = c') c'') : FiresOnce t c' c'' := by
  have r' : Run TimersFit c' := r.step hfit hs
  have hint' := (step_start_interval hs).trans hint
  have hshot : Shot t c'.timerView.log c''.timerView := by
    apply h.invariant (P := fun c'' => Shot t c'.timerView.log c''.timerView)
    · rintro _ rfl
      refine ⟨[], (List.append_nil _).symm, fun _ => ⟨hint', ?_⟩⟩
      simpa [firings] using Bool.toNat_le _
    · intro c1 x c2 h1 hc hok hs1
      have hv := Run.timersValid (fun c x hx => hx) (Machine.Reach.trans r' h1)
      rcases (step_timers hv hok hs1).2 with he | hm
      · rwa [he]
      · exact hm.shot hc
  obtain ⟨m, hm, hle⟩ := hshot
  refine ⟨m, hm, fun hn => ?_⟩
  have := (hle hn).2
  omega

/-- A timer that is started again in its own callback fires once more. -/
theorem one_shot_fires_once_again : ∃ c c' c'', Run TimersFit c ∧
    Machine.Reach step TimersFit (· = c') c'' ∧ firings 0 c.world.log = 1 ∧
    firings 0 c''.world.log = 2 ∧ FiresOnce 0 c' c'' := by
  have hplay : ∃ c c' c'', Machine.play step TimersFit (Cfg.start [])
      [.api (.timerStart 0 true 5) (.ok 0 []), .env (.tick 5), .api .ioRun (.ok 0 []),
        .lib (.ok 0 []), .lib (.ok 0 [])] = some c ∧
      step c (.api (.timerStart 0 true 3) (.ok 0 [])) = some c' ∧
      Machine.play step TimersFit c' [.env (.tick 3), .ret none, .lib (.ok 0 []),
        .lib (.ok 0 []), .lib (.ok 0 []), .lib (.ok 0 []), .lib (.ok 0 []), .lib (.ok 0 []),
        .lib (.ok 0 [])] = some c'' ∧ (c.world.timer 0).interval = 0 ∧
      TimersFit c (.api (.timerStart 0 true 3) (.ok 0 [])) ∧
      firings 0 c.world.log = 1 ∧ firings 0 c''.world.log = 2 :=
    ⟨_, _, _, rfl, rfl, rfl, rfl, by decide, rfl, rfl⟩
  obtain ⟨c, c', c'', h1, hs, h2, hint, hfit, hone, htwo⟩ := hplay
  have r : Run TimersFit c := Run.play (Cfg.start_init []) _ h1
  have h0 : Machine.Reach step TimersFit (· = c') c' := .init rfl
  have h : Machine.Reach step TimersFit (· = c') c'' := h0.play h2
  exact ⟨c, c', c'', r, h, hone, htwo, one_shot_fires_once r hint hfit hs h⟩

/-- A timer that has repeated every 5 is stopped and started once, with a delay of 7. -/
theorem one_shot_repeats : ∃ c c' c'', Run AnyStep c ∧ (c.world.timer 0).active = false ∧
    step c (.api (.timerStart 0 true 7) (.ok 0 [])) = some c' ∧
    Machine.Reach step AnyStep (· = c') c'' ∧ c''.timerView.log = c'.timerView.log ++
      [.refDec (.timer 0), .cb (.onTimeout 0 7) 7, .refInc (.timer 0), .refDec (.timer 0),
        .cb (.onTimeout 0 12) 12] := by
  have hplay : ∃ c c' c'', Machine.play step AnyStep (Cfg.start [])
      [.api (.timerRepeat 0 true 5) (.ok 0 []), .api (.timerStop 0) (.ok 0 [])] = some c ∧
      (c.world.timer 0).active = false ∧
      step c (.api (.timerStart 0 true 7) (.ok 0 [])) = some c' ∧
      Machine.play step AnyStep c' [.env (.tick 7), .api .ioRun (.ok 0 []), .lib (.ok 0 []),
        .lib (.ok 0 []), .ret none, .lib (.ok 0 []), .env (.tick 5), .lib (.ok 0 []),
        .lib (.ok 0 []), .lib (.ok 0 []), .lib (.ok 0 []), .lib (.ok 0 []),
        .lib (.ok 0 [])] = some c'' ∧ c''.timerView.log = c'.timerView.log ++
      [.refDec (.timer 0), .cb (.onTimeout 0 7) 7, .refInc (.timer 0), .refDec (.timer 0),
        .cb (.onTimeout 0 12) 12] :=
    ⟨_, _, _, rfl, rfl, rfl, rfl, rfl⟩
  obtain ⟨c, c', c'', h1, hact, hs, h2, hlog⟩ := hplay
  have r : Run AnyStep c := Run.play (Cfg.start_init []) _ h1
  have h0 : Machine.Reach step AnyStep (· = c') c' := .init rfl
  exact ⟨c, c', c'', r, hact, hs, h0.play h2, hlog⟩

theorem not_one_shot_fires_once : ¬ ∀ (c c' c'' : Cfg) (t : Tid) (cb : Bool) (d : Nat) (a : Answer),
    Run AnyStep c → (c.world.timer t).active = false →
    step c (.api (.timerStart t cb d) a) = some c' → Machine.Reach step AnyStep (· = c') c'' →
    FiresOnce t c' c'' := by
  intro h
  obtain ⟨c, c', c'', r, hact, hs, hr, hlog⟩ := one_shot_repeats
  obtain ⟨m, hm, hle⟩ := h c c' c'' 0 true 7 (.ok 0 []) r hact hs hr
  rw [hlog, List.append_cancel_left_eq] at hm
  subst hm
  exact absurd (hle (by decide)) (by decide)

end Pandio
