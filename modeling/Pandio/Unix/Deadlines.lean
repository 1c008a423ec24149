import Pandio.Unix.OneShot

/- Deadlines without a bound. `pd_timer_start` adds the delay to the loop's time in 64
   bits; beside every run the sum is kept here as a natural number, and what
   `pd_timers_run` compares with the loop's time is its remainder. Nothing is assumed
   of the heap for this, not even that it holds the active timers. -/
namespace Pandio
open World

/-! ## A run with the deadlines meant -/

/-- A configuration with, for each timer, the loop's time at its last start plus the delay. -/
structure Timed where
  cfg : Cfg
  due : Tid → Nat

/-- A started timer is due at the loop's time plus the delay. -/
def recordDue (c : Cfg) (x : Act) (due : Tid → Nat) : Tid → Nat :=
  match started c x with
  | some (t, d) => Function.update due t (c.world.now + d)
  | none => due

def Timed.step (g : Timed) (x : Act) : Option Timed :=
  (Pandio.step g.cfg x).map fun c' => ⟨c', recordDue g.cfg x g.due⟩

def Timed.Init (g : Timed) : Prop := g.cfg.Init ∧ g.due = fun _ => 0

/-- The runs of the machine, with the deadlines meant. -/
def Timed.Run : Timed → Prop := Machine.Reach Timed.step (fun _ _ => True) Timed.Init

/-- Every run has its deadlines. -/
theorem Run.timed {ok : Cfg → Act → Prop} {c : Cfg} (r : Run ok c) : ∃ due, Timed.Run ⟨c, due⟩ := by
  induction r with
  | init h => exact ⟨_, .init ⟨h, rfl⟩⟩
  | @step c c' x r hok hs ih =>
    obtain ⟨due, hrun⟩ := ih
    refine ⟨recordDue c x due, hrun.step trivial (a := x) ?_⟩
    simp [Timed.step, hs]

theorem Timed.Run.run {g : Timed} (r : Timed.Run g) : Pandio.Run AnyStep g.cfg := by
  induction r with
  | init h => exact .init h.1
  | step r hok hs ih =>
    obtain ⟨c', hc, rfl⟩ := Option.map_eq_some_iff.mp hs
    exact ih.step trivial hc

/-! ## What a step does to the deadlines -/

theorem firings_filter (t : Tid) (l : List Obs) : firings t (l.filter isTimerObs) = firings t l := by
  unfold firings
  rw [List.countP_filter]
  apply List.countP_congr
  intro o _
  unfold isFiring
  split <;> simp [isTimerObs]

/-- What a step does to the times: the deadline of a started timer is the sum in 64 bits, no other
changes, and only the root of the heap fires, when it is due. -/
structure TimesStep (c : Cfg) (x : Act) (c' : Cfg) : Prop where
  now : c'.world.now = c.world.now ∨ c'.world.now = c.world.kernel.clock
  clock : c.world.kernel.clock < 2 ^ 64 → c'.world.kernel.clock < 2 ^ 64
  timeout : ∀ t, (c'.world.timer t).timeout =
    match started c x with
    | some (t', d) => if t = t' then (c.world.now + d) % 2 ^ 64 else (c.world.timer t).timeout
    | none => (c.world.timer t).timeout
  fires : ∀ t, firings t c.world.log < firings t c'.world.log →
    heapPeek c.world.timers = some t ∧ (c.world.timer t).timeout ≤ c.world.now

section
variable {w w' : World} {t t' : Tid} {cb : Bool} {d : Nat}

theorem pdTimerStart_firings (h : pdTimerStart w t' cb d = some w') :
    firings t w'.log = firings t w.log := by
  have hlog := congrArg TimerView.log (pdTimerStart_timerView [] h)
  obtain ⟨l, hl, hno⟩ :=
    TimerView.start_log (w.timerView []) t t' cb d
  rw [← firings_filter t w'.log, ← firings_filter t w.log]
  rw [hl] at hlog
  rw [show w'.log.filter isTimerObs = _ from hlog, firings_append, hno, Nat.add_zero]
  rfl

theorem pdTimerStop_firings (h : pdTimerStop w t' = some w') :
    firings t w'.log = firings t w.log := by
  have hlog := congrArg TimerView.log (pdTimerStop_timerView [] h)
  obtain ⟨l, hl, hno⟩ := TimerView.stop_log (w.timerView []) t t'
  rw [← firings_filter t w'.log, ← firings_filter t w.log]
  rw [hl] at hlog
  rw [show w'.log.filter isTimerObs = _ from hlog, firings_append, hno, Nat.add_zero]
  rfl

end

section
variable {c c' : Cfg} {x : Act} {w' : World} {st : List Item}

/-- A step that leaves the timers alone. -/
theorem TimesStep.idle (hst : started c x = none) (h : w'.timerBase = c.world.timerBase) :
    TimesStep c x ⟨w', st⟩ := by
  have hnow : w'.now = c.world.now := congrArg (·.2.now) h
  have hclock : w'.kernel.clock = c.world.kernel.clock := congrArg (·.2.clock) h
  have htimer : w'.timer = c.world.timer := congrArg (·.2.timer) h
  have hlog : w'.log.filter isTimerObs = c.world.log.filter isTimerObs := congrArg (·.2.log) h
  refine ⟨.inl hnow, fun hc => ?_, fun t => ?_, fun t hlt => ?_⟩
  · exact hclock ▸ hc
  · rw [hst]
    exact congrArg (fun f => (f t).timeout) htimer
  · have heq : firings t w'.log = firings t c.world.log := by
      rw [← firings_filter, hlog, firings_filter]
    exact absurd heq (Nat.ne_of_gt hlt)

/-- A step that starts a timer, unless it is active, and changes no other time. -/
theorem TimesStep.start {w : World} {t : Tid} {cb : Bool} {d : Nat}
    (hst : started c x = if (w.timer t).active then none else some (t, d))
    (hw : pdTimerStart w t cb d = some w') (hnow : w.now = c.world.now)
    (hclock : w.kernel.clock = c.world.kernel.clock)
    (htimer : ∀ t, (w.timer t).timeout = (c.world.timer t).timeout)
    (hlog : ∀ t, firings t w.log = firings t c.world.log) : TimesStep c x ⟨w', st⟩ := by
  obtain ⟨hnow', hclock'⟩ := pdTimerStart_time hw
  refine ⟨.inl (hnow'.trans hnow), fun hc => ?_, fun t' => ?_, fun t' hlt => ?_⟩
  · rw [hclock'.trans hclock]
    exact hc
  · rw [hst, pdTimerStart_timeout hw, htimer, hnow]
    cases hact : (w.timer t).active <;> simp
  · have heq : firings t' w'.log = firings t' c.world.log :=
      (pdTimerStart_firings hw).trans (hlog t')
    exact absurd heq (Nat.ne_of_gt hlt)

theorem pdTimersRun_times {a : Answer} {rest : List Item} {r : World × List Item}
    (hst : c.stack = .lib .timersRun :: rest) (h : pdTimersRun c.world = some r) :
    TimesStep c (.lib a) ⟨r.1, st⟩ := by
  have hnone : started c (.lib a) = none := by simp [started, rearmed, hst]
  unfold pdTimersRun at h
  split at h
  · cases h
    exact .idle hnone rfl
  · rename_i min hpeek
    split at h
    · cases h
      exact .idle hnone rfl
    · rename_i hdue
      obtain ⟨w1, hstop, h⟩ := Option.bind_eq_some_iff.mp h
      obtain ⟨hnow, hclock⟩ := pdTimerStop_time hstop
      split at h
      · cases h
        refine ⟨.inl hnow, fun hc => ?_, fun t => ?_, fun t hlt => ?_⟩
        · exact hclock ▸ hc
        · rw [hnone]
          have htime := pdTimerStop_timeout (t := t) hstop
          exact htime
        · have hone : firings t (w1.call (.onTimeout min (w1.timer min).timeout)
              [.timersRearm min]).1.log = firings t c.world.log + if min = t then 1 else 0 := by
            rw [← pdTimerStop_firings (t := t) hstop]
            simp [World.call, World.logObs, firings, isFiring, List.countP_append,
              List.countP_cons]
          by_cases ht : min = t
          · subst ht
            exact ⟨hpeek, Nat.le_of_not_lt hdue⟩
          · rw [if_neg ht] at hone
            exact absurd hone (Nat.ne_of_gt hlt)
      · cases h
        refine ⟨.inl hnow, fun hc => ?_, fun t => ?_, fun t hlt => ?_⟩
        · exact hclock ▸ hc
        · rw [hnone]
          have htime := pdTimerStop_timeout (t := t) hstop
          exact htime
        · exact absurd (pdTimerStop_firings hstop) (Nat.ne_of_gt hlt)

theorem exec_times {f : Frame} {a : Answer} {rest : List Item} {r : World × List Item}
    (hst : c.stack = .lib f :: rest) (h : exec c.world f a = some r) :
    TimesStep c (.lib a) ⟨r.1, st⟩ := by
  by_cases hf : f.timing = false
  · have hnone : started c (.lib a) = none := by
      cases f <;> first | (simp [started, rearmed, hst]; done) | cases hf
    exact .idle hnone (exec_timerBase hf h)
  · cases f with
    | timersRun => exact pdTimersRun_times hst h
    | timersRearm t =>
      simp only [exec, pdTimersRearm] at h
      split at h
      · rename_i hi
        obtain ⟨w', hw, rfl⟩ := Option.map_eq_some_iff.mp h
        refine TimesStep.start ?_ hw rfl rfl (fun _ => rfl) fun _ => rfl
        simp [started, rearmed, hst, hi]
      · rename_i hi
        cases h
        refine .idle ?_ rfl
        simp [started, rearmed, hst, hi]
    | ioRun timeout =>
      have hnone : started c (.lib a) = none := by simp [started, rearmed, hst]
      simp only [exec, ioRun] at h
      split at h
      · cases h
        exact .idle hnone rfl
      · split at h
        · split at h <;> cases h
          exact .idle hnone rfl
        · cases h
          refine ⟨.inr rfl, fun hc => hc, fun t => ?_, fun t hlt => ?_⟩
          · rw [hnone]
            rfl
          · exact absurd hlt (Nat.lt_irrefl _)
    | _ => exact absurd rfl hf

theorem api_times {k : Call} {a : Answer} {r : World × List Item}
    (h : api c.world k a = some r) : TimesStep c (.api k a) ⟨r.1, st⟩ := by
  have logged : ∀ t t' : Tid, firings t (c.world.logObs (.timerStart t')).log =
      firings t c.world.log := by
    intro t t'
    simp [World.logObs, firings, isFiring]
  by_cases hk : k.timing = false
  · have hnone : started c (.api k a) = none := by
      cases k <;> first | rfl | cases hk
    exact .idle hnone (api_timerBase hk h)
  · cases k with
    | timerStart t cb d =>
      obtain ⟨w', hw, rfl⟩ := Option.map_eq_some_iff.mp h
      exact TimesStep.start (w := c.world.logObs (.timerStart t)) rfl hw rfl rfl (fun _ => rfl)
        fun t' => logged t' t
    | timerRepeat t cb d =>
      obtain ⟨w', hw, rfl⟩ := Option.map_eq_some_iff.mp h
      refine TimesStep.start ?_ hw rfl rfl (fun t' => ?_) fun t' => logged t' t
      · simp [started, World.setTimer, World.logObs]
      · by_cases ht : t' = t
        · subst ht
          simp [World.setTimer, World.logObs]
        · simp [World.setTimer, World.logObs, ht]
    | timerStop t =>
      obtain ⟨w', hw, rfl⟩ := Option.map_eq_some_iff.mp h
      obtain ⟨hnow, hclock⟩ := pdTimerStop_time hw
      refine ⟨.inl hnow, fun hc => hclock ▸ hc, fun t' => ?_, fun t' hlt => ?_⟩
      · have htime := pdTimerStop_timeout (t := t') hw
        exact htime
      · have heq : firings t' ((w'.logObs (.timerStop t)).goOn []).1.log =
            firings t' c.world.log := by
          rw [← pdTimerStop_firings (t := t') hw]
          simp [goOn, World.logObs, firings, isFiring]
        exact absurd heq (Nat.ne_of_gt hlt)
    | _ => exact absurd rfl hk

theorem step_times (hs : step c x = some c') : TimesStep c x c' := by
  rcases step_cases hs with ⟨a, f, rest, r, rfl, hst, hr, rfl⟩ |
    ⟨k, a, cb, rest, r, rfl, hst, hr, rfl⟩ | ⟨p, cb, rest, rfl, hst, hcb, rfl⟩ |
    ⟨e, w', rfl, he, rfl⟩
  · exact exec_times hst hr
  · exact api_times hr
  · exact .idle rfl rfl
  · cases e with
    | tick n =>
      simp only [env] at he
      split at he <;> cases he
      rename_i hn
      exact ⟨.inl rfl, fun _ => hn, fun _ => rfl, fun t hlt => absurd hlt (Nat.lt_irrefl _)⟩
    | arrive fd bytes | peerFin fd | workDone t =>
      simp only [env] at he
      split at he <;> cases he
      exact .idle rfl rfl
    | openFd fd =>
      simp only [env] at he
      split at he <;> cases he
      exact .idle rfl (setKernel_timerBase (Kernel.newSocket_clock ..))
    | closeFd fd =>
      cases he
      exact .idle rfl (setKernel_timerBase (Kernel.close_clock ..))

end

/-! ## Runs -/

/-- The times fit 64 bits, and each timer's deadline is what is left of the one meant. -/
structure Timed.Inv (g : Timed) : Prop where
  now : g.cfg.world.now < 2 ^ 64
  clock : g.cfg.world.kernel.clock < 2 ^ 64
  timeout : ∀ t, (g.cfg.world.timer t).timeout = g.due t % 2 ^ 64

theorem Timed.Run.inv {g : Timed} (r : Timed.Run g) : g.Inv := by
  apply r.invariant
  · rintro ⟨c, due⟩ ⟨⟨k, fd, hclock, -, hc⟩, hdue⟩
    cases hc
    cases hdue
    exact ⟨hclock, hclock, fun _ => rfl⟩
  · intro g x g' _ h _ hs
    obtain ⟨c', hc, rfl⟩ := Option.map_eq_some_iff.mp hs
    have hstep := step_times hc
    refine ⟨?_, hstep.clock h.clock, fun t => ?_⟩
    · rcases hstep.now with hnow | hnow
      · exact hnow.trans_lt h.now
      · exact hnow.trans_lt h.clock
    · rw [hstep.timeout]
      unfold recordDue
      cases started g.cfg x with
      | none => exact h.timeout t
      | some p =>
        by_cases ht : t = p.1
        · subst ht
          simp
        · simp [ht, h.timeout t]

/-- The step invokes the callback of `t`. -/
def Fires (t : Tid) (g g' : Timed) : Prop :=
  firings t g.cfg.world.log < firings t g'.cfg.world.log

/-- **A timer fires early exactly when its deadline does not fit 64 bits.** If it does, no active
timer was to fire before. -/
theorem fires_early_iff {g g' : Timed} {x : Act} {t : Tid} (r : Timed.Run g)
    (hs : g.step x = some g') (hf : Fires t g g') :
    (g.due t ≤ g.cfg.world.now ↔ g.due t < 2 ^ 64) ∧
      (Pandio.Run TimersFit g.cfg → g.due t < 2 ^ 64 →
        ∀ t', (g.cfg.world.timer t').active = true → g.due t ≤ g.due t') := by
  have h := r.inv
  obtain ⟨c', hc, rfl⟩ := Option.map_eq_some_iff.mp hs
  obtain ⟨hpeek, hdue⟩ := (step_times hc).fires t hf
  constructor
  · constructor
    · intro hle
      exact hle.trans_lt h.now
    · intro hlt
      rwa [h.timeout, Nat.mod_eq_of_lt hlt] at hdue
  · intro hrun hlt t' hact
    have hv := Run.timersValid (fun c x hx => hx) hrun
    have hmin := ((hv.peek []).1 t hpeek).le t' hact
    calc g.due t = (g.cfg.world.timer t).timeout := by rw [h.timeout, Nat.mod_eq_of_lt hlt]
      _ ≤ (g.cfg.world.timer t').timeout := hmin
      _ = g.due t' % 2 ^ 64 := h.timeout t'
      _ ≤ g.due t' := Nat.mod_le ..

/-- Two timers are started with 5 and 9, and the loop's time is 7 when the first fires. -/
theorem fires_early_iff_five : ∃ g g', Timed.Run g ∧ g.step (.lib (.ok 0 [])) = some g' ∧
    Fires 0 g g' ∧ g.due 0 = 5 ∧ g.due 1 = 9 ∧ g.cfg.world.now = 7 ∧
    (g.due 0 ≤ g.cfg.world.now ↔ g.due 0 < 2 ^ 64) := by
  have hplay : ∃ g g', Machine.play Timed.step (fun _ _ => True) ⟨Cfg.start [], fun _ => 0⟩
      [.api (.timerStart 1 true 9) (.ok 0 []), .api (.timerStart 0 true 5) (.ok 0 []),
        .env (.tick 7), .api .ioRun (.ok 0 []), .lib (.ok 0 [])] = some g ∧
      g.step (.lib (.ok 0 [])) = some g' ∧ firings 0 g.cfg.world.log = 0 ∧
      firings 0 g'.cfg.world.log = 1 ∧ g.due 0 = 5 ∧ g.due 1 = 9 ∧ g.cfg.world.now = 7 :=
    ⟨_, _, rfl, rfl, rfl, rfl, rfl, rfl, rfl⟩
  obtain ⟨g, g', hg, hs, h0, h1, hdue, hdue1, hnow⟩ := hplay
  have r : Timed.Run g := (Machine.Reach.init ⟨Cfg.start_init [], rfl⟩).play hg
  have hf : Fires 0 g g' := by
    unfold Fires
    omega
  exact ⟨g, g', r, hs, hf, hdue, hdue1, hnow, (fires_early_iff r hs hf).1⟩

/-- In a callback at the loop's time 1 a timer is started with the longest delay there is: it
fires at once. -/
theorem fires_at_once : ∃ g g', Timed.Run g ∧ g.step (.lib (.ok 0 [])) = some g' ∧
    Fires 1 g g' ∧ g.due 1 = 1 + (2 ^ 64 - 1) ∧ g.cfg.world.now = 1 := by
  have hplay : ∃ g g', Machine.play Timed.step (fun _ _ => True) ⟨Cfg.start [], fun _ => 0⟩
      [.api (.timerStart 0 true 1) (.ok 0 []), .env (.tick 1), .api .ioRun (.ok 0 []),
        .lib (.ok 0 []), .lib (.ok 0 []), .api (.timerStart 1 true (2 ^ 64 - 1)) (.ok 0 []),
        .ret none, .lib (.ok 0 [])] = some g ∧
      g.step (.lib (.ok 0 [])) = some g' ∧ firings 1 g.cfg.world.log = 0 ∧
      firings 1 g'.cfg.world.log = 1 ∧ g.due 1 = 1 + (2 ^ 64 - 1) ∧ g.cfg.world.now = 1 :=
    ⟨_, _, rfl, rfl, rfl, rfl, rfl, rfl⟩
  obtain ⟨g, g', hg, hs, h0, h1, hdue, hnow⟩ := hplay
  have r : Timed.Run g := (Machine.Reach.init ⟨Cfg.start_init [], rfl⟩).play hg
  have hf : Fires 1 g g' := by
    unfold Fires
    omega
  exact ⟨g, g', r, hs, hf, hdue, hnow⟩

theorem not_fires_late : ¬ ∀ (g g' : Timed) (x : Act) (t : Tid), Timed.Run g →
    g.step x = some g' → Fires t g g' → g.due t ≤ g.cfg.world.now := by
  intro h
  obtain ⟨g, g', r, hs, hf, hdue, hnow⟩ := fires_at_once
  have hle := h g g' _ 1 r hs hf
  omega

end Pandio
