import Pandio.Unix.TimerMembers

/- No due timer is left behind. Between the poll and the end of `pd_timers_run` timers
   may be overdue; in the rest of an iteration, where `pd_timers_next` computes the
   timeout of the next poll, none is. Which part the loop is in can be seen on the call
   stack, and what holds in the second part is the invariant. A callback of the first
   part that asks `pd_timers_next` as well gets the right answer as long as the poll has
   come in time for every timer. -/
namespace Pandio
open World

/-! ## The two parts of an iteration -/

/-- The innermost loop has not polled, or its `pd_timers_run` has returned. -/
def timersDone : List Item → Bool
  | .lib .timersRun :: _ | .lib (.timersRearm _) :: _ => false
  | .lib .pendingClose :: _ | .lib (.pendingCloseDec _) :: _ | .lib .ioAfterTick :: _
  | .lib .ioNext :: _ | .lib (.ioRun _) :: _ => true
  | _ :: rest => timersDone rest
  | [] => true

/-- The step calls `pd_timers_next`. -/
def callsTimersNext (c : Cfg) (x : Act) : Bool :=
  match x, c.stack with
  | .api .ioRun _, .app _ :: _ | .api .timersNext _, .app _ :: _ | .lib _, .lib .ioNext :: _ => true
  | _, _ => false

/-- `pd_io_run` is called. -/
def Act.isIoRun : Act → Bool
  | .api .ioRun _ => true
  | _ => false

/-- `pd_io_run` is not called while the innermost loop is still to run its timers and one of them is
overdue. -/
def NotNestedOverdue (c : Cfg) (x : Act) : Prop :=
  x.isIoRun = true → timersDone c.stack = false →
    ∀ t ∈ heapPeek c.world.timers, c.world.now ≤ (c.world.timer t).timeout

instance (c : Cfg) (x : Act) : Decidable (NotNestedOverdue c x) :=
  inferInstanceAs (Decidable (_ → _ → ∀ t ∈ heapPeek c.world.timers, _))

/-- No timer is overdue. -/
def NoneOverdue (w : World) : Prop :=
  ∀ t, (w.timer t).active = true → w.now ≤ (w.timer t).timeout

/-- No timer is due. -/
def NoneDue (w : World) : Prop :=
  ∀ t, (w.timer t).active = true → w.now < (w.timer t).timeout

/-- The value of `pd_timers_next` is exact. -/
structure NextExact (w : World) : Prop where
  none : pdTimersNext w = -1 ↔ ∀ t, (w.timer t).active = false
  earliest : ∀ t, (w.timer t).active = true →
    (∀ t', (w.timer t').active = true → (w.timer t).timeout ≤ (w.timer t').timeout) →
    pdTimersNext w = min (INT_MAX : Int) ((w.timer t).timeout - w.now)

/-! ## Which part a step leads to -/

section
variable {c c' : Cfg} {x : Act}

/-- A frame leads out of the first part only when `pd_timers_run` returns. -/
theorem Frame.Pushes.timersDone {f : Frame} {l : List Item} (h : f.Pushes l) (rest : List Item)
    (hd : timersDone (l ++ rest) = true) :
    Pandio.timersDone (.lib f :: rest) = true ∨ f = .timersRun ∧ l = [] := by
  cases h <;> simp_all [Pandio.timersDone]

theorem Call.Pushes.timersDone {k : Call} {l : List Item} (h : k.Pushes l) (cb : Cb)
    (rest : List Item) (hd : timersDone (l ++ .app cb :: rest) = true) :
    Pandio.timersDone (.app cb :: rest) = true ∨ k = .ioRun := by
  cases h <;> simp_all [Pandio.timersDone]

end

theorem timersDone_poll (l : List (Handle × Events)) (rest : List Item) :
    timersDone ((l.map fun e => .lib (.dispatch e.1 e.2)) ++ .lib .timersRun :: rest) = false := by
  induction l with
  | nil => rfl
  | cons e l ih => exact ih

/-! ## Overdue timers -/

section
variable {w w' : World} {t : Tid} {cb : Bool} {d : Nat}

theorem NoneOverdue.congr (h : NoneOverdue w) (hv : w'.timerBase = w.timerBase) :
    NoneOverdue w' := by
  have h1 : w'.timer = w.timer := congrArg (·.2.timer) hv
  have h2 : w'.now = w.now := congrArg (·.2.now) hv
  intro t
  rw [h1, h2]
  exact h t

/-- A timer is started with a deadline ahead of the loop's time. -/
theorem NoneOverdue.start (h : NoneOverdue w) (hw : pdTimerStart w t cb d = some w')
    (hd : (w.timer t).active = false → w.now + d < 2 ^ 64) : NoneOverdue w' := by
  intro t' hact
  rw [(pdTimerStart_time hw).1, pdTimerStart_timeout hw]
  split
  · rename_i hnew
    rw [Nat.mod_eq_of_lt (hd hnew.2)]
    exact Nat.le_add_right ..
  · rename_i hold
    apply h t'
    rcases (pdTimerStart_active hw t').mp hact with rfl | hact
    · simpa using hold
    · exact hact

theorem NoneOverdue.stop (h : NoneOverdue w) (hw : pdTimerStop w t = some w') :
    NoneOverdue w' := by
  intro t' hact
  rw [(pdTimerStop_time hw).1, pdTimerStop_timeout hw]
  exact h t' ((pdTimerStop_active hw t').mp hact).2

theorem NoneOverdue.setInterval {i : Nat} (h : NoneOverdue w) :
    NoneOverdue (w.setTimer t { w.timer t with interval := i }) := by
  intro t' hact
  by_cases ht : t' = t
  · subst ht
    simp only [World.setTimer, Function.update_self] at hact ⊢
    exact h t' hact
  · simp only [World.setTimer, Function.update_of_ne ht] at hact ⊢
    exact h t' hact

/-- No timer is overdue when the root of the heap is not. -/
theorem TimersValid.noneOverdue (hv : TimersValid w)
    (h : ∀ t ∈ heapPeek w.timers, w.now ≤ (w.timer t).timeout) : NoneOverdue w := by
  intro t hact
  cases hpeek : heapPeek w.timers with
  | none =>
    rw [(hv.peek []).2 hpeek t] at hact
    cases hact
  | some m => exact le_trans (h m hpeek) (((hv.peek []).1 m hpeek).le t hact)

/-- When `pd_timers_run` returns, no timer is due. -/
theorem pdTimersRun_returns {r : World × List Item} (hv : TimersValid w)
    (h : pdTimersRun w = some r) (hr : r.2 = []) : NoneDue r.1 := by
  unfold pdTimersRun at h
  split at h
  · rename_i hpeek
    cases h
    intro t hact
    have hnone := (hv.peek []).2 hpeek t
    have hact : (w.timer t).active = true := hact
    rw [hnone] at hact
    cases hact
  · rename_i min hpeek
    split at h
    · rename_i hahead
      cases h
      intro t hact
      exact lt_of_lt_of_le hahead (((hv.peek []).1 min hpeek).le t hact)
    · obtain ⟨w1, _, h⟩ := Option.bind_eq_some_iff.mp h
      split at h <;> cases h <;> cases hr

/-- The result of `pd_timers_next` when no timer is overdue. -/
theorem NoneOverdue.nextExact (h : NoneOverdue w) (hv : TimersValid w)
    (hlt : ∀ t, (w.timer t).timeout < 2 ^ 64) : NextExact w := by
  cases hpeek : heapPeek w.timers with
  | none =>
    have hnone := (hv.peek []).2 hpeek
    refine ⟨by simp [pdTimersNext, hpeek, hnone], fun t hact => ?_⟩
    rw [hnone t] at hact
    cases hact
  | some m =>
    have hmin := (hv.peek []).1 m hpeek
    have hle := h m hmin.active
    have hsub : ((w.timer m).timeout + 2 ^ 64 - w.now) % 2 ^ 64 = (w.timer m).timeout - w.now := by
      have := hlt m
      omega
    have hnext : pdTimersNext w = min (INT_MAX : Int) ((w.timer m).timeout - w.now) := by
      simp only [pdTimersNext, hpeek, hsub]
      split <;> omega
    refine ⟨?_, ?_⟩
    · constructor
      · intro h1
        rw [hnext] at h1
        have : (0 : Int) ≤ INT_MAX := Int.natCast_nonneg _
        omega
      · intro hnone
        have hact := hmin.active
        rw [show ((w.timerView []).timer m).active = false from hnone m] at hact
        cases hact
    · intro t hact hleast
      have heq : (w.timer t).timeout = (w.timer m).timeout :=
        le_antisymm (hleast m hmin.active) (hmin.le t hact)
      rw [hnext, heq]

end

/-! ## Runs -/

/-- In the second part of an iteration no timer is overdue. -/
structure DueInv (c : Cfg) : Prop where
  bounded : ∀ t, (c.world.timer t).timeout < 2 ^ 64
  done : timersDone c.stack = true → NoneOverdue c.world

theorem TimerMove.bounded {P : Tid → Nat → Prop} {Q : Tid → Prop} {v v' : TimerView}
    (m : TimerMove P Q v v') (h : ∀ t, (v.timer t).timeout < 2 ^ 64) (t : Tid) :
    (v'.timer t).timeout < 2 ^ 64 := by
  have hstart : ∀ {v : TimerView} {t' cb d}, (v.timer t).timeout < 2 ^ 64 →
      ((v.start t' cb d).timer t).timeout < 2 ^ 64 := by
    intro v t' cb d hv
    unfold TimerView.start
    split
    · exact hv
    · by_cases ht : t = t'
      · subst ht
        simp only [Function.update_self]
        exact Nat.mod_lt _ (Nat.two_pow_pos 64)
      · simpa [ht] using hv
  cases m with
  | tick n => exact h t
  | poll => exact h t
  | start _ => exact hstart (h t)
  | @repeating t' cb d _ =>
    apply hstart
    by_cases ht : t = t'
    · subst ht
      simpa [TimerView.setInterval, TimerView.logObs] using h t
    · simpa [TimerView.setInterval, TimerView.logObs, ht] using h t
  | stop t' => exact TimerView.stop_timeout.trans_lt (h t)
  | fire _ _ => exact TimerView.stop_timeout.trans_lt (h t)
  | rearm _ _ _ _ => exact hstart (h t)
  | once _ _ => exact h t

/-- The condition of the runs. -/
def TimersKept (c : Cfg) (x : Act) : Prop :=
  TimersFit c x ∧ NoOverflow c x ∧ NotNestedOverdue c x

instance (c : Cfg) (x : Act) : Decidable (TimersKept c x) := inferInstanceAs (Decidable (_ ∧ _))

section
variable {c c' : Cfg} {x : Act} {w : World} {a : Answer} {r : World × List Item}

/-- A step of the library that leads to the second part, or stays there. -/
theorem exec_noneOverdue {f : Frame} {rest : List Item} (hv : TimersValid w)
    (hinv : timersDone (.lib f :: rest) = true → NoneOverdue w) (h : exec w f a = some r)
    (hd : timersDone (r.2 ++ rest) = true) : NoneOverdue r.1 := by
  rcases (exec_pushes h).timersDone rest hd with hold | ⟨rfl, hr⟩
  · have hnone := hinv hold
    by_cases hf : f.timing = false
    · exact hnone.congr (exec_timerBase hf h)
    · cases f with
      | timersRun | timersRearm t => cases hold
      | ioRun timeout =>
        simp only [exec, ioRun] at h
        split at h
        · cases h
          exact hnone
        · split at h
          · split at h <;> cases h
            exact hnone.congr rfl
          · cases h
            -- after the poll the timers are still to run
            simp only [goOn, List.map_append, List.map_map, List.map_cons, List.map_nil,
              List.append_assoc, List.cons_append, Function.comp_def, timersDone_poll] at hd
            cases hd
      | _ => exact absurd rfl hf
  · intro t hact
    exact le_of_lt (pdTimersRun_returns hv h hr t hact)

/-- A call of the application in the second part. -/
theorem api_noneOverdue {k : Call} (hov : ∀ t cb d, k = .timerStart t cb d ∨ k = .timerRepeat t cb d →
      (w.timer t).active = false → w.now + d % 2 ^ 64 < 2 ^ 64)
    (hinv : NoneOverdue w) (h : api w k a = some r) : NoneOverdue r.1 := by
  by_cases hk : k.timing = false
  · exact hinv.congr (api_timerBase hk h)
  · cases k with
    | timerStart t cb d =>
      obtain ⟨w1, hw, rfl⟩ := Option.map_eq_some_iff.mp h
      exact NoneOverdue.start (w := w.logObs (.timerStart t)) hinv hw (hov t cb d (.inl rfl))
    | timerRepeat t cb d =>
      obtain ⟨w1, hw, rfl⟩ := Option.map_eq_some_iff.mp h
      unfold pdTimerRepeat at hw
      refine NoneOverdue.start (NoneOverdue.setInterval (w := w.logObs (.timerStart t)) hinv) hw ?_
      intro hact
      simp only [World.setTimer, Function.update_self] at hact
      exact hov t cb d (.inr rfl) hact
    | timerStop t =>
      obtain ⟨w1, hw, rfl⟩ := Option.map_eq_some_iff.mp h
      have hstop := hinv.stop hw
      exact hstop
    | _ => exact absurd rfl hk

theorem DueInv.step (hinv : DueInv c) (hv : TimersValid c.world) (hok : TimersKept c x)
    (hs : step c x = some c') : DueInv c' := by
  obtain ⟨hfit, hov, hnest⟩ := hok
  constructor
  · rcases (step_timers hv hfit hs).2 with he | hm
    · have htimer : c'.world.timer = c.world.timer := congrArg TimerView.timer he
      rw [htimer]
      exact hinv.bounded
    · exact hm.bounded hinv.bounded
  · rcases step_cases hs with ⟨a, f, rest, r, rfl, hst, hr, rfl⟩ |
      ⟨k, a, cb, rest, r, rfl, hst, hr, rfl⟩ | ⟨p, cb, rest, rfl, hst, hcb, rfl⟩ |
      ⟨e, w', rfl, he, rfl⟩
    · have hdone := hinv.done
      rw [hst] at hdone
      exact exec_noneOverdue hv hdone hr
    · intro hd
      have hdone := hinv.done
      rw [hst] at hdone
      rcases (api_pushes hr).timersDone cb rest hd with hold | rfl
      · refine api_noneOverdue ?_ (hdone hold) hr
        rintro t b d (rfl | rfl) hact <;> exact hov (t, d % 2 ^ 64) (by simp [started, hact])
      · cases hr
        by_cases hold : timersDone (.app cb :: rest) = true
        · exact hdone hold
        · refine hv.noneOverdue (hnest rfl ?_)
          rw [hst]
          simpa using hold
    · intro hd
      have hdone := hinv.done
      rw [hst] at hdone
      exact hdone hd
    · intro hd
      have hnone := hinv.done hd
      cases e <;> simp only [env] at he <;> (try split at he) <;> cases he <;> exact hnone

theorem DueInv.init {c : Cfg} (h : c.Init) : DueInv c := by
  obtain ⟨k, fd, -, -, rfl⟩ := h
  exact ⟨by simp [World.init, pdTimerInit], by simp [NoneOverdue, World.init, pdTimerInit]⟩

end

/-! ## Polls that come late -/

/-- The step is a poll that returns with events, or without. -/
def isPoll (c : Cfg) (x : Act) : Bool :=
  match x, c.stack with
  | .lib a, .lib (.ioRun _) :: _ =>
    c.world.refs ≠ 0 && match a.sys 0 with
      | .ok _ => true
      | .err _ => false
  | _, _ => false

/-- The step ends a call of `pd_timers_run`. -/
def endsTimersRun (c c' : Cfg) : Bool :=
  match c.stack with
  | .lib .timersRun :: rest => c'.stack = rest
  | _ => false

/-- Whether the last poll has come after the deadline of the earliest timer, and no `pd_timers_run` has
returned since; after a step, from before it. -/
def pollLate (c : Cfg) (late : Bool) (x : Act) (c' : Cfg) : Bool :=
  if isPoll c x then
    match heapPeek c.world.timers with
    | some t => (c.world.timer t).timeout < c.world.kernel.clock
    | none => false
  else if endsTimersRun c c' then false
  else late

/-- A configuration, and whether the poll was late. -/
abbrev TimedCfg := Cfg × Bool

abbrev timedStep : TimedCfg → Act → Option TimedCfg := Machine.watch step pollLate

/-- No poll has been made yet. -/
def TimedCfg.Init (p : TimedCfg) : Prop := p.1.Init ∧ p.2 = false

/-- The timers stay within the bounds of the heap and of their deadlines, and the application calls
neither `pd_timers_next` nor `pd_io_run` between a late poll and the end of `pd_timers_run`. -/
def NotAskedLate (p : TimedCfg) (x : Act) : Prop :=
  TimersFit p.1 x ∧ NoOverflow p.1 x ∧
    ∀ k a, x = .api k a → callsTimersNext p.1 x = true → p.2 = false

instance (p : TimedCfg) : (x : Act) →
    Decidable (∀ k a, x = .api k a → callsTimersNext p.1 x = true → p.2 = false)
  | .api k a => decidable_of_iff (callsTimersNext p.1 (.api k a) = true → p.2 = false)
      ⟨fun h _ _ _ hc => h hc, fun h hc => h k a rfl hc⟩
  | .lib _ | .ret _ | .env _ => .isTrue (by simp)

instance (p : TimedCfg) (x : Act) : Decidable (NotAskedLate p x) :=
  inferInstanceAs (Decidable (_ ∧ _ ∧ _))

abbrev TimedRun (ok : TimedCfg → Act → Prop) : TimedCfg → Prop :=
  Machine.Reach timedStep ok TimedCfg.Init

/-- Whenever `pd_timers_run` returns no timer is due, and at every call of `pd_timers_next` none is
overdue and the result is the time to the earliest. -/
structure TimersServed (ok : Act → Prop) (c : Cfg) : Prop where
  returned : ∀ a c' rest, c.stack = .lib .timersRun :: rest → step c (.lib a) = some c' →
    c'.stack = rest → NoneDue c'.world
  next : ∀ x, ok x → callsTimersNext c x = true → NoneOverdue c.world ∧ NextExact c.world

section
variable {c c' : Cfg} {p p' : TimedCfg} {x : Act}

theorem NoneDue.noneOverdue {w : World} (h : NoneDue w) : NoneOverdue w :=
  fun t hact => le_of_lt (h t hact)

/-- After a poll the loop's time is the clock's, and the timers are as they were. -/
theorem isPoll_step (hp : isPoll c x = true) (hs : step c x = some c') :
    c'.world.timer = c.world.timer ∧ c'.world.now = c.world.kernel.clock := by
  rcases step_cases hs with ⟨a, f, rest, r, rfl, hst, hr, rfl⟩ |
    ⟨k, a, cb, rest, r, rfl, hst, hr, rfl⟩ | ⟨q, cb, rest, rfl, hst, hcb, rfl⟩ |
    ⟨e, w', rfl, he, rfl⟩
  · cases f with
    | ioRun timeout =>
      simp only [isPoll, hst, ne_eq, decide_not, Bool.and_eq_true, Bool.not_eq_eq_eq_not,
        Bool.not_true, decide_eq_false_iff_not] at hp
      simp only [exec, ioRun, if_neg hp.1] at hr
      split at hr
      · rename_i e he
        simp [he] at hp
      · cases hr
        exact ⟨rfl, rfl⟩
    | _ => simp [isPoll, hst] at hp
  · simp [isPoll] at hp
  · simp [isPoll] at hp
  · simp [isPoll] at hp

/-- A step that is no poll leaves no timer overdue. -/
theorem NoneOverdue.step (h : NoneOverdue c.world) (hov : NoOverflow c x) (hp : isPoll c x = false)
    (hs : Pandio.step c x = some c') : NoneOverdue c'.world := by
  rcases step_cases hs with ⟨a, f, rest, r, rfl, hst, hr, rfl⟩ |
    ⟨k, a, cb, rest, r, rfl, hst, hr, rfl⟩ | ⟨q, cb, rest, rfl, hst, hcb, rfl⟩ |
    ⟨e, w', rfl, he, rfl⟩
  · by_cases hf : f.timing = false
    · exact h.congr (exec_timerBase hf hr)
    · cases f with
      | timersRun =>
        simp only [exec, pdTimersRun] at hr
        split at hr
        · cases hr
          exact h
        · split at hr
          · cases hr
            exact h
          · obtain ⟨w1, hw1, hr⟩ := Option.bind_eq_some_iff.mp hr
            have hstop := h.stop hw1
            split at hr <;> cases hr <;> exact hstop
      | timersRearm t =>
        simp only [exec, pdTimersRearm] at hr
        split at hr
        · rename_i hint
          obtain ⟨w1, hw1, rfl⟩ := Option.map_eq_some_iff.mp hr
          refine NoneOverdue.start h hw1 fun hact => ?_
          exact hov (t, (c.world.timer t).interval) (by simp [started, rearmed, hst, hint, hact])
        · cases hr
          exact h
      | ioRun timeout =>
        simp only [exec, ioRun] at hr
        split at hr
        · cases hr
          exact h
        · rename_i href
          split at hr
          · split at hr <;> cases hr
            exact h
          · rename_i n hn
            simp [isPoll, hst, href, hn] at hp
      | _ => exact absurd rfl hf
  · refine api_noneOverdue ?_ h hr
    rintro t b d (rfl | rfl) hact <;> exact hov (t, d % 2 ^ 64) (by simp [started, hact])
  · exact h
  · have hu := env_keeps he
    intro t
    show (w'.timer t).active = true → w'.now ≤ (w'.timer t).timeout
    rw [hu.timer, hu.now]
    exact h t

/-- Unless the last poll was late, no timer is overdue. -/
structure PollInv (p : TimedCfg) : Prop where
  due : DueInv p.1
  onTime : p.2 = false → NoneOverdue p.1.world

/-- A step that ends `pd_timers_run` leaves no timer due. -/
theorem endsTimersRun_step (hend : endsTimersRun c c' = true) (hv : TimersValid c.world)
    (hs : step c x = some c') : NoneDue c'.world := by
  have hframe : ∃ rest, c.stack = .lib .timersRun :: rest ∧ c'.stack = rest := by
    unfold endsTimersRun at hend
    split at hend
    · exact ⟨_, by assumption, by simpa using hend⟩
    · cases hend
  obtain ⟨rest, hst, hst'⟩ := hframe
  obtain ⟨a, r, rfl, hr, hnil, rfl⟩ := step_ends hst hst' hs
  exact pdTimersRun_returns hv hr hnil

theorem NotAskedLate.kept (hok : NotAskedLate p x) (hinv : PollInv p) (hv : TimersValid p.1.world)
    (hs : step p.1 x = some c') : TimersKept p.1 x := by
  obtain ⟨hfit, hov, hask⟩ := hok
  refine ⟨hfit, hov, fun hio _ t ht => ?_⟩
  rcases step_cases hs with ⟨a, f, rest, r, rfl, -⟩ | ⟨k, a, cb, rest, r, rfl, hst, -⟩ |
    ⟨q, cb, rest, rfl, -⟩ | ⟨e, w', rfl, -⟩
  · cases hio
  · cases k with
    | ioRun =>
      have hcalls : callsTimersNext p.1 (.api .ioRun a) = true := by simp [callsTimersNext, hst]
      exact hinv.onTime (hask _ _ rfl hcalls) t ((hv.peek []).1 t ht).active
    | _ => cases hio
  · cases hio
  · cases hio

theorem PollInv.step (hinv : PollInv p) (hv : TimersValid p.1.world) (hok : NotAskedLate p x)
    (hs : timedStep p x = some p') : PollInv p' := by
  obtain ⟨hs, hlate⟩ := Machine.watch_eq hs
  refine ⟨hinv.due.step hv (hok.kept hinv hv hs) hs, fun hp' => ?_⟩
  rw [hlate, pollLate] at hp'
  split at hp'
  · -- a poll in time for the earliest timer is in time for all
    rename_i hpoll
    obtain ⟨htimer, hnow⟩ := isPoll_step hpoll hs
    have hroot : NoneOverdue { p.1.world with now := p.1.world.kernel.clock } := by
      refine TimersValid.noneOverdue (hv.congr rfl rfl) fun t ht => ?_
      have ht : heapPeek p.1.world.timers = some t := ht
      simp only [ht, decide_eq_false_iff_not, not_lt] at hp'
      exact hp'
    intro t
    rw [htimer, hnow]
    exact hroot t
  · rename_i hpoll
    split at hp'
    · rename_i hend
      exact (endsTimersRun_step hend hv hs).noneOverdue
    · exact (hinv.onTime hp').step hok.2.1 (by simpa using hpoll) hs

/-- The run that is watched is one that starts no timer too many. -/
theorem TimedRun.timersValid (r : TimedRun NotAskedLate p) : TimersValid p.1.world := by
  have r' : Run TimersFit p.1 := Machine.Reach.unwatch (fun _ h => h.1) (fun _ _ _ _ h _ => h.1) r
  exact r'.timersValid fun _ _ h => h

theorem TimedRun.pollInv (r : TimedRun NotAskedLate p) : PollInv p := by
  induction r with
  | init h =>
    have hdue := DueInv.init h.1
    refine ⟨hdue, fun _ => hdue.done ?_⟩
    obtain ⟨k, fd, -, -, he⟩ := h.1
    rw [he]
    rfl
  | step r hok hs ih => exact ih.step (TimedRun.timersValid r) hok hs

theorem timers_served {p : TimedCfg} (r : TimedRun NotAskedLate p) :
    TimersServed (NotAskedLate p) p.1 := by
  have hv := r.timersValid
  have hinv := r.pollInv
  constructor
  · intro a c' rest hst hs hst'
    exact endsTimersRun_step (by simp [endsTimersRun, hst, hst']) hv hs
  · intro x hok hx
    have hnone : NoneOverdue p.1.world := by
      unfold callsTimersNext at hx
      split at hx
      · exact hinv.onTime (hok.2.2 _ _ rfl (by simp [callsTimersNext, *]))
      · exact hinv.onTime (hok.2.2 _ _ rfl (by simp [callsTimersNext, *]))
      · rename_i a hst
        exact hinv.due.done (by simp [hst, timersDone])
      · cases hx
    exact ⟨hnone, hnone.nextExact hv hinv.due.bounded⟩

end

/-- One timer fires and is started again by its own callback, another is still to fire. -/
def twoTimers : List Act :=
  [.api (.timerStart 0 true 5) (.ok 0 []), .api (.timerStart 1 true 12) (.ok 0 []),
    .env (.tick 7), .api .ioRun (.ok 0 []), .lib (.ok 0 []), .lib (.ok 0 []),
    .api (.timerStart 0 true 3) (.ok 0 []), .ret none, .lib (.ok 0 []), .lib (.ok 0 []),
    .lib (.ok 0 []), .lib (.ok 0 [])]

theorem timers_served_two : ∃ p, TimedRun NotAskedLate p ∧ pdTimersNext p.1.world = 3 ∧
    callsTimersNext p.1 (.lib (.ok 0 [])) = true ∧ TimersServed (NotAskedLate p) p.1 := by
  have hplay : (Machine.play timedStep NotAskedLate (Cfg.start [], false) twoTimers).map (fun p =>
      (pdTimersNext p.1.world, callsTimersNext p.1 (.lib (.ok 0 [])))) = some (3, true) := by
    decide +kernel
  obtain ⟨p, hp, heq⟩ := Option.map_eq_some_iff.mp hplay
  obtain ⟨hnext, hcalls⟩ := Prod.mk.inj heq
  have r : TimedRun NotAskedLate p := Machine.Reach.play (.init ⟨Cfg.start_init [], rfl⟩) hp
  exact ⟨p, r, hnext, hcalls, timers_served r⟩

/-- A timer is overdue by 5 when `on_data` of a stream is called. -/
def lateCallback : List Act :=
  [.api (.tcpAccept 0 5) (.ok 0 []), .api (.setOnData 0 true) (.ok 0 []),
    .api (.timerStart 0 true 5) (.ok 0 []), .env (.tick 10), .env (.arrive 5 [1]),
    .api .ioRun (.ok 0 []), .lib (.ok 0 [(5, ⟨true, false, false, false, false⟩)]), .lib (.ok 0 []),
    .ret (some 0), .lib (.ok 0 []), .lib (.ok 6144 [])]

/-- A callback between a late poll and `pd_timers_run` that asks `pd_timers_next`, or runs a loop of
its own, gets the longest time there is for a timer that is overdue. -/
theorem late_callback_overdue : ∃ c, Run (fun c x => TimersFit c x ∧ NoOverflow c x) c ∧
    callsTimersNext c (.api .timersNext (.ok 0 [])) = true ∧
    callsTimersNext c (.api .ioRun (.ok 0 [])) = true ∧ ¬ NoneOverdue c.world ∧
    pdTimersNext c.world = INT_MAX := by
  have hplay : (Machine.play step (fun c x => TimersFit c x ∧ NoOverflow c x) (Cfg.start [5])
      lateCallback).map (fun c => (callsTimersNext c (.api .timersNext (.ok 0 [])),
        callsTimersNext c (.api .ioRun (.ok 0 [])), c.world.now, (c.world.timer 0).active,
        (c.world.timer 0).timeout, pdTimersNext c.world)) =
      some (true, true, 10, true, 5, (INT_MAX : Int)) := by
    decide +kernel
  obtain ⟨c, hc, heq⟩ := Option.map_eq_some_iff.mp hplay
  simp only [Prod.mk.injEq] at heq
  obtain ⟨hasks, hruns, hnow, hact, htime, hnext⟩ := heq
  refine ⟨c, Run.play (Cfg.start_init [5]) lateCallback hc, hasks, hruns, ?_, hnext⟩
  intro h
  have := h 0 hact
  omega

end Pandio
