import Pandio.Heap.History
import Pandio.Unix.TimerOrder

/- Which timers are in the heap. `pd_timer_stop` trusts the flag `active`: without it
   `heap_remove` would be applied to a node that is in no heap. What is shown here of
   every run that keeps the heap below 2^32 nodes is said in terms of the links that
   lead from the root, so it does not rest on the heap's own invariant. -/
namespace Pandio
open World

/-- The timer's node can be reached from the root. -/
def InHeap (w : World) (t : Tid) : Prop := ∃ p, follow w.timers p = some t

/-- The active timers are the nodes of the heap, each there once, and the heap's size is their
number. -/
structure HeapOfActive (w : World) (active : Finset Tid) : Prop where
  mem : ∀ t, t ∈ active ↔ (w.timer t).active = true
  reach : ∀ t, InHeap w t ↔ t ∈ active
  once : ∀ p q t, follow w.timers p = some t → follow w.timers q = some t → p = q
  size : w.timers.size = active.card

/-- The node that the step passes to `heap_remove`: `pd_timer_stop` gets there with an active timer
only, called by the application, or by `pd_timers_run` with a due root. -/
def heapRemoved (c : Cfg) (x : Act) : Option Tid :=
  match x, c.stack with
  | .api (.timerStop t) _, .app _ :: _ => if (c.world.timer t).active then some t else none
  | .lib _, .lib .timersRun :: _ =>
    match heapPeek c.world.timers with
    | none => none
    | some min =>
      if (c.world.timer min).timeout > c.world.now ∨ !(c.world.timer min).active then none
      else some min
  | _, _ => none

/-- The timers and the heap agree, and every step leaves the keys of the heap as they are, removes
from it only what is in it, and in `pd_timers_run` the root when it is due. -/
structure TimersAgree (ok : Cfg → Act → Prop) (c : Cfg) : Prop where
  members : ∃ active, HeapOfActive c.world active
  frozen : ∀ x c', ok c x → step c x = some c' → ∀ t, InHeap c.world t → InHeap c'.world t →
    (c'.world.timer t).timeout = (c.world.timer t).timeout
  removed : ∀ x c', ok c x → step c x = some c' → ∀ t ∈ heapRemoved c x,
    InHeap c.world t ∧ ∀ t', InHeap c'.world t' ↔ t' ≠ t ∧ InHeap c.world t'
  root : ∀ a rest min, c.stack = .lib .timersRun :: rest → heapPeek c.world.timers = some min →
    (c.world.timer min).timeout ≤ c.world.now → heapRemoved c (.lib a) = some min

section
variable {w : World}

/-- The heap of the active timers, in terms of its links. -/
theorem TimersValid.heapOfActive (hv : TimersValid w) : ∃ active, HeapOfActive w active := by
  obtain ⟨⟨a, ha, hmem⟩, -⟩ := hv
  have hfin : {t | ∃ i, a i = some t}.Finite := by
    refine (Set.finite_Icc 1 w.timers.size).image (fun i => (a i).getD 0) |>.subset ?_
    rintro t ⟨i, hi⟩
    exact ⟨i, ha.full.range hi, by simp [hi]⟩
  have hset : ∀ t, t ∈ hfin.toFinset ↔ ∃ i, a i = some t := fun t => by simp
  have heap := ha.isHeap hset
  refine ⟨hfin.toFinset, ?_, heap.reach, heap.once, heap.count.symm⟩
  intro t
  rw [hset, hmem]

theorem TimersValid.inHeap (hv : TimersValid w) (t : Tid) :
    InHeap w t ↔ (w.timer t).active = true := by
  obtain ⟨active, h⟩ := hv.heapOfActive
  rw [h.reach, h.mem]

end

section
variable {v v' : TimerView} {t t' : Tid} {P : Tid → Nat → Prop} {Q : Tid → Prop}

theorem TimerView.start_kept {cb : Bool} {d : Nat} (h : (v.timer t).active = true) :
    ((v.start t' cb d).timer t).timeout = (v.timer t).timeout := by
  by_cases ht : t = t'
  · subst ht
    simp [start, h]
  · rw [start_timer_ne ht]

/-- No step changes the deadline of an active timer. -/
theorem TimerMove.timeout_kept (m : TimerMove P Q v v') (h : (v.timer t).active = true) :
    (v'.timer t).timeout = (v.timer t).timeout := by
  cases m with
  | tick n => rfl
  | poll => rfl
  | start _ => exact TimerView.start_kept h
  | @repeating t' cb d _ =>
    have hi : ∀ v : TimerView, ((v.setInterval t' d).timer t).timeout = (v.timer t).timeout ∧
        ((v.setInterval t' d).timer t).active = (v.timer t).active := by
      intro v
      by_cases ht : t = t'
      · subst ht
        simp [TimerView.setInterval]
      · simp [TimerView.setInterval, ht]
    rw [TimerView.start_kept (by rw [(hi _).2]; exact h), (hi _).1]
    rfl
  | stop t' => exact TimerView.stop_timeout
  | fire _ _ => exact TimerView.stop_timeout
  | rearm _ _ _ _ => exact TimerView.start_kept h
  | once _ _ => rfl

end

/-! ## Runs -/

section
variable {c c' : Cfg} {x : Act} {t : Tid}

theorem step_timeout_kept (hv : TimersValid c.world) (hfit : TimersFit c x)
    (hs : step c x = some c') (h : (c.world.timer t).active = true) :
    (c'.world.timer t).timeout = (c.world.timer t).timeout := by
  rcases (step_timers hv hfit hs).2 with he | hm
  · exact congrArg (fun v => (v.timer t).timeout) he
  · exact hm.timeout_kept h

theorem step_removed (hs : step c x = some c') (ht : heapRemoved c x = some t) :
    (c.world.timer t).active = true ∧
    ∀ t', (c'.world.timer t').active = true ↔ t' ≠ t ∧ (c.world.timer t').active = true := by
  unfold heapRemoved at ht
  split at ht
  · rename_i t1 a cb rest hst
    split at ht <;> cases ht
    rename_i hact
    simp only [step, hst, api] at hs
    obtain ⟨r, hr, rfl⟩ := Option.map_eq_some_iff.mp hs
    obtain ⟨w', hw, rfl⟩ := Option.map_eq_some_iff.mp hr
    have hstop := pdTimerStop_active hw
    exact ⟨hact, hstop⟩
  · rename_i a rest hst
    split at ht
    · cases ht
    · rename_i min hpeek
      split at ht <;> cases ht
      rename_i hdue
      obtain ⟨hdue, hact⟩ := not_or.mp hdue
      have hact : (c.world.timer t).active = true := by simpa using hact
      simp only [step, hst, exec, pdTimersRun, hpeek, if_neg hdue] at hs
      obtain ⟨r, hr, rfl⟩ := Option.map_eq_some_iff.mp hs
      obtain ⟨w', hw, hr⟩ := Option.bind_eq_some_iff.mp hr
      have hstop := pdTimerStop_active hw
      split at hr <;> cases hr <;> exact ⟨hact, hstop⟩
  · cases ht

end

/-- **The flag `active` and the heap agree** in every run that starts no timer while 2^32 - 1 are
active. -/
theorem timers_agree {c : Cfg} (r : Run TimersFit c) : TimersAgree TimersFit c := by
  have hv := Run.timersValid (fun c x hx => hx) r
  refine ⟨hv.heapOfActive, ?_, ?_, ?_⟩
  · intro x c' hfit hs t hin _
    exact step_timeout_kept hv hfit hs ((hv.inHeap t).mp hin)
  · intro x c' hfit hs t ht
    have hv' := (step_timers hv hfit hs).1
    obtain ⟨hact, hrest⟩ := step_removed hs ht
    refine ⟨(hv.inHeap t).mpr hact, fun t' => ?_⟩
    rw [hv'.inHeap, hv.inHeap, hrest]
  · intro a rest min hst hpeek hdue
    have hact := ((hv.peek []).1 min hpeek).active
    have hact' : (c.world.timer min).active = true := hact
    simp [heapRemoved, hst, hpeek, hact', hdue]

/-- Two timers, of which the one that is due stops the other and starts itself again in its
callback. -/
theorem timers_agree_callback : ∃ c, Run TimersFit c ∧ (c.world.timer 0).timeout = 12 ∧
    (c.world.timer 0).active = true ∧ (c.world.timer 1).active = false ∧
    TimersAgree TimersFit c := by
  have r : Run TimersFit _ := Run.play (Cfg.start_init [])
    [.api (.timerStart 0 true 5) (.ok 0 []), .api (.timerStart 1 true 6) (.ok 0 []),
      .env (.tick 7), .api .ioRun (.ok 0 []), .lib (.ok 0 []), .lib (.ok 0 []),
      .api (.timerStop 1) (.ok 0 []), .api (.timerStart 0 true 5) (.ok 0 []), .ret none] rfl
  exact ⟨_, r, rfl, rfl, rfl, timers_agree r⟩

end Pandio
