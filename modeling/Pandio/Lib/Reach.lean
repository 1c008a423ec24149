import Mathlib

/- Runs of a machine whose steps are chosen by its surroundings. `step` computes
   the next state from an action, or refuses it; `ok` is the condition under which
   a run takes a step, so that claims about the runs that keep to a contract and
   about all runs (`ok` always true) are of one kind. -/
namespace Machine

variable {σ α : Type} (step : σ → α → Option σ) (ok : σ → α → Prop) (init : σ → Prop)

/-- The states of the runs whose every step meets `ok`. -/
inductive Reach : σ → Prop where
  | init {s : σ} : init s → Reach s
  | step {s s' : σ} {a : α} : Reach s → ok s a → step s a = some s' → Reach s'

variable {step ok init}

/-- What holds initially and is kept by every step holds in every state reached. -/
theorem Reach.invariant {P : σ → Prop} (hinit : ∀ s, init s → P s)
    (hstep : ∀ s a s', Reach step ok init s → P s → ok s a → step s a = some s' → P s')
    {s : σ} (r : Reach step ok init s) : P s := by
  induction r with
  | init h => exact hinit _ h
  | step r hok hs ih => exact hstep _ _ _ r ih hok hs

/-- Runs under a stronger condition are runs under a weaker one. -/
theorem Reach.mono {ok' : σ → α → Prop} (h : ∀ s a, ok s a → ok' s a) {s : σ}
    (r : Reach step ok init s) : Reach step ok' init s := by
  induction r with
  | init h => exact .init h
  | step _ hok hs ih => exact .step ih (h _ _ hok) hs

/-- Runs from a state that is reached are runs. -/
theorem Reach.trans {s s' : σ} (r : Reach step ok init s) (h : Reach step ok (· = s) s') :
    Reach step ok init s' := by
  induction h with
  | init h => exact h ▸ r
  | step _ hok hs ih => exact .step ih hok hs

/-- A map that takes every step to a step takes runs to runs. -/
theorem Reach.map {τ β : Type} {step' : τ → β → Option τ} {ok' : τ → β → Prop} {init' : τ → Prop}
    (f : σ → τ) (g : σ → α → β) (hinit : ∀ s, init s → init' (f s))
    (hok : ∀ s a, ok s a → ok' (f s) (g s a))
    (hstep : ∀ s a s', step s a = some s' → step' (f s) (g s a) = some (f s')) {s : σ}
    (r : Reach step ok init s) : Reach step' ok' init' (f s) := by
  induction r with
  | init h => exact .init (hinit _ h)
  | step _ hs ha ih => exact ih.step (hok _ _ hs) (hstep _ _ _ ha)

variable (step ok) in
/-- The state after a list of actions that all meet `ok`. -/
def play [∀ s a, Decidable (ok s a)] : σ → List α → Option σ
  | s, [] => some s
  | s, a :: rest => if ok s a then (step s a).bind (play · rest) else none

/-- Playing a list of actions stays within the runs. -/
theorem Reach.play [∀ s a, Decidable (ok s a)] {s s' : σ} {l : List α} (r : Reach step ok init s)
    (h : play step ok s l = some s') : Reach step ok init s' := by
  induction l generalizing s with
  | nil =>
    cases h
    exact r
  | cons a rest ih =>
    rw [Machine.play] at h
    split at h
    · rename_i hok
      obtain ⟨t, ha, h⟩ := Option.bind_eq_some_iff.mp h
      exact ih (r.step hok ha) h
    · cases h

/-! ## Watched runs -/

section
variable {μ : Type} {note : σ → μ → α → σ → μ} {watched : σ × μ → α → Prop}
  {start : σ × μ → Prop}

/-- A step of a machine that is watched: `note` says what is known after it, from what was known
before. A condition on the steps may depend on it. -/
def watch (step : σ → α → Option σ) (note : σ → μ → α → σ → μ) (p : σ × μ) (a : α) :
    Option (σ × μ) :=
  (step p.1 a).map fun s' => (s', note p.1 p.2 a s')

theorem watch_eq {p p' : σ × μ} {a : α} (h : watch step note p a = some p') :
    step p.1 a = some p'.1 ∧ p'.2 = note p.1 p.2 a p'.1 := by
  obtain ⟨s', hs, rfl⟩ := Option.map_eq_some_iff.mp h
  exact ⟨hs, rfl⟩

/-- The run that is watched. -/
theorem Reach.unwatch (hinit : ∀ p, start p → init p.1)
    (hok : ∀ p a s', Reach (watch step note) watched start p → watched p a →
      step p.1 a = some s' → ok p.1 a)
    {p : σ × μ} (r : Reach (watch step note) watched start p) : Reach step ok init p.1 := by
  induction r with
  | init h => exact .init (hinit _ h)
  | step r ha hs ih =>
    obtain ⟨hs, -⟩ := watch_eq hs
    exact ih.step (hok _ _ _ r ha hs) hs

end

end Machine
