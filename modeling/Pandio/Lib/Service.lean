import Mathlib
import Pandio.Lib.Reach

/- A service that works on tasks and hands them back: what is submitted is in the service until it
   is finished, in any order, and all finished tasks are fetched at once, in the order in which
   they were finished; then they may be submitted again. A trace is what a client sees of it, the
   submissions and the fetches; which tasks are finished and when is the service's own affair.

   A machine whose every step shows some of these events implements the service if its states
   stand for states of the service and each step for steps of it with the same events. -/
namespace Service

/-- What the client sees. -/
inductive Event (κ : Type) where
  | submitted (k : κ)
  | fetched (l : List κ)

structure State (κ : Type) where
  pool : Multiset κ
  finished : List κ

variable {κ : Type}

/-- A step, with what is seen of it. What the service has is not submitted again. -/
inductive Step : State κ → List (Event κ) → State κ → Prop where
  | submit {p : Multiset κ} {f : List κ} {k : κ} :
      k ∉ p → k ∉ f → Step ⟨p, f⟩ [.submitted k] ⟨k ::ₘ p, f⟩
  | finish {p : Multiset κ} {f : List κ} (k : κ) : Step ⟨k ::ₘ p, f⟩ [] ⟨p, f ++ [k]⟩
  | fetch {p : Multiset κ} {f : List κ} : f ≠ [] → Step ⟨p, f⟩ [.fetched f] ⟨p, []⟩

/-- The traces of the service, from its beginning. -/
inductive Trace : List (Event κ) → State κ → Prop where
  | nil : Trace [] ⟨0, []⟩
  | step {t e : List (Event κ)} {v v' : State κ} : Trace t v → Step v e v' → Trace (t ++ e) v'

/-! ## What a trace says -/

/-- The tasks that were submitted. -/
def submitted : List (Event κ) → Multiset κ
  | [] => 0
  | .submitted k :: t => k ::ₘ submitted t
  | .fetched _ :: t => submitted t

/-- The tasks that were fetched. -/
def fetched : List (Event κ) → List κ
  | [] => []
  | .submitted _ :: t => fetched t
  | .fetched l :: t => l ++ fetched t

theorem submitted_append (t u : List (Event κ)) :
    submitted (t ++ u) = submitted t + submitted u := by
  induction t with
  | nil => simp [submitted]
  | cons e t ih => cases e <;> simp [submitted, ih]

theorem fetched_append (t u : List (Event κ)) : fetched (t ++ u) = fetched t ++ fetched u := by
  induction t with
  | nil => rfl
  | cons e t ih => cases e <;> simp [fetched, ih]

/-- **Conservation.** What was submitted was fetched, or waits to be, or is in the service; so each
submission is fetched once at most, and nothing else is. -/
theorem Trace.account {t : List (Event κ)} {v : State κ} (h : Trace t v) :
    submitted t = fetched t + v.finished + v.pool := by
  induction h with
  | nil => simp [submitted, fetched]
  | step _ hs ih =>
    rw [submitted_append, fetched_append, ih]
    cases hs with
    | submit hp hf =>
      simp only [submitted, fetched, List.append_nil, ← Multiset.singleton_add]
      abel
    | finish k =>
      simp only [submitted, fetched, List.append_nil, ← Multiset.coe_add, ← Multiset.singleton_add k,
        Multiset.coe_singleton]
      abel
    | fetch _ => simp [submitted, fetched]

/-! ## Machines that implement the service -/

section
variable {σ α : Type} (next : σ → α → Option σ) (ok : σ → α → Prop) (init : σ → Prop)
  (shows : σ → α → List (Event κ))

/-- The runs of a machine, with what each step shows. -/
inductive Shows : List (Event κ) → σ → Prop where
  | init {s : σ} : init s → Shows [] s
  | step {t : List (Event κ)} {s s' : σ} {a : α} : Shows t s → ok s a → next s a = some s' →
      Shows (t ++ shows s a) s'

variable {next ok init shows} {t : List (Event κ)} {s : σ}

theorem Shows.reach (h : Shows next ok init shows t s) : Machine.Reach next ok init s := by
  induction h with
  | init h => exact .init h
  | step _ hok hs ih => exact ih.step hok hs

variable (next ok shows) in
/-- The state after a list of actions that all meet `ok`, with what they show. -/
def play [∀ s a, Decidable (ok s a)] : σ → List α → Option (List (Event κ) × σ)
  | s, [] => some ([], s)
  | s, a :: rest =>
    if ok s a then
      (next s a).bind fun s' => (play s' rest).map fun r => (shows s a ++ r.1, r.2)
    else none

/-- Playing a list of actions stays within the runs. -/
theorem Shows.play [∀ s a, Decidable (ok s a)] {e : List (Event κ)} {s' : σ} {l : List α}
    (h : Shows next ok init shows t s) (hp : play next ok shows s l = some (e, s')) :
    Shows next ok init shows (t ++ e) s' := by
  induction l generalizing t s e with
  | nil =>
    cases hp
    rwa [List.append_nil]
  | cons a rest ih =>
    rw [Service.play] at hp
    split at hp
    · rename_i hok
      obtain ⟨s1, ha, hp⟩ := Option.bind_eq_some_iff.mp hp
      obtain ⟨r, hr, he⟩ := Option.map_eq_some_iff.mp hp
      cases he
      rw [← List.append_assoc]
      exact ih (h.step hok ha) hr
    · cases hp

/-- **Refinement.** If every state stands for one of the service, and every step for a step of it
that shows the same, or for none and shows nothing, then what a run shows is a trace. -/
theorem Shows.trace {f : σ → State κ} (hinit : ∀ s, init s → f s = ⟨0, []⟩)
    (hstep : ∀ s a s', Machine.Reach next ok init s → ok s a → next s a = some s' →
      Step (f s) (shows s a) (f s') ∨ shows s a = [] ∧ f s' = f s)
    (h : Shows next ok init shows t s) : Trace t (f s) := by
  induction h with
  | init h => exact hinit _ h ▸ .nil
  | step h hok hs ih =>
    rcases hstep _ _ _ h.reach hok hs with hv | ⟨he, hv⟩
    · exact ih.step hv
    · rw [he, hv, List.append_nil]
      exact ih

end

end Service
