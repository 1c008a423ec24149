import Mathlib

/- Properties of a log that relate each entry to the entries before it, for a log
   that grows at its end; and what a fold over a log does not look at. -/

/-- Every entry of the log meets `P` with the entries before it. -/
def Past {α : Type} (P : List α → α → Prop) (l : List α) : Prop :=
  ∀ l1 x l2, l = l1 ++ x :: l2 → P l1 x

namespace Past

variable {α : Type} {P Q : List α → α → Prop} {l : List α}

theorem nil : Past P [] := by
  intro l1 x l2 h
  simp at h

theorem mono (h : ∀ l1 x, P l1 x → Q l1 x) (p : Past P l) : Past Q l :=
  fun l1 x l2 hl => h l1 x (p l1 x l2 hl)

/-- A log grows by one entry. -/
theorem snoc {x : α} (p : Past P l) (hx : P l x) : Past P (l ++ [x]) := by
  intro l1 y l2 h
  rcases List.append_eq_append_iff.mp h with ⟨m, rfl, hm⟩ | ⟨m, rfl, hm⟩
  · cases m with
    | nil =>
      cases hm
      simpa using hx
    | cons z m => simp at hm
  · cases m with
    | nil =>
      cases hm
      simpa using hx
    | cons z m =>
      rw [List.cons_append, List.cons.injEq] at hm
      obtain ⟨rfl, _⟩ := hm
      exact p l1 y m rfl

/-- A log grows by two entries. -/
theorem snoc₂ {x y : α} (p : Past P l) (hx : P l x) (hy : P (l ++ [x]) y) :
    Past P (l ++ [x, y]) := by
  have := (p.snoc hx).snoc hy
  simpa using this

/-- A log grows by any number of entries. -/
theorem append {m : List α} (p : Past P l) (hm : ∀ l1 x l2, m = l1 ++ x :: l2 → P (l ++ l1) x) :
    Past P (l ++ m) := by
  induction m generalizing l with
  | nil => rwa [List.append_nil]
  | cons x m ih =>
    rw [List.append_cons]
    refine ih (p.snoc ?_) fun l1 y l2 h => ?_
    · have := hm [] x m rfl
      rwa [List.append_nil] at this
    · rw [List.append_assoc]
      exact hm (x :: l1) y l2 (by rw [h]; rfl)

/-- A property of the entries of one kind, seen among those of that kind alone. -/
theorem of_filter {p : α → Bool} (h : Past P (l.filter p)) :
    Past (fun l1 x => p x = true → P (l1.filter p) x) l := by
  rintro l1 x l2 rfl hx
  exact h (l1.filter p) x (l2.filter p) (by simp [hx])

end Past

/-- A fold that passes over the entries of other kinds is a fold over those of one kind. -/
theorem foldl_filter_idle {α β : Type} {p : α → Bool} {f : β → α → β}
    (h : ∀ b x, p x = false → f b x = b) (b : β) (l : List α) :
    (l.filter p).foldl f b = l.foldl f b := by
  rw [List.foldl_filter]
  congr 1
  funext b x
  by_cases hx : p x = true
  · simp [hx]
  · simp [hx, h b x (by simpa using hx)]

/-- A fold over entries that change nothing. -/
theorem foldl_idle {α β : Type} {f : β → α → β} {b : β} {m : List α}
    (h : ∀ x ∈ m, f b x = b) : m.foldl f b = b := by
  induction m with
  | nil => rfl
  | cons x m ih =>
    rw [List.foldl_cons, h x (by simp)]
    exact ih fun y hy => h y (List.mem_cons_of_mem _ hy)

/-- Entries of a kind are counted among those of a wider kind. -/
theorem countP_filter_of {α : Type} {p q : α → Bool} (h : ∀ x, q x = true → p x = true)
    (l : List α) : (l.filter p).countP q = l.countP q := by
  rw [List.countP_filter]
  apply List.countP_congr
  intro x _
  by_cases hx : q x = true
  · simp [hx, h x hx]
  · simp [hx]
