import Pandio.Lib.Past

/- A log of a counter's ups and downs. The log is a tally of `m` when it has `m` more ups
   than downs, and at every down there were more ups than downs before, so that the
   counter was not 0. -/

section
variable {α : Type} (up down : α → Bool)

/-- The counter is `m` after the log, and no down came at 0. -/
structure Tally (l : List α) (m : Nat) : Prop where
  count : l.countP up = l.countP down + m
  above : Past (fun past x => down x = true → past.countP down < past.countP up) l

namespace Tally

variable {up down} {l : List α} {x : α} {m : Nat}

theorem nil : Tally up down [] 0 := ⟨rfl, Past.nil⟩

/-- Entries that leave the counter alone. -/
theorem append (h : Tally up down l m) {k : List α} (hk : ∀ x ∈ k, up x = false ∧ down x = false) :
    Tally up down (l ++ k) m := by
  induction k generalizing l with
  | nil => simpa using h
  | cons y k ih =>
    rw [List.append_cons]
    obtain ⟨hu, hd⟩ := hk y (by simp)
    apply ih _ fun x hx => hk x (List.mem_cons_of_mem y hx)
    refine ⟨?_, h.above.snoc (by simp [hd])⟩
    simpa [List.countP_append, hu, hd] using h.count

theorem up_one (h : Tally up down l m) (hu : up x = true) (hd : down x = false) :
    Tally up down (l ++ [x]) (m + 1) := by
  refine ⟨?_, h.above.snoc (by simp [hd])⟩
  have := h.count
  simp only [List.countP_append, List.countP_singleton, hu, hd, ↓reduceIte, Bool.false_eq_true]
  omega

theorem down_one (h : Tally up down l (m + 1)) (hu : up x = false) (hd : down x = true) :
    Tally up down (l ++ [x]) m := by
  have := h.count
  refine ⟨?_, h.above.snoc fun _ => by omega⟩
  simp only [List.countP_append, List.countP_singleton, hu, hd, ↓reduceIte, Bool.false_eq_true]
  omega

/-- A tally is that of the entries of the kinds that count. -/
theorem of_filter {p : α → Bool}
    (h : Tally up down (l.filter p) m) (hp : ∀ x, up x = true ∨ down x = true → p x = true) :
    Tally up down l m := by
  have hu := countP_filter_of (q := up) fun x hx => hp x (.inl hx)
  have hd := countP_filter_of (q := down) fun x hx => hp x (.inr hx)
  refine ⟨by rw [← hu, ← hd]; exact h.count, ?_⟩
  refine h.above.of_filter.mono fun past x hx hdown => ?_
  rw [← hu, ← hd]
  exact hx (hp x (.inr hdown)) hdown

end Tally

end
