import Mathlib

/- Stacks whose neighbours are in a relation, the upper one first. A step replaces the
   top by some items, or pushes items on it. -/
namespace Stack

variable {α : Type} {R : α → α → Prop} {i : α} {l rest : List α}

/-- The top is replaced: the last of the new items takes its place over the rest. -/
theorem chain_replace (h : (i :: rest).IsChain R) (hl : l.IsChain R)
    (hlast : ∀ k ∈ l.getLast?, ∀ j, R i j → R k j) : (l ++ rest).IsChain R := by
  rw [List.isChain_append]
  refine ⟨hl, h.tail, fun k hk j hj => hlast k hk j ?_⟩
  exact (List.isChain_cons.mp h).1 j hj

/-- Items are pushed on the top. -/
theorem chain_push (h : (i :: rest).IsChain R) (hl : l.IsChain R) (hlast : ∀ k ∈ l.getLast?, R k i) :
    (l ++ i :: rest).IsChain R := by
  rw [List.isChain_append]
  refine ⟨hl, h, fun k hk j hj => ?_⟩
  cases hj
  exact hlast k hk

/-- What neither part has on top is not on top of both. -/
theorem top_append (hl : l.head? ≠ some i) (hrest : rest.head? ≠ some i) :
    (l ++ rest).head? ≠ some i := by
  cases l with
  | nil => exact hrest
  | cons j l => exact hl

end Stack
