import Mathlib.Data.List.Perm.Basic
import Pandio.Heap.History

/- Emptying a heap with `heap_pop`. Whatever was inserted and removed before, the nodes come out
   once each and in the order of their keys. Popping `n` times gives the `n` smallest, and leaves
   a heap of the others. -/
namespace Pandio

section
variable {ν : Type} [DecidableEq ν] (cmp : ν → ν → Int)

/-- `heap_pop`, `n` times or until it returns NULL, with the nodes it returned. -/
def heapDrain : (n : Nat) → Heap ν → Option (Heap ν × List ν)
  | 0, h => some (h, [])
  | n + 1, h =>
    match heapPop cmp h with
    | some (h', some x) => (heapDrain n h').map fun r => (r.1, x :: r.2)
    | some (h', none) => some (h', [])
    | none => none

end

section
variable {ν κ : Type} [LinearOrder κ] [DecidableEq ν] {key : ν → κ} {h h' : Heap ν}
  {members : Finset ν} {l : List ν}

/-- One `heap_pop` of a heap that has a node. -/
theorem HeapHistory.popMin (H : HeapHistory key h members) (hne : members ≠ ∅) :
    ∃ x h', heapPop (keyComparator key) h = some (h', some x) ∧ x ∈ members ∧
      (∀ y ∈ members, key x ≤ key y) ∧ HeapHistory key h' (members.erase x) := by
  obtain ⟨a, v, hm, hsz⟩ := H.valid
  have heap := v.isHeap hm
  rcases heapPop_valid (fun _ _ => rfl) v (by omega) with ⟨hpeek, _⟩ | ⟨x, h', _, hpeek, hpop, _⟩
  · exact absurd (heap.peek_none.mp hpeek) hne
  · obtain ⟨hx, hmin⟩ := heap.peek_min x hpeek
    exact ⟨x, h', hpop, hx, hmin, H.pop hpop⟩

/-- One `heap_pop` of an empty heap. -/
theorem HeapHistory.popNone (H : HeapHistory key h ∅) :
    heapPop (keyComparator key) h = some (h, none) := by
  obtain ⟨a, v, hm, hsz⟩ := H.valid
  rcases heapPop_valid (fun _ _ => rfl) v (by omega) with ⟨_, hpop⟩ | ⟨x, _, _, hpeek, _⟩
  · exact hpop
  · exact absurd ((v.isHeap hm).peek_min x hpeek).1 (Finset.notMem_empty x)

/-- The list is the beginning of `members` in the order of the keys. -/
structure Smallest (key : ν → κ) (members : Finset ν) (l : List ν) : Prop where
  nodup : l.Nodup
  mem : ∀ x ∈ l, x ∈ members
  sorted : l.Pairwise fun x y => key x ≤ key y
  le : ∀ x ∈ l, ∀ y ∈ members, y ∉ l → key x ≤ key y

omit [DecidableEq ν] in
theorem Smallest.nil : Smallest key members [] where
  nodup := List.nodup_nil
  mem := fun _ hx => absurd hx List.not_mem_nil
  sorted := .nil
  le := fun _ hx => absurd hx List.not_mem_nil

/-- A node of smallest key comes before the smallest of the others. -/
theorem Smallest.cons {x : ν} (hx : x ∈ members) (hmin : ∀ y ∈ members, key x ≤ key y)
    (hl : Smallest key (members.erase x) l) : Smallest key members (x :: l) where
  nodup := List.nodup_cons.mpr ⟨fun h => Finset.notMem_erase x members (hl.mem x h), hl.nodup⟩
  mem := by
    intro y hy
    rcases List.mem_cons.mp hy with rfl | hy
    · exact hx
    · exact Finset.mem_of_mem_erase (hl.mem y hy)
  sorted := .cons (fun y hy => hmin y (Finset.mem_of_mem_erase (hl.mem y hy))) hl.sorted
  le := by
    intro y hy z hz hnot
    rw [List.mem_cons, not_or] at hnot
    rcases List.mem_cons.mp hy with rfl | hy
    · exact hmin z hz
    · exact hl.le y hy z (Finset.mem_erase.mpr ⟨hnot.1, hz⟩) hnot.2

/-- **Heap sort.** After any history, `n` calls of `heap_pop` return the `n` nodes of smallest keys,
each once and in the order of their keys, or all nodes when there are fewer; the others stay. -/
theorem heap_drains (n : Nat) (H : HeapHistory key h members) :
    ∃ h' l, heapDrain (keyComparator key) n h = some (h', l) ∧ l.length = min n members.card ∧
      Smallest key members l ∧ HeapHistory key h' (members \ l.toFinset) := by
  induction n generalizing h members with
  | zero => exact ⟨h, [], rfl, by simp, .nil, by simpa using H⟩
  | succ n ih =>
    by_cases hne : members = ∅
    · subst hne
      exact ⟨h, [], by rw [heapDrain, H.popNone], by simp, .nil, by simpa using H⟩
    · obtain ⟨x, h1, hpop, hx, hmin, H1⟩ := H.popMin hne
      obtain ⟨h', l, hdrain, hlen, hl, H'⟩ := ih H1
      have hcard : (members.erase x).card + 1 = members.card := Finset.card_erase_add_one hx
      refine ⟨h', x :: l, by rw [heapDrain, hpop]; simp [hdrain], ?_, hl.cons hx hmin, ?_⟩
      · rw [List.length_cons, hlen]
        omega
      · rw [List.toFinset_cons, Finset.sdiff_insert, ← Finset.erase_sdiff_comm]
        exact H'

/-- Three nodes come out in the order of their keys. -/
theorem heap_drains_three : ∃ (h h' : Heap Nat) (l : List Nat),
    HeapHistory (fun x : Nat => x) h {0, 2, 1} ∧
    heapDrain (keyComparator fun x : Nat => x) 3 h = some (h', l) ∧ l = [0, 1, 2] ∧
    Smallest (fun x : Nat => x) {0, 2, 1} l := by
  have H0 : HeapHistory (fun x : Nat => x) _ _ := .init fun _ => ⟨none, none, none⟩
  have H1 := H0.insert (x := 1) (by decide) (by decide) rfl
  have H2 := H1.insert (x := 2) (by decide) (by decide) rfl
  have H3 := H2.insert (x := 0) (by decide) (by decide) rfl
  obtain ⟨h', l, hdrain, _, hl, _⟩ := heap_drains 3 H3
  have hsorted : some l = some [0, 1, 2] := (congrArg (·.map Prod.snd) hdrain).symm
  exact ⟨_, h', l, H3, hdrain, Option.some.inj hsorted, hl⟩

end

end Pandio
