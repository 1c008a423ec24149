import Pandio.Heap.Model
import Pandio.Lib.LevelOrder

/- How the links of a heap lay out a tree, and what `heap_swap` does to it.
   `Layout h a` says that the links of `h` are those of the tree `a`: the node at
   position `i` points to the nodes at `2*i`, `2*i + 1` and `i / 2`. -/
namespace Pandio
open LevelOrder

variable {ν : Type}

/-- The links of `h` are those of the tree `a`. -/
structure Layout (h : Heap ν) (a : Nat → Option ν) : Prop extends IsTree a where
  root : h.root = a 1
  left : ∀ {i x}, a i = some x → (h.mem x).left = a (2 * i)
  right : ∀ {i x}, a i = some x → (h.mem x).right = a (2 * i + 1)
  parent : ∀ {i x}, a i = some x → (h.mem x).parent = a (i / 2)

/-- The layout does not depend on the size field. -/
theorem Layout.resize {h : Heap ν} {a : Nat → Option ν} (l : Layout h a) (n : Nat) :
    Layout (h.setSize n) a := { l with }

variable [DecidableEq ν]

section
variable {h : Heap ν} {c p : ν} (hcp : c ≠ p) (hgc : (h.mem p).parent ≠ some c)
  (hgp : (h.mem p).parent ≠ some p)
include hcp hgc hgp

/-! The links after `heap_swap`, for distinct nodes of which neither is the grandparent. -/

theorem heapSwap_left (y : ν) : ((heapSwap h c p).mem y).left =
    if y = c then (if (h.mem p).left = some c then some p else (h.mem p).left)
    else if y = p then (h.mem c).left
    else if (h.mem p).parent = some y ∧ (h.mem y).left = some p then some c
    else (h.mem y).left := by
  simp [heapSwap, hcp, hgc, hgp]

theorem heapSwap_right (y : ν) : ((heapSwap h c p).mem y).right =
    if y = c then (if (h.mem p).right = some c then some p else (h.mem p).right)
    else if y = p then (h.mem c).right
    else if (h.mem p).parent = some y ∧ (h.mem y).left ≠ some p then some c
    else (h.mem y).right := by
  simp [heapSwap, hcp, hgc, hgp]

theorem heapSwap_parent (y : ν) : ((heapSwap h c p).mem y).parent =
    if y = c then (h.mem p).parent
    else if y = p then some c
    else if (h.mem c).right = some y then some p
    else if (h.mem c).left = some y then some p
    else if (h.mem p).right = some y then some c
    else if (h.mem p).left = some y then some c
    else (h.mem y).parent := by
  simp [heapSwap, hcp, hgc, hgp]

end

theorem heapSwap_root (h : Heap ν) (c p : ν) : (heapSwap h c p).root =
    if (h.mem p).parent = none then some c else h.root := by
  simp [heapSwap]

@[simp] theorem heapSwap_size (h : Heap ν) (c p : ν) : (heapSwap h c p).size = h.size := by
  simp [heapSwap]

/-- **`heap_swap` exchanges a child with its parent.** The links stay those of a tree, of the
same shape, in which exactly the two nodes have changed places. -/
theorem Layout.swap {h : Heap ν} {a : Nat → Option ν} (l : Layout h a) {i : Nat} {c p : ν}
    (hi : 2 ≤ i) (hc : a i = some c) (hp : a (i / 2) = some p) :
    Layout (heapSwap h c p) (swapAt a i (i / 2)) := by
  have hcp : c ≠ p := by
    rintro rfl
    have := l.inj hc hp
    omega
  have hgc : (h.mem p).parent ≠ some c := by
    rw [l.parent hp]
    intro hg
    have := l.inj hc hg
    omega
  have hgp : (h.mem p).parent ≠ some p := by
    rw [l.parent hp]
    intro hg
    have := l.inj hp hg
    omega
  -- a node that is neither of the two keeps its position
  have other : ∀ {j x}, swapAt a i (i / 2) j = some x → j ≠ i → j ≠ i / 2 →
      a j = some x ∧ x ≠ c ∧ x ≠ p := by
    intro j x hx h1 h2
    rw [swapAt_other a h1 h2] at hx
    refine ⟨hx, ?_, ?_⟩
    · rintro rfl; exact h1 (l.inj hx hc)
    · rintro rfl; exact h2 (l.inj hx hp)
  have tree := l.toIsTree.swapAt (i := i) (j := i / 2) (by rw [hc]; simp) (by rw [hp]; simp)
  refine { toIsTree := tree, root := ?_, left := ?_, right := ?_, parent := ?_ }
  · rw [heapSwap_root, l.parent hp, l.root]
    -- a parent at the root hands it on to the child
    by_cases h1 : i / 2 = 1
    · rw [h1, l.zero, ← h1, swapAt_right, hc]; simp
    · obtain ⟨g, hg⟩ := Option.ne_none_iff_exists'.mp (l.up (i := i / 2) (by omega) (by rw [hp]; simp))
      rw [hg, swapAt_other a (by omega) (by omega)]; simp
  · intro j x hx
    rw [heapSwap_left hcp hgc hgp]
    by_cases hji : j = i
    · subst hji
      rw [swapAt_left, hp] at hx; cases hx
      rw [if_neg (Ne.symm hcp), if_pos rfl, l.left hc, swapAt_other a (by omega) (by omega)]
    · by_cases hjp : j = i / 2
      · rw [hjp, swapAt_right, hc] at hx; cases hx
        rw [if_pos rfl, l.left hp, hjp]
        -- `c` is the left child of `p`, or has its sibling there
        by_cases he : 2 * (i / 2) = i
        · rw [he, hc, if_pos rfl, swapAt_left, hp]
        · rw [swapAt_other a he (by omega), if_neg]
          intro hx
          exact he (l.inj hx hc)
      · obtain ⟨hx', hxc, hxp⟩ := other hx hji hjp
        rw [if_neg hxc, if_neg hxp, l.parent hp, l.left hx']
        by_cases he : 2 * j = i / 2
        · have : j = i / 2 / 2 := by omega
          subst this
          rw [if_pos ⟨hx', by rw [he, hp]⟩, he, swapAt_right, hc]
        · rw [swapAt_other a (by omega) he, if_neg]
          rintro ⟨_, h2⟩
          exact he (l.inj h2 hp)
  · intro j x hx
    rw [heapSwap_right hcp hgc hgp]
    by_cases hji : j = i
    · subst hji
      rw [swapAt_left, hp] at hx; cases hx
      rw [if_neg (Ne.symm hcp), if_pos rfl, l.right hc, swapAt_other a (by omega) (by omega)]
    · by_cases hjp : j = i / 2
      · rw [hjp, swapAt_right, hc] at hx; cases hx
        rw [if_pos rfl, l.right hp, hjp]
        -- `c` is the right child of `p`, or has its sibling there
        by_cases he : 2 * (i / 2) + 1 = i
        · rw [he, hc, if_pos rfl, swapAt_left, hp]
        · rw [swapAt_other a he (by omega), if_neg]
          intro hx
          exact he (l.inj hx hc)
      · obtain ⟨hx', hxc, hxp⟩ := other hx hji hjp
        rw [if_neg hxc, if_neg hxp, l.parent hp, l.left hx', l.right hx']
        by_cases he : 2 * j + 1 = i / 2
        · have : j = i / 2 / 2 := by omega
          subst this
          rw [if_pos ⟨hx', fun h2 => by have := l.inj h2 hp; omega⟩, he, swapAt_right, hc]
        · rw [swapAt_other a (by omega) he, if_neg]
          rintro ⟨h1, h2⟩
          -- the grandparent's other child would be `p` as well
          have hj := l.inj hx' h1
          exact h2 (by rw [show 2 * j = i / 2 by omega, hp])
  · intro j x hx
    rw [heapSwap_parent hcp hgc hgp]
    by_cases hji : j = i
    · subst hji
      rw [swapAt_left, hp] at hx; cases hx
      rw [if_neg (Ne.symm hcp), if_pos rfl, swapAt_right, hc]
    · by_cases hjp : j = i / 2
      · rw [hjp, swapAt_right, hc] at hx; cases hx
        rw [if_pos rfl, l.parent hp, hjp, swapAt_other a (by omega) (by omega)]
      · obtain ⟨hx', hxc, hxp⟩ := other hx hji hjp
        rw [if_neg hxc, if_neg hxp, l.right hc, l.left hc, l.right hp, l.left hp, l.parent hx']
        -- a child of `c`, a child of `p`, or neither
        by_cases h1 : j / 2 = i
        · rw [h1, swapAt_left, hp]
          rcases (show j = 2 * i + 1 ∨ j = 2 * i by omega) with h2 | h2
          · rw [← h2, if_pos hx']
          · rw [← h2, if_pos hx']; split <;> rfl
        · have n1 : a (2 * i + 1) ≠ some x := fun h2 => by have := l.inj hx' h2; omega
          have n2 : a (2 * i) ≠ some x := fun h2 => by have := l.inj hx' h2; omega
          rw [if_neg n1, if_neg n2]
          by_cases h3 : j / 2 = i / 2
          · rw [h3, swapAt_right, hc]
            rcases (show j = 2 * (i / 2) + 1 ∨ j = 2 * (i / 2) by omega) with h2 | h2
            · rw [← h2, if_pos hx']
            · rw [← h2, if_pos hx']; split <;> rfl
          · have n3 : a (2 * (i / 2) + 1) ≠ some x := fun h2 => by have := l.inj hx' h2; omega
            have n4 : a (2 * (i / 2)) ≠ some x := fun h2 => by have := l.inj hx' h2; omega
            rw [if_neg n3, if_neg n4, swapAt_other a h1 h3]

/-! ## Leaves and renaming -/

section
variable (h : Heap ν) {last x : ν}

@[simp] theorem heapAttach_size : (heapAttach h last x).size = h.size + 1 := by
  simp only [heapAttach]; split <;> rfl

theorem heapAttach_root : (heapAttach h last x).root = h.root := by
  simp only [heapAttach]; split <;> rfl

theorem heapAttach_left (hx : last ≠ x) (y : ν) : ((heapAttach h last x).mem y).left =
    if y = x then none else if y = last ∧ (h.mem y).left = none then some x
    else (h.mem y).left := by
  by_cases hl : (h.mem last).left = none <;> by_cases hy : y = last
  · subst hy; simp [heapAttach, hl]
  · simp [heapAttach, hl, hy]
  · subst hy; simp [heapAttach, hl]
  · simp [heapAttach, hl, hy]

theorem heapAttach_right (hx : last ≠ x) (y : ν) : ((heapAttach h last x).mem y).right =
    if y = x then none else if y = last ∧ (h.mem y).left ≠ none then some x
    else (h.mem y).right := by
  by_cases hl : (h.mem last).left = none <;> by_cases hy : y = last
  · subst hy; simp [heapAttach, hl]
  · simp [heapAttach, hl, hy]
  · subst hy; simp [heapAttach, hl]
  · simp [heapAttach, hl, hy]

theorem heapAttach_parent (y : ν) : ((heapAttach h last x).mem y).parent =
    if y = x then some last else (h.mem y).parent := by
  by_cases hl : (h.mem last).left = none <;> simp [heapAttach, hl]

end

/-- A new node hung under the parent of a free position becomes the leaf there, when the code's
test of the left child picks that position. -/
theorem Layout.attach {h : Heap ν} {a : Nat → Option ν} (l : Layout h a) {k : Nat} {last x : ν}
    (hk : 2 ≤ k) (hq : a (k / 2) = some last) (hside : a (2 * (k / 2)) = none ↔ k = 2 * (k / 2))
    (hleaf : a (2 * k) = none ∧ a (2 * k + 1) = none) (hx : ∀ i, a i ≠ some x) :
    Layout (heapAttach h last x) (Function.update a k (some x)) := by
  have hne : last ≠ x := by rintro rfl; exact hx _ hq
  have tree := l.toIsTree.put (k := k) (by omega) (fun _ => by rw [hq]; simp) hx
  have old : ∀ {i y}, i ≠ k → Function.update a k (some x) i = some y → a i = some y ∧ y ≠ x := by
    intro i y hik hy
    rw [Function.update_of_ne hik] at hy
    exact ⟨hy, by rintro rfl; exact hx _ hy⟩
  refine { toIsTree := tree, root := ?_, left := ?_, right := ?_, parent := ?_ }
  · rw [heapAttach_root, l.root, Function.update_of_ne (by omega)]
  · intro i y hy
    rw [heapAttach_left h hne]
    by_cases hik : i = k
    · subst hik
      rw [Function.update_self] at hy; cases hy
      rw [if_pos rfl, Function.update_of_ne (by omega), hleaf.1]
    · obtain ⟨hy', hyx⟩ := old hik hy
      rw [if_neg hyx, l.left hy']
      by_cases h2 : 2 * i = k
      · have hi : i = k / 2 := by omega
        subst hi
        rw [hq] at hy'; cases hy'
        rw [if_pos ⟨rfl, hside.mpr h2.symm⟩, h2, Function.update_self]
      · rw [Function.update_of_ne h2, if_neg]
        rintro ⟨rfl, h3⟩
        have := l.inj hy' hq
        subst this
        exact h2 (hside.mp h3).symm
  · intro i y hy
    rw [heapAttach_right h hne]
    by_cases hik : i = k
    · subst hik
      rw [Function.update_self] at hy; cases hy
      rw [if_pos rfl, Function.update_of_ne (by omega), hleaf.2]
    · obtain ⟨hy', hyx⟩ := old hik hy
      rw [if_neg hyx, l.left hy', l.right hy']
      by_cases h2 : 2 * i + 1 = k
      · have hi : i = k / 2 := by omega
        subst hi
        rw [hq] at hy'; cases hy'
        rw [if_pos ⟨rfl, fun h3 => by have := hside.mp h3; omega⟩, h2, Function.update_self]
      · rw [Function.update_of_ne h2, if_neg]
        rintro ⟨rfl, h3⟩
        have := l.inj hy' hq
        subst this
        exact h3 (hside.mpr (by omega))
  · intro i y hy
    rw [heapAttach_parent]
    by_cases hik : i = k
    · subst hik
      rw [Function.update_self] at hy; cases hy
      rw [if_pos rfl, Function.update_of_ne (by omega), hq]
    · obtain ⟨hy', hyx⟩ := old hik hy
      have h2 : i / 2 ≠ k := by
        intro h2
        rcases (show i = 2 * k ∨ i = 2 * k + 1 by omega) with rfl | rfl
        · rw [hleaf.1] at hy'; cases hy'
        · rw [hleaf.2] at hy'; cases hy'
      rw [if_neg hyx, l.parent hy', Function.update_of_ne h2]

/-- Unlinking a leaf removes its position. -/
theorem Layout.unlink {h : Heap ν} {a : Nat → Option ν} (l : Layout h a) {n : Nat} {last : ν}
    (hn : 2 ≤ n) (hlast : a n = some last) (hleaf : a (2 * n) = none ∧ a (2 * n + 1) = none) :
    Layout (h.relink (h.mem last).parent last none) (Function.update a n none) := by
  have hpar := l.parent hlast
  have old : ∀ {i x}, Function.update a n none i = some x → a i = some x := by
    intro i x hx
    have hin : i ≠ n := by rintro rfl; simp at hx
    rwa [Function.update_of_ne hin] at hx
  refine { toIsTree := l.toIsTree.drop hleaf, root := ?_, left := ?_, right := ?_, parent := ?_ }
  · rw [Heap.relink_root, Function.update_of_ne (by omega)]; exact l.root
  · intro i x hx
    rw [Heap.relink_left, hpar, l.left (old hx)]
    by_cases h2 : 2 * i = n
    · have : i = n / 2 := by omega
      rw [if_pos ⟨this ▸ old hx, by rw [h2, hlast]⟩, h2, Function.update_self]
    · rw [if_neg, Function.update_of_ne h2]
      rintro ⟨_, h3⟩
      exact h2 (l.inj h3 hlast)
  · intro i x hx
    rw [Heap.relink_right, hpar, l.left (old hx), l.right (old hx)]
    by_cases h2 : 2 * i + 1 = n
    · have : i = n / 2 := by omega
      rw [if_pos ⟨this ▸ old hx, fun h3 => by have := l.inj h3 hlast; omega⟩, h2,
        Function.update_self]
    · rw [if_neg, Function.update_of_ne h2]
      rintro ⟨h3, h4⟩
      have := l.inj (old hx) h3
      exact h4 (by rw [show 2 * i = n by omega, hlast])
  · intro i x hx
    have h2 : i / 2 ≠ n := by
      intro h2
      have hx' := old hx
      rcases (show i = 2 * n ∨ i = 2 * n + 1 by omega) with rfl | rfl
      · rw [hleaf.1] at hx'; cases hx'
      · rw [hleaf.2] at hx'; cases hx'
    rw [Heap.relink_parent, Function.update_of_ne h2]
    exact l.parent (old hx)

section
variable {h : Heap ν} {r last : ν} (hpr : (h.mem r).parent ≠ some r)
include hpr

/-! The links after `last` has been put in the place of `r`. -/

theorem heapReplace_left (y : ν) : ((heapReplace h r last).mem y).left =
    if y = last then (h.mem r).left
    else if (h.mem r).parent = some y ∧ (h.mem y).left = some r then some last
    else (h.mem y).left := by
  cases hp : (h.mem r).parent with
  | none => simp [heapReplace, hp]
  | some p => rw [hp] at hpr; simp [heapReplace, hp, hpr]

theorem heapReplace_right (y : ν) : ((heapReplace h r last).mem y).right =
    if y = last then (h.mem r).right
    else if (h.mem r).parent = some y ∧ (h.mem y).left ≠ some r then some last
    else (h.mem y).right := by
  cases hp : (h.mem r).parent with
  | none => simp [heapReplace, hp]
  | some p => rw [hp] at hpr; simp [heapReplace, hp, hpr]

theorem heapReplace_parent (hl : (h.mem r).left ≠ some r) (hr : (h.mem r).right ≠ some r) (y : ν) :
    ((heapReplace h r last).mem y).parent =
    if y = last then (h.mem r).parent
    else if (h.mem r).right = some y then some last
    else if (h.mem r).left = some y then some last
    else (h.mem y).parent := by
  cases hp : (h.mem r).parent with
  | none => simp [heapReplace, hp, hl, hr]
  | some p => rw [hp] at hpr; simp [heapReplace, hp, hpr, hl, hr]

end

theorem heapReplace_root (h : Heap ν) (r last : ν) : (heapReplace h r last).root =
    if (h.mem r).parent = none then some last else h.root := by
  cases hp : (h.mem r).parent <;> simp [heapReplace, hp]

@[simp] theorem heapReplace_size (h : Heap ν) (r last : ν) :
    (heapReplace h r last).size = h.size := by
  cases hp : (h.mem r).parent <;> simp [heapReplace, hp]

/-- Putting a node that is no node of the tree in the place of another renames its position. -/
theorem Layout.replace {h : Heap ν} {a : Nat → Option ν} (l : Layout h a) {i : Nat} {r last : ν}
    (hr : a i = some r) (hlast : ∀ j, a j ≠ some last) :
    Layout (heapReplace h r last) (Function.update a i (some last)) := by
  have hpos := l.toIsTree.pos hr
  have off : ∀ {j}, j ≠ i → a j ≠ some r := fun hj h2 => hj (l.inj h2 hr)
  have hpr : (h.mem r).parent ≠ some r := by rw [l.parent hr]; exact off (by omega)
  have hlr : (h.mem r).left ≠ some r := by rw [l.left hr]; exact off (by omega)
  have hrr : (h.mem r).right ≠ some r := by rw [l.right hr]; exact off (by omega)
  have tree := l.toIsTree.put (k := i) (by omega)
    (fun hi => l.up hi (by rw [hr]; simp)) hlast
  have old : ∀ {j y}, j ≠ i → Function.update a i (some last) j = some y →
      a j = some y ∧ y ≠ last := by
    intro j y hji hy
    rw [Function.update_of_ne hji] at hy
    exact ⟨hy, by rintro rfl; exact hlast _ hy⟩
  refine { toIsTree := tree, root := ?_, left := ?_, right := ?_, parent := ?_ }
  · rw [heapReplace_root, l.parent hr, l.root]
    by_cases h1 : i = 1
    · subst h1; rw [Function.update_self, l.zero, if_pos rfl]
    · rw [if_neg (l.up (by omega) (by rw [hr]; simp)), Function.update_of_ne (Ne.symm h1)]
  · intro j y hy
    rw [heapReplace_left hpr]
    by_cases hji : j = i
    · subst hji
      rw [Function.update_self] at hy; cases hy
      rw [if_pos rfl, l.left hr, Function.update_of_ne (by omega)]
    · obtain ⟨hy', hyl⟩ := old hji hy
      rw [if_neg hyl, l.parent hr, l.left hy']
      by_cases h2 : 2 * j = i
      · have hj : j = i / 2 := by omega
        rw [if_pos ⟨hj ▸ hy', by rw [h2, hr]⟩, h2, Function.update_self]
      · rw [if_neg (fun h3 => off h2 h3.2), Function.update_of_ne h2]
  · intro j y hy
    rw [heapReplace_right hpr]
    by_cases hji : j = i
    · subst hji
      rw [Function.update_self] at hy; cases hy
      rw [if_pos rfl, l.right hr, Function.update_of_ne (by omega)]
    · obtain ⟨hy', hyl⟩ := old hji hy
      rw [if_neg hyl, l.parent hr, l.left hy', l.right hy']
      by_cases h2 : 2 * j + 1 = i
      · have hj : j = i / 2 := by omega
        rw [if_pos ⟨hj ▸ hy', off (by omega)⟩, h2, Function.update_self]
      · rw [Function.update_of_ne h2, if_neg]
        rintro ⟨h3, h4⟩
        have := l.inj hy' h3
        exact h4 (by rw [show 2 * j = i by omega, hr])
  · intro j y hy
    rw [heapReplace_parent hpr hlr hrr]
    by_cases hji : j = i
    · subst hji
      rw [Function.update_self] at hy; cases hy
      rw [if_pos rfl, l.parent hr, Function.update_of_ne (by omega)]
    · obtain ⟨hy', hyl⟩ := old hji hy
      rw [if_neg hyl, l.right hr, l.left hr, l.parent hy']
      by_cases h2 : j / 2 = i
      · rw [h2, Function.update_self]
        rcases (show j = 2 * i + 1 ∨ j = 2 * i by omega) with h3 | h3
        · rw [← h3, if_pos hy']
        · rw [← h3, if_pos hy']; split <;> rfl
      · rw [if_neg (fun h3 => by have := l.inj h3 hy'; omega),
          if_neg (fun h3 => by have := l.inj h3 hy'; omega), Function.update_of_ne h2]

end Pandio
