import Mathlib

/- Binary trees by level-order position: the root is position 1 and the children
   of `i` are `2*i` and `2*i + 1`. A tree over node names is a partial function
   from positions to names (`Nat → Option ν`), so its shape, the path to a
   position and the order along its edges are arithmetic on positions. The file
   gives the path to a position, trees closed under taking parents, and the two
   sifts of a binary heap as rules about exchanging a position with its parent. -/
namespace LevelOrder

/-! ## Paths -/

/-- The position reached from `p` by the low `k` bits of `mask`, lowest bit first:
0 goes left, 1 goes right. -/
def descend (p mask : Nat) : Nat → Nat
  | 0 => p
  | k + 1 => descend (2 * p + mask % 2) (mask / 2) k

/-- One more bit at the far end of the path. -/
theorem descend_snoc (p mask k : Nat) :
    descend p mask (k + 1) = 2 * descend p mask k + mask / 2 ^ k % 2 := by
  induction k generalizing p mask with
  | zero => simp [descend]
  | succ k ih =>
    rw [descend, ih, descend, Nat.div_div_eq_div_mul, ← Nat.pow_succ']

/-- The path without its last bit ends at the parent. -/
theorem descend_parent (p mask k : Nat) : descend p mask (k + 1) / 2 = descend p mask k := by
  rw [descend_snoc]; omega

/-- Positions only grow along a path. -/
theorem descend_ge (p mask k : Nat) : p ≤ descend p mask k := by
  induction k generalizing p mask with
  | zero => exact Nat.le_refl p
  | succ k ih => have := ih (2 * p + mask % 2) (mask / 2); rw [descend]; omega

/-- From a real position a nonempty path ends strictly later. -/
theorem descend_gt (p mask k : Nat) (hp : 0 < p) : p < descend p mask (k + 1) := by
  have := descend_ge (2 * p + mask % 2) (mask / 2) k
  rw [descend]; omega

/-! ## Trees -/

section
variable {ν : Type}

/-- A tree: no name at two positions, nothing at position 0, and every position
below the root has its parent in the tree. -/
structure IsTree (a : Nat → Option ν) : Prop where
  zero : a 0 = none
  inj : ∀ {i j x}, a i = some x → a j = some x → i = j
  up : ∀ {i}, 2 ≤ i → a i ≠ none → a (i / 2) ≠ none

/-- A complete tree of `n` nodes: its levels are filled from left to right. -/
def Full (n : Nat) (a : Nat → Option ν) : Prop := ∀ i, a i ≠ none ↔ 1 ≤ i ∧ i ≤ n

theorem IsTree.pos {a : Nat → Option ν} (t : IsTree a) {i : Nat} {x : ν} (h : a i = some x) :
    1 ≤ i := by
  rcases Nat.eq_zero_or_pos i with rfl | hi
  · rw [t.zero] at h; cases h
  · exact hi

theorem Full.get {n : Nat} {a : Nat → Option ν} (f : Full n a) {i : Nat} (h1 : 1 ≤ i)
    (hn : i ≤ n) : ∃ x, a i = some x :=
  Option.ne_none_iff_exists'.mp ((f i).mpr ⟨h1, hn⟩)

theorem Full.range {n : Nat} {a : Nat → Option ν} (f : Full n a) {i : Nat} {x : ν}
    (h : a i = some x) : 1 ≤ i ∧ i ≤ n :=
  (f i).mp (by rw [h]; simp)

theorem Full.beyond {n : Nat} {a : Nat → Option ν} (f : Full n a) {i : Nat} (h : n < i) :
    a i = none := by
  cases hx : a i with
  | none => rfl
  | some x => have := f.range hx; omega

/-- The tree with the names at `i` and `j` exchanged. -/
def swapAt (a : Nat → Option ν) (i j : Nat) : Nat → Option ν := fun k => a (Equiv.swap i j k)

@[simp] theorem swapAt_left (a : Nat → Option ν) (i j : Nat) : swapAt a i j i = a j := by
  simp [swapAt]

@[simp] theorem swapAt_right (a : Nat → Option ν) (i j : Nat) : swapAt a i j j = a i := by
  simp [swapAt]

theorem swapAt_other (a : Nat → Option ν) {i j k : Nat} (hi : k ≠ i) (hj : k ≠ j) :
    swapAt a i j k = a k := by
  simp [swapAt, Equiv.swap_apply_of_ne_of_ne hi hj]

theorem swapAt_ne_none {a : Nat → Option ν} {i j : Nat} (hi : a i ≠ none) (hj : a j ≠ none)
    (k : Nat) : swapAt a i j k ≠ none ↔ a k ≠ none := by
  by_cases hki : k = i
  · subst hki; simp [hi, hj]
  · by_cases hkj : k = j
    · subst hkj; simp [hi, hj]
    · rw [swapAt_other a hki hkj]

/-- Exchanging two occupied positions keeps the set of names. -/
theorem swapAt_range (a : Nat → Option ν) (i j : Nat) (x : ν) :
    (∃ k, swapAt a i j k = some x) ↔ ∃ k, a k = some x :=
  ⟨fun ⟨k, h⟩ => ⟨_, h⟩, fun ⟨k, h⟩ => ⟨Equiv.swap i j k, by simpa [swapAt] using h⟩⟩

theorem IsTree.swapAt {a : Nat → Option ν} (t : IsTree a) {i j : Nat} (hi : a i ≠ none)
    (hj : a j ≠ none) : IsTree (swapAt a i j) where
  zero := by
    have h0 : ¬ LevelOrder.swapAt a i j 0 ≠ none := by
      rw [swapAt_ne_none hi hj]; simp [t.zero]
    simpa using h0
  inj := fun {k l x} hk hl => (Equiv.swap i j).injective (t.inj hk hl)
  up := by
    intro k hk h
    rw [swapAt_ne_none hi hj] at h ⊢
    exact t.up hk h

/-- A new name at the root, at a free child of a node, or in the place of another name. -/
theorem IsTree.put {a : Nat → Option ν} (t : IsTree a) {k : Nat} {x : ν} (hk : k ≠ 0)
    (hpar : 2 ≤ k → a (k / 2) ≠ none) (hx : ∀ i, a i ≠ some x) :
    IsTree (Function.update a k (some x)) := by
  constructor
  · rw [Function.update_of_ne (Ne.symm hk)]; exact t.zero
  · intro i j y hi hj
    by_cases hik : i = k <;> by_cases hjk : j = k
    · rw [hik, hjk]
    · subst hik
      rw [Function.update_self] at hi; cases hi
      rw [Function.update_of_ne hjk] at hj
      exact absurd hj (hx j)
    · subst hjk
      rw [Function.update_self] at hj; cases hj
      rw [Function.update_of_ne hik] at hi
      exact absurd hi (hx i)
    · rw [Function.update_of_ne hik] at hi
      rw [Function.update_of_ne hjk] at hj
      exact t.inj hi hj
  · intro i hi h0
    by_cases h2 : i / 2 = k
    · rw [h2, Function.update_self]; simp
    · rw [Function.update_of_ne h2]
      by_cases hik : i = k
      · subst hik; exact hpar hi
      · rw [Function.update_of_ne hik] at h0
        exact t.up hi h0

/-- A tree without one of its leaves. -/
theorem IsTree.drop {a : Nat → Option ν} (t : IsTree a) {n : Nat}
    (hleaf : a (2 * n) = none ∧ a (2 * n + 1) = none) : IsTree (Function.update a n none) := by
  have same : ∀ {i x}, Function.update a n none i = some x → a i = some x := by
    intro i x hi
    have hin : i ≠ n := by rintro rfl; simp at hi
    rwa [Function.update_of_ne hin] at hi
  constructor
  · by_cases h0 : 0 = n
    · rw [h0, Function.update_self]
    · rw [Function.update_of_ne h0]; exact t.zero
  · exact fun hi hj => t.inj (same hi) (same hj)
  · intro i hi h0
    obtain ⟨x, hx⟩ := Option.ne_none_iff_exists'.mp h0
    have h2 : i / 2 ≠ n := by
      intro h2
      have := same hx
      rcases (show i = 2 * n ∨ i = 2 * n + 1 by omega) with h3 | h3
      · rw [h3, hleaf.1] at this; cases this
      · rw [h3, hleaf.2] at this; cases this
    rw [Function.update_of_ne h2]
    exact t.up hi (by rw [same hx]; simp)

theorem Full.swapAt {n : Nat} {a : Nat → Option ν} (f : Full n a) {i j : Nat} (hi : a i ≠ none)
    (hj : a j ≠ none) : Full n (swapAt a i j) :=
  fun k => (swapAt_ne_none hi hj k).trans (f k)

/-- The tree with one more leaf. -/
theorem Full.push {n : Nat} {a : Nat → Option ν} (f : Full n a) (x : ν) :
    Full (n + 1) (Function.update a (n + 1) (some x)) := by
  intro k
  by_cases hk : k = n + 1
  · subst hk; simp
  · rw [Function.update_of_ne hk, f k]; omega

/-- The tree without its last leaf. -/
theorem Full.pop {n : Nat} {a : Nat → Option ν} (f : Full (n + 1) a) :
    Full n (Function.update a (n + 1) none) := by
  intro k
  by_cases hk : k = n + 1
  · subst hk; simp
  · rw [Function.update_of_ne hk, f k]; omega

/-- The tree with one name replaced. -/
theorem Full.rename {n : Nat} {a : Nat → Option ν} (f : Full n a) {i : Nat} (h1 : 1 ≤ i)
    (hn : i ≤ n) {x : ν} : Full n (Function.update a i (some x)) := by
  intro k
  by_cases hk : k = i
  · subst hk; simp [h1, hn]
  · rw [Function.update_of_ne hk, f k]

/-- The names after one position has taken a new name. -/
theorem names_put {a : Nat → Option ν} {k : Nat} (hk : a k = none) (x y : ν) :
    (∃ i, Function.update a k (some x) i = some y) ↔ y = x ∨ ∃ i, a i = some y := by
  constructor
  · rintro ⟨i, hi⟩
    by_cases hik : i = k
    · subst hik; rw [Function.update_self] at hi; cases hi; exact .inl rfl
    · rw [Function.update_of_ne hik] at hi; exact .inr ⟨i, hi⟩
  · rintro (rfl | ⟨i, hi⟩)
    · exact ⟨k, Function.update_self ..⟩
    · refine ⟨i, ?_⟩
      rw [Function.update_of_ne (by rintro rfl; rw [hk] at hi; cases hi), hi]

/-- The names after a position has been dropped. -/
theorem names_drop {a : Nat → Option ν} (t : IsTree a) {n : Nat} {x : ν} (hn : a n = some x)
    (y : ν) : (∃ i, Function.update a n none i = some y) ↔ y ≠ x ∧ ∃ i, a i = some y := by
  constructor
  · rintro ⟨i, hi⟩
    have hin : i ≠ n := by rintro rfl; simp at hi
    rw [Function.update_of_ne hin] at hi
    exact ⟨by rintro rfl; exact hin (t.inj hi hn), i, hi⟩
  · rintro ⟨hyx, i, hi⟩
    refine ⟨i, ?_⟩
    rw [Function.update_of_ne (by rintro rfl; rw [hn] at hi; cases hi; exact hyx rfl), hi]

/-- The names after one name has been replaced by another. -/
theorem names_rename {a : Nat → Option ν} {i : Nat} {r x : ν} (hr : a i = some r) (t : IsTree a)
    (y : ν) : (∃ k, Function.update a i (some x) k = some y) ↔
      y = x ∨ (y ≠ r ∧ ∃ k, a k = some y) := by
  constructor
  · rintro ⟨k, hk⟩
    by_cases hki : k = i
    · subst hki; rw [Function.update_self] at hk; cases hk; exact .inl rfl
    · rw [Function.update_of_ne hki] at hk
      exact .inr ⟨by rintro rfl; exact hki (t.inj hk hr), k, hk⟩
  · rintro (rfl | ⟨hyr, k, hk⟩)
    · exact ⟨i, Function.update_self ..⟩
    · refine ⟨k, ?_⟩
      rw [Function.update_of_ne (by rintro rfl; rw [hr] at hk; cases hk; exact hyr rfl), hk]

end

/-! ## Heap order -/

section
variable {ν κ : Type} [LinearOrder κ] (key : ν → κ)

/-- The edge into position `j` is in order. -/
def EdgeOk (a : Nat → Option ν) (j : Nat) : Prop :=
  ∀ x y, a j = some x → a (j / 2) = some y → key y ≤ key x

/-- Every edge is in order: no child's key is smaller than its parent's. -/
def Ordered (a : Nat → Option ν) : Prop := ∀ j, 2 ≤ j → EdgeOk key a j

/-- The children of `i` are in order with the parent of `i`. -/
def GrandOk (a : Nat → Option ν) (i : Nat) : Prop :=
  2 ≤ i → ∀ j x y, j / 2 = i → a j = some x → a (i / 2) = some y → key y ≤ key x

/-- What sifting position `i` up needs: only the edge into `i` may be out of order. -/
structure UpOrder (a : Nat → Option ν) (i : Nat) : Prop where
  off : ∀ j, 2 ≤ j → j ≠ i → EdgeOk key a j
  grand : GrandOk key a i

/-- What sifting position `i` down needs: only the edges at `i` may be out of order. -/
structure DownOrder (a : Nat → Option ν) (i : Nat) : Prop where
  off : ∀ j, 2 ≤ j → j ≠ i → j / 2 ≠ i → EdgeOk key a j
  grand : GrandOk key a i

variable {key}

/-- In an ordered tree no name's key is smaller than the root's. -/
theorem Ordered.root_min {a : Nat → Option ν} (t : IsTree a) (o : Ordered key a) {r : ν}
    (hr : a 1 = some r) : ∀ (i : Nat) (x : ν), a i = some x → key r ≤ key x := by
  intro i
  induction i using Nat.strongRecOn with
  | ind i ih =>
    intro x hx
    have hpos := t.pos hx
    by_cases h1 : i = 1
    · subst h1; rw [hr] at hx; cases hx; exact le_refl _
    · obtain ⟨y, hy⟩ := Option.ne_none_iff_exists'.mp (t.up (i := i) (by omega) (by rw [hx]; simp))
      exact le_trans (ih (i / 2) (by omega) y hy) (o i (by omega) x y hx hy)

theorem Ordered.grand {a : Nat → Option ν} (t : IsTree a) (o : Ordered key a) (i : Nat) :
    GrandOk key a i := by
  intro hi j x y hji hx hy
  obtain ⟨m, hm⟩ := Option.ne_none_iff_exists'.mp (t.up (i := j) (by omega) (by rw [hx]; simp))
  have h1 := o j (by omega) x m hx hm
  rw [hji] at hm
  exact le_trans (o i hi m y hm hy) h1

/-! ### Sifting up -/

/-- Exchanging the node at `i` with a parent of larger key moves the open edge up. -/
theorem UpOrder.move {a : Nat → Option ν} {i : Nat} (o : UpOrder key a i) (hi : 2 ≤ i) {c p : ν}
    (hc : a i = some c) (hp : a (i / 2) = some p) (hlt : key c < key p) :
    UpOrder key (swapAt a i (i / 2)) (i / 2) := by
  -- an edge below position `i / 2` other than `i`'s has `p` above it before the exchange
  have sibling : ∀ j x, j / 2 = i / 2 → j ≠ i → a j = some x → key p ≤ key x := by
    intro j x hj hji hx
    exact o.off j (by omega) hji x p hx (by rw [hj]; exact hp)
  constructor
  · intro j hj hjp x y hx hy
    by_cases hji : j = i
    · subst hji
      rw [swapAt_left, hp] at hx; rw [swapAt_right, hc] at hy
      cases hx; cases hy; exact le_of_lt hlt
    · rw [swapAt_other a hji hjp] at hx
      by_cases h1 : j / 2 = i
      · rw [h1, swapAt_left, hp] at hy; cases hy
        exact o.grand hi j x _ h1 hx hp
      · by_cases h2 : j / 2 = i / 2
        · rw [h2, swapAt_right, hc] at hy; cases hy
          exact le_trans (le_of_lt hlt) (sibling j x h2 hji hx)
        · rw [swapAt_other a h1 h2] at hy
          exact o.off j hj hji x y hx hy
  · intro hi2 j x y hj hx hy
    rw [swapAt_other a (by omega) (by omega)] at hy
    have hpy : key y ≤ key p := o.off (i / 2) hi2 (by omega) p y hp hy
    by_cases hji : j = i
    · subst hji
      rw [swapAt_left, hp] at hx; cases hx; exact hpy
    · rw [swapAt_other a hji (by omega)] at hx
      exact le_trans hpy (sibling j x hj hji hx)

/-- When the open edge is in order too, the tree is ordered. -/
theorem UpOrder.finish {a : Nat → Option ν} {i : Nat} (o : UpOrder key a i)
    (h : 2 ≤ i → EdgeOk key a i) : Ordered key a := by
  intro j hj
  by_cases hji : j = i
  · subst hji; exact h hj
  · exact o.off j hj hji

/-- A new last leaf leaves only its own edge open. -/
theorem Ordered.push {n : Nat} {a : Nat → Option ν} (f : Full n a) (o : Ordered key a) (x : ν) :
    UpOrder key (Function.update a (n + 1) (some x)) (n + 1) := by
  constructor
  · intro j hj hjn u v hu hv
    rw [Function.update_of_ne hjn] at hu
    have := f.range hu
    rw [Function.update_of_ne (by omega)] at hv
    exact o j hj u v hu hv
  · intro _ j u v hj hu _
    rw [Function.update_of_ne (by omega)] at hu
    have := f.range hu
    omega

/-! ### Sifting down -/

/-- Exchanging the node at `i` with its child of smallest key, at `k`, moves the open edges
down. -/
theorem DownOrder.move {a : Nat → Option ν} {i k : Nat} (o : DownOrder key a i) (hk : 2 ≤ k)
    (hki : k / 2 = i) {c : ν} (hc : a k = some c)
    (hmin : ∀ s x, s / 2 = i → 2 ≤ s → a s = some x → key c ≤ key x) :
    DownOrder key (swapAt a k i) k := by
  constructor
  · intro j hj hjk hjk2 x y hx hy
    by_cases hji : j = i
    · subst hji
      rw [swapAt_right, hc] at hx; cases hx
      rw [swapAt_other a (by omega) (by omega)] at hy
      exact o.grand hj k _ y hki hc hy
    · rw [swapAt_other a hjk hji] at hx
      by_cases h1 : j / 2 = i
      · rw [h1, swapAt_right, hc] at hy; cases hy
        exact hmin j x h1 hj hx
      · rw [swapAt_other a hjk2 h1] at hy
        exact o.off j hj hji h1 x y hx hy
  · intro _ j x y hj hx hy
    rw [hki, swapAt_right, hc] at hy; cases hy
    rw [swapAt_other a (by omega) (by omega)] at hx
    exact o.off j (by omega) (by omega) (by omega) x _ hx (by rw [hj]; exact hc)

/-- When the edges below `i` are in order, only the edge into `i` is still open. -/
theorem DownOrder.finish {a : Nat → Option ν} {i : Nat} (o : DownOrder key a i)
    (h : ∀ j, 2 ≤ j → j / 2 = i → EdgeOk key a j) : UpOrder key a i where
  off := by
    intro j hj hji
    by_cases h1 : j / 2 = i
    · exact h j hj h1
    · exact o.off j hj hji h1
  grand := o.grand

/-- Renaming position `i` of an ordered tree opens only the edges at `i`. -/
theorem Ordered.rename {a : Nat → Option ν} (t : IsTree a) (o : Ordered key a) (i : Nat) (x : ν) :
    DownOrder key (Function.update a i (some x)) i := by
  constructor
  · intro j hj hji hji2 u v hu hv
    rw [Function.update_of_ne hji] at hu
    rw [Function.update_of_ne hji2] at hv
    exact o j hj u v hu hv
  · intro hi j u v hj hu hv
    rw [Function.update_of_ne (by omega)] at hu
    rw [Function.update_of_ne (by omega)] at hv
    exact o.grand t i hi j u v hj hu hv

/-- Dropping a position keeps the order of the rest. -/
theorem Ordered.drop {a : Nat → Option ν} (o : Ordered key a) (n : Nat) :
    Ordered key (Function.update a n none) := by
  intro j hj u v hu hv
  by_cases hjn : j = n
  · subst hjn; simp at hu
  · by_cases h2 : j / 2 = n
    · rw [h2] at hv; simp at hv
    · rw [Function.update_of_ne hjn] at hu
      rw [Function.update_of_ne h2] at hv
      exact o j hj u v hu hv

end

end LevelOrder
