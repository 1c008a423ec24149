import Pandio.Heap.History

/- `heap_swap` and the walks to the last position, on trees that are given by their
   links alone. A tree is pointer-consistent when the `parent` field of every child
   leads back to where it hangs; nothing is said of its shape, of keys or of the
   size. Such a tree has its level-order numbering, so what is known of layouts
   applies to it. -/
namespace Pandio
open LevelOrder

variable {ν : Type}

/-! ## Pointer-consistent trees -/

/-- The node can be reached from the root. -/
def Reachable (h : Heap ν) (x : ν) : Prop := ∃ p, follow h p = some x

/-- The links of the nodes below the root agree. -/
structure Consistent (h : Heap ν) : Prop where
  root : ∀ r, h.root = some r → (h.mem r).parent = none
  left : ∀ x y, Reachable h x → (h.mem x).left = some y → (h.mem y).parent = some x
  right : ∀ x y, Reachable h x → (h.mem x).right = some y → (h.mem y).parent = some x
  sides : ∀ x y, Reachable h x → (h.mem x).left = some y → (h.mem x).right ≠ some y

theorem follow_cons {h : Heap ν} {p : List Bool} {x : ν} (hx : follow h p = some x) (b : Bool) :
    follow h (b :: p) = if b then (h.mem x).right else (h.mem x).left := by
  rw [follow, hx]

theorem Reachable.child {h : Heap ν} {x y : ν} (hx : Reachable h x)
    (hy : (h.mem x).left = some y ∨ (h.mem x).right = some y) : Reachable h y := by
  obtain ⟨p, hp⟩ := hx
  rcases hy with hy | hy
  · exact ⟨false :: p, by simp [follow_cons hp, hy]⟩
  · exact ⟨true :: p, by simp [follow_cons hp, hy]⟩

section
variable {h : Heap ν}

/-- The end of a path that is not empty is a child of the node before it. -/
theorem follow_parent {b : Bool} {p : List Bool} {y : ν} (hy : follow h (b :: p) = some y) :
    ∃ x, follow h p = some x ∧ (if b then (h.mem x).right else (h.mem x).left) = some y := by
  cases hx : follow h p with
  | none =>
    rw [follow, hx] at hy
    cases hy
  | some x => exact ⟨x, rfl, by rw [← follow_cons hx, hy]⟩

theorem Consistent.parent (hc : Consistent h) {b : Bool} {p : List Bool} {x y : ν}
    (hx : follow h p = some x) (hy : follow h (b :: p) = some y) :
    (h.mem y).parent = some x := by
  rw [follow_cons hx] at hy
  cases b with
  | true => exact hc.right x y ⟨p, hx⟩ hy
  | false => exact hc.left x y ⟨p, hx⟩ hy

/-- A node is reached on one path only. -/
theorem Consistent.once (hc : Consistent h) (p q : List Bool) (x : ν) (hp : follow h p = some x)
    (hq : follow h q = some x) : p = q := by
  induction p generalizing q x with
  | nil =>
    cases q with
    | nil => rfl
    | cons b q =>
      obtain ⟨y, hy, _⟩ := follow_parent hq
      have hroot := hc.root x hp
      rw [hc.parent hy hq] at hroot
      cases hroot
  | cons b p ih =>
    obtain ⟨y, hy, hside⟩ := follow_parent hp
    cases q with
    | nil =>
      have hroot := hc.root x hq
      rw [hc.parent hy hp] at hroot
      cases hroot
    | cons b' q =>
      obtain ⟨y', hy', hside'⟩ := follow_parent hq
      have hsame : y = y' := by
        have h1 := hc.parent hy hp
        rw [hc.parent hy' hq] at h1
        exact (Option.some.inj h1).symm
      subst hsame
      rw [ih q y hy hy']
      -- the two children of a node differ
      cases b <;> cases b' <;> simp only [if_true, Bool.false_eq_true, if_false] at hside hside'
      · rfl
      · exact absurd hside' (hc.sides y x ⟨p, hy⟩ hside)
      · exact absurd hside (hc.sides y x ⟨p, hy⟩ hside')
      · rfl

/-- The level-order numbering of the nodes. -/
noncomputable def numbering (h : Heap ν) : Nat → Option ν :=
  Function.extend levelOrder (follow h) fun _ => none

theorem numbering_levelOrder (p : List Bool) : numbering h (levelOrder p) = follow h p :=
  Function.Injective.extend_apply (fun p q => levelOrder_inj p q) _ _ p

theorem numbering_some {i : Nat} {x : ν} (hi : numbering h i = some x) :
    ∃ p, levelOrder p = i ∧ follow h p = some x := by
  by_cases hp : ∃ p, levelOrder p = i
  · obtain ⟨p, rfl⟩ := hp
    exact ⟨p, rfl, (numbering_levelOrder p).symm.trans hi⟩
  · rw [numbering, Function.extend_apply' _ _ _ hp] at hi
    cases hi

theorem levelOrder_half (b : Bool) (p : List Bool) : levelOrder (b :: p) / 2 = levelOrder p := by
  have := b.toNat_lt
  rw [levelOrder]
  omega

/-- A pointer-consistent tree is laid out by its numbering. -/
theorem Consistent.layout (hc : Consistent h) : Layout h (numbering h) where
  zero := by
    cases hx : numbering h 0 with
    | none => rfl
    | some x =>
      obtain ⟨p, hp, _⟩ := numbering_some hx
      have := levelOrder_pos p
      omega
  inj := by
    intro i j x hi hj
    obtain ⟨p, rfl, hp⟩ := numbering_some hi
    obtain ⟨q, rfl, hq⟩ := numbering_some hj
    rw [hc.once p q x hp hq]
  up := by
    intro i hi hne
    obtain ⟨y, hy⟩ := Option.ne_none_iff_exists'.mp hne
    obtain ⟨p, rfl, hp⟩ := numbering_some hy
    cases p with
    | nil => exact absurd hi (by simp [levelOrder])
    | cons b p =>
      obtain ⟨x, hx, _⟩ := follow_parent hp
      rw [levelOrder_half, numbering_levelOrder, hx]
      simp
  root := (numbering_levelOrder []).symm
  left := by
    intro i x hi
    obtain ⟨p, rfl, hp⟩ := numbering_some hi
    rw [show 2 * levelOrder p = levelOrder (false :: p) from rfl, numbering_levelOrder,
      follow_cons hp]
    rfl
  right := by
    intro i x hi
    obtain ⟨p, rfl, hp⟩ := numbering_some hi
    rw [show 2 * levelOrder p + 1 = levelOrder (true :: p) from rfl, numbering_levelOrder,
      follow_cons hp]
    rfl
  parent := by
    intro i x hi
    obtain ⟨p, rfl, hp⟩ := numbering_some hi
    cases p with
    | nil =>
      have hnone : numbering h (levelOrder [] / 2) = none := by
        cases hy : numbering h (levelOrder [] / 2) with
        | none => rfl
        | some y =>
          obtain ⟨q, hq, _⟩ := numbering_some hy
          have := levelOrder_pos q
          simp only [levelOrder] at hq
          omega
      rw [hc.root x hp, hnone]
    | cons b p =>
      obtain ⟨y, hy, _⟩ := follow_parent hp
      rw [hc.parent hy hp, levelOrder_half, numbering_levelOrder, hy]

/-- What has a layout is pointer-consistent. -/
theorem Layout.consistent {a : Nat → Option ν} (l : Layout h a) : Consistent h := by
  have hat : ∀ {x}, Reachable h x → ∃ i, 1 ≤ i ∧ a i = some x := by
    rintro x ⟨p, hp⟩
    exact ⟨_, levelOrder_pos p, (l.follow p).symm.trans hp⟩
  constructor
  · intro r hr
    rw [l.root] at hr
    rw [l.parent hr]
    exact l.zero
  · intro x y hx hy
    obtain ⟨i, _, hi⟩ := hat hx
    rw [l.left hi] at hy
    rw [l.parent hy, show 2 * i / 2 = i by omega, hi]
  · intro x y hx hy
    obtain ⟨i, _, hi⟩ := hat hx
    rw [l.right hi] at hy
    rw [l.parent hy, show (2 * i + 1) / 2 = i by omega, hi]
  · intro x y hx hl hr
    obtain ⟨i, _, hi⟩ := hat hx
    rw [l.left hi] at hl
    rw [l.right hi] at hr
    have := l.inj hl hr
    omega

end

/-! ## Exchanging a node with its parent -/

section
variable [DecidableEq ν]

/-- The node is linked with `x`. -/
def Neighbour (h : Heap ν) (x y : ν) : Prop :=
  (h.mem x).parent = some y ∨ (h.mem x).left = some y ∨ (h.mem x).right = some y

/-- `h'` is the tree `h` with the positions of `c` and `p` exchanged, and all links as they were
that are not of these nodes or their neighbours. -/
structure Exchanged (h h' : Heap ν) (c p : ν) : Prop where
  consistent : Consistent h'
  positions : ∀ q, follow h' q = (follow h q).map (Equiv.swap c p)
  root : h'.root = if h.root = some p then some c else h.root
  frame : ∀ y, y ≠ c → y ≠ p → ¬ Neighbour h c y → ¬ Neighbour h p y → h'.mem y = h.mem y
  size : h'.size = h.size

variable {h : Heap ν} {c p : ν}

theorem heapSwap_frame (hcp : c ≠ p) (hgc : (h.mem p).parent ≠ some c)
    (hgp : (h.mem p).parent ≠ some p) {y : ν} (hyc : y ≠ c) (hyp : y ≠ p)
    (hnc : ¬ Neighbour h c y) (hnp : ¬ Neighbour h p y) :
    (heapSwap h c p).mem y = h.mem y := by
  obtain ⟨-, hlc, hrc⟩ : _ ∧ (h.mem c).left ≠ some y ∧ (h.mem c).right ≠ some y := by
    simpa [Neighbour] using hnc
  obtain ⟨hgy, hlp, hrp⟩ : (h.mem p).parent ≠ some y ∧ (h.mem p).left ≠ some y ∧
      (h.mem p).right ≠ some y := by
    simpa [Neighbour] using hnp
  have hleft := heapSwap_left hcp hgc hgp y
  have hright := heapSwap_right hcp hgc hgp y
  have hparent := heapSwap_parent hcp hgc hgp y
  simp only [hyc, hyp, hgy, hlc, hrc, hlp, hrp, if_false, false_and] at hleft hright hparent
  calc (heapSwap h c p).mem y
      = ⟨((heapSwap h c p).mem y).left, ((heapSwap h c p).mem y).right,
          ((heapSwap h c p).mem y).parent⟩ := rfl
    _ = ⟨(h.mem y).left, (h.mem y).right, (h.mem y).parent⟩ := by rw [hleft, hright, hparent]
    _ = h.mem y := rfl

/-- Exchanging two positions exchanges the names there. -/
theorem swapAt_map {a : Nat → Option ν} (t : IsTree a) {i j : Nat} (hi : a i = some c)
    (hj : a j = some p) (k : Nat) : swapAt a i j k = (a k).map (Equiv.swap c p) := by
  by_cases hki : k = i
  · subst hki
    rw [swapAt_left, hi, hj, Option.map_some, Equiv.swap_apply_left]
  · by_cases hkj : k = j
    · subst hkj
      rw [swapAt_right, hi, hj, Option.map_some, Equiv.swap_apply_right]
    · rw [swapAt_other a hki hkj]
      cases hx : a k with
      | none => rfl
      | some x =>
        have hxc : x ≠ c := fun he => hki (t.inj hx (he ▸ hi))
        have hxp : x ≠ p := fun he => hkj (t.inj hx (he ▸ hj))
        rw [Option.map_some, Equiv.swap_apply_of_ne_of_ne hxc hxp]

/-- **`heap_swap` exchanges a node with its parent**, in any tree and wherever they are. -/
theorem heap_swap_exchanges (hc : Consistent h) (hp : Reachable h p)
    (hchild : (h.mem p).left = some c ∨ (h.mem p).right = some c) :
    Exchanged h (heapSwap h c p) c p := by
  have l := hc.layout
  obtain ⟨q, hq⟩ := hp
  -- the level-order numbers of the two
  have hpos := levelOrder_pos q
  have hi : numbering h (levelOrder q) = some p := (numbering_levelOrder q).trans hq
  obtain ⟨b, hb⟩ : ∃ b, numbering h (levelOrder (b :: q)) = some c := by
    rcases hchild with hl | hr
    · exact ⟨false, by rw [numbering_levelOrder, follow_cons hq]; simpa using hl⟩
    · exact ⟨true, by rw [numbering_levelOrder, follow_cons hq]; simpa using hr⟩
  have h2 : 2 ≤ levelOrder (b :: q) := by
    rw [levelOrder]
    omega
  have hi' : numbering h (levelOrder (b :: q) / 2) = some p := by rw [levelOrder_half, hi]
  have l' := l.swap h2 hb hi'
  have hcp : c ≠ p := by
    rintro rfl
    have := l.inj hb hi
    have := levelOrder_half b q
    omega
  have hgrand : ∀ x, (h.mem p).parent = some x → x ≠ c ∧ x ≠ p := by
    intro x hx
    rw [l.parent hi] at hx
    constructor
    · rintro rfl
      have := l.inj hx hb
      have := levelOrder_half b q
      omega
    · rintro rfl
      have := l.inj hx hi
      omega
  refine ⟨l'.consistent, fun q' => ?_, ?_, ?_, heapSwap_size h c p⟩
  · rw [l'.follow, swapAt_map l.toIsTree hb hi', numbering_levelOrder]
  · rw [heapSwap_root]
    congr 1
    apply propext
    constructor
    · intro hnone
      -- only the root has no parent
      rw [l.root]
      by_cases h1 : levelOrder q = 1
      · rw [← h1, hi]
      · rw [l.parent hi] at hnone
        have hup := l.up (i := levelOrder q) (by omega) (by rw [hi]; simp)
        exact absurd hnone hup
    · exact hc.root p
  · intro y hyc hyp hnc hnp
    exact heapSwap_frame hcp (fun he => (hgrand c he).1 rfl) (fun he => (hgrand p he).2 rfl)
      hyc hyp hnc hnp

end

/-- A root with two children. -/
def threeNodes : Heap Nat :=
  { root := some 0, size := 3
    mem := fun x => if x = 0 then ⟨some 1, some 2, none⟩ else ⟨none, none, some 0⟩ }

theorem threeNodes_consistent : Consistent threeNodes := by
  constructor
  · intro r hr
    cases hr
    rfl
  all_goals
    intro x y _ hxy
    by_cases hx : x = 0
    · simp only [threeNodes, hx, if_true, Option.some.injEq] at hxy ⊢
      subst hxy
      decide
    · simp [threeNodes, hx] at hxy

theorem heap_swap_exchanges_root : (heapSwap threeNodes 1 0).root = some 1 ∧
    Exchanged threeNodes (heapSwap threeNodes 1 0) 1 0 :=
  ⟨by decide, heap_swap_exchanges threeNodes_consistent ⟨[], rfl⟩ (.inl rfl)⟩

/-! ## The way to the last position -/

/-- The low `bits` bits of `mask` are those of `n` below its highest, in reverse. -/
structure PathOf (n mask bits : Nat) : Prop where
  length : 2 ^ bits ≤ n ∧ n < 2 ^ (bits + 1)
  fits : mask < 2 ^ bits
  reversed : ∀ i < bits, mask.testBit i = n.testBit (bits - 1 - i)

/-- The loop, from any state of its own. -/
theorem pathBits_reversed (fuel n mask bits : Nat) (h1 : 1 ≤ n) (hf : n < 2 ^ fuel)
    (hm : mask < 2 ^ bits) (h32 : n * 2 ^ bits < 2 ^ 32) :
    ∃ k, (pathBits fuel n mask bits).2 = bits + k ∧ 2 ^ k ≤ n ∧ n < 2 ^ (k + 1) ∧
      (pathBits fuel n mask bits).1 < 2 ^ (bits + k) ∧
      ∀ i, (pathBits fuel n mask bits).1.testBit i =
        if i < k then n.testBit (k - 1 - i) else mask.testBit (i - k) := by
  induction fuel generalizing n mask bits with
  | zero =>
    simp only [Nat.pow_zero] at hf
    omega
  | succ fuel ih =>
    rw [pathBits]
    by_cases h2 : 2 ≤ n
    · rw [if_pos h2]
      have hpow : 2 ^ (bits + 1) = 2 * 2 ^ bits := by rw [Nat.pow_succ, Nat.mul_comm]
      have hlow : n % 2 < 2 := Nat.mod_lt _ (by decide)
      have hhalf : n / 2 * 2 ^ (bits + 1) ≤ n * 2 ^ bits := by
        rw [hpow, ← Nat.mul_assoc]
        exact Nat.mul_le_mul_right _ (Nat.div_mul_le_self n 2)
      have hmul : 2 * 2 ^ bits ≤ n * 2 ^ bits := Nat.mul_le_mul_right _ h2
      -- no bit is lost to the 32 bits of the mask
      have hmask : (2 * mask + n % 2) % 2 ^ 32 = 2 * mask + n % 2 := by
        apply Nat.mod_eq_of_lt
        omega
      rw [hmask]
      obtain ⟨k, hbits, hle, hlt, hfits, htest⟩ := ih (n / 2) (2 * mask + n % 2) (bits + 1)
        (by omega) (by rw [Nat.pow_succ] at hf; omega) (by omega) (by omega)
      refine ⟨k + 1, by omega, ?_, ?_, ?_, fun i => ?_⟩
      · rw [Nat.pow_succ]
        omega
      · rw [Nat.pow_succ]
        omega
      · rwa [show bits + (k + 1) = bits + 1 + k by omega]
      · rw [htest]
        rcases Nat.lt_trichotomy i k with hi | hi | hi
        · rw [if_pos hi, if_pos (by omega), show k + 1 - 1 - i = k - 1 - i + 1 by omega,
            Nat.testBit_succ]
        · rw [if_neg (by omega), if_pos (by omega), hi, Nat.sub_self,
            show k + 1 - 1 - k = 0 by omega, Nat.testBit_zero, Nat.testBit_zero]
          congr 1
          apply propext
          omega
        · rw [if_neg (by omega), if_neg (by omega), show i - k = i - (k + 1) + 1 by omega,
            Nat.testBit_succ]
          congr 1
          omega
    · rw [if_neg h2]
      have hn : n = 1 := by omega
      refine ⟨0, rfl, by omega, by omega, by simpa using hm, fun i => ?_⟩
      rw [if_neg (Nat.not_lt_zero i), Nat.sub_zero]

theorem pathBits_pathOf {n : Nat} (h1 : 1 ≤ n) (h32 : n < 2 ^ 32) :
    PathOf n (pathBits 32 n 0 0).1 (pathBits 32 n 0 0).2 := by
  obtain ⟨k, hbits, hle, hlt, hfits, htest⟩ := pathBits_reversed 32 n 0 0 h1 h32 (by simp)
    (by simpa using h32)
  rw [Nat.zero_add] at hbits hfits
  rw [hbits]
  refine ⟨⟨hle, hlt⟩, hfits, fun i hi => ?_⟩
  rw [htest, if_pos hi]

/-- Where the loops of `heap_insert` and `heap_remove` end. -/
structure WaysEnd (h : Heap ν) (root : ν) : Prop where
  /-- The bits that `heap_insert` and `heap_remove` compute. -/
  bits : ∀ n, n = h.size + 1 ∨ n = h.size →
    PathOf n (pathBits 32 (n % 2 ^ 32) 0 0).1 (pathBits 32 (n % 2 ^ 32) 0 0).2
  /-- `heap_insert` gets to the parent of the next position, the first node that lacks a child, and
  takes the right side of it. -/
  insert : ∃ p last, walk h ((pathBits 32 ((h.size + 1) % 2 ^ 32) 0 0).2 - 1)
      (pathBits 32 ((h.size + 1) % 2 ^ 32) 0 0).1 root = some last ∧ follow h p = some last ∧
    levelOrder p = (h.size + 1) / 2 ∧ (h.mem last).right = none ∧
    levelOrder (((h.mem last).left.isSome) :: p) = h.size + 1 ∧
    ∀ q x, follow h q = some x → levelOrder q < levelOrder p →
      (h.mem x).left ≠ none ∧ (h.mem x).right ≠ none
  /-- `heap_remove` gets to the last node. -/
  remove : 2 ≤ h.size → ∃ p last, walk h (pathBits 32 (h.size % 2 ^ 32) 0 0).2
      (pathBits 32 (h.size % 2 ^ 32) 0 0).1 root = some last ∧ follow h p = some last ∧
    levelOrder p = h.size

/-- **The loops of `heap_insert` and `heap_remove` end at the next and the last position**, in every
complete tree of fewer than 2^32 - 1 nodes. -/
theorem heap_ways_end {h : Heap ν} {root : ν} (hc : Consistent h) (hroot : h.root = some root)
    (hcomplete : ∀ p, follow h p ≠ none ↔ levelOrder p ≤ h.size) (h1 : 1 ≤ h.size)
    (h32 : h.size + 1 < 2 ^ 32) : WaysEnd h root := by
  have l := hc.layout
  have f : Full h.size (numbering h) := by
    intro i
    constructor
    · intro hi
      obtain ⟨x, hx⟩ := Option.ne_none_iff_exists'.mp hi
      obtain ⟨p, rfl, hp⟩ := numbering_some hx
      exact ⟨levelOrder_pos p, (hcomplete p).mp (by rw [hp]; simp)⟩
    · rintro ⟨hi, hle⟩
      obtain ⟨p, rfl⟩ := levelOrder_surj i hi
      rw [numbering_levelOrder]
      exact (hcomplete p).mpr hle
  have hmod : (h.size + 1) % 2 ^ 32 = h.size + 1 := Nat.mod_eq_of_lt h32
  have hmod' : h.size % 2 ^ 32 = h.size := Nat.mod_eq_of_lt (by omega)
  refine ⟨?_, ?_, fun h2 => ?_⟩
  · rintro n (rfl | rfl)
    · rw [hmod]
      exact pathBits_pathOf (by omega) h32
    · rw [hmod']
      exact pathBits_pathOf h1 (by omega)
  · obtain ⟨last, hlast⟩ := f.get (i := (h.size + 1) / 2) (by omega) (by omega)
    obtain ⟨p, hp, hfollow⟩ := numbering_some hlast
    have hright : (h.mem last).right = none := by
      rw [l.right hlast]
      exact f.beyond (by omega)
    refine ⟨p, last, ?_, hfollow, hp, hright, ?_, fun q x hq hlt => ?_⟩
    · rw [hmod, l.walk_insert f hroot h32, hlast]
    · have hleft := l.left hlast
      rw [levelOrder, hp]
      by_cases hodd : 2 * ((h.size + 1) / 2) ≤ h.size
      · obtain ⟨y, hy⟩ := f.get (i := 2 * ((h.size + 1) / 2)) (by omega) hodd
        rw [hleft, hy, Option.isSome_some, Bool.toNat_true]
        omega
      · rw [hleft, f.beyond (by omega), Option.isSome_none, Bool.toNat_false]
        omega
    · have hx : numbering h (levelOrder q) = some x := (numbering_levelOrder q).trans hq
      have hpos := levelOrder_pos q
      rw [l.left hx, l.right hx, f _, f _]
      omega
  · obtain ⟨last, hlast⟩ := f.get h1 (le_refl h.size)
    obtain ⟨p, hp, hfollow⟩ := numbering_some hlast
    have hstart : numbering h 1 = some root := by rw [← l.root, hroot]
    have hpath := pathBits_path h.size h1 (by omega)
    refine ⟨p, last, ?_, hfollow, hp⟩
    rw [hmod', l.walk _ 1 _ root (le_refl 1) hstart (by rw [hpath, hlast]; simp), hpath, hlast]

theorem threeNodes_complete (p : List Bool) :
    follow threeNodes p ≠ none ↔ levelOrder p ≤ threeNodes.size := by
  have hsize : threeNodes.size = 3 := rfl
  -- below the root's children there is nothing
  have child : ∀ b q x, follow threeNodes (b :: q) = some x → x ≠ 0 := by
    intro b q x hx
    obtain ⟨y, _, hside⟩ := follow_parent hx
    by_cases hy : y = 0 <;> cases b <;> simp [threeNodes, hy] at hside <;> omega
  cases p with
  | nil => simp [follow, threeNodes, levelOrder]
  | cons b p =>
    cases p with
    | nil => cases b <;> simp [follow, threeNodes, levelOrder]
    | cons b' q =>
      have hpos := levelOrder_pos q
      constructor
      · intro hne
        obtain ⟨x, hx⟩ := Option.ne_none_iff_exists'.mp hne
        obtain ⟨y, hy, hside⟩ := follow_parent hx
        have hleaf := child b' q y hy
        simp [threeNodes, hleaf] at hside
      · intro hle
        rw [levelOrder, levelOrder] at hle
        omega

theorem heap_ways_end_three : walk threeNodes ((pathBits 32 4 0 0).2 - 1) (pathBits 32 4 0 0).1 0 =
    some 1 ∧ WaysEnd threeNodes 0 :=
  ⟨by decide, heap_ways_end threeNodes_consistent rfl threeNodes_complete (by decide) (by decide)⟩

end Pandio
