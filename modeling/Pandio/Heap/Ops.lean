import Pandio.Heap.Layout
import Pandio.Lib.Ties

/- What `heap_insert`, `heap_remove` and `heap_pop` do to a heap that is laid out
   as a complete tree in heap order. `HeapValid key h a` is that state; each
   operation returns (it meets no NULL pointer and its loops end) and leaves the
   state valid for a tree with one name more or one name less. -/
namespace Pandio
open LevelOrder

variable {ν : Type}

/-! ## The path to a position -/

/-- The bit loop keeps the position that the path leads to, and loses no bit: at every round
`n * 2^bits` is at most the number the loop started from. -/
theorem pathBits_descend : ∀ (fuel n mask bits : Nat), 1 ≤ n → n < 2 ^ fuel → mask < 2 ^ bits →
    n * 2 ^ bits < 2 ^ 32 →
    descend 1 (pathBits fuel n mask bits).1 (pathBits fuel n mask bits).2 = descend n mask bits := by
  intro fuel
  induction fuel with
  | zero => intro n mask bits h1 h2; omega
  | succ fuel ih =>
    intro n mask bits h1 hf hm h32
    rw [pathBits]
    split
    · rename_i h2
      have hpow : 2 ^ (bits + 1) = 2 * 2 ^ bits := Nat.pow_succ'
      have hle : n / 2 * 2 ^ (bits + 1) ≤ n * 2 ^ bits := by
        rw [hpow, ← Nat.mul_assoc]
        exact Nat.mul_le_mul_right _ (by omega)
      have hbit : 2 ^ (bits + 1) ≤ n / 2 * 2 ^ (bits + 1) := Nat.le_mul_of_pos_left _ (by omega)
      rw [Nat.mod_eq_of_lt (by omega)]
      rw [ih (n / 2) (2 * mask + n % 2) (bits + 1) (by omega) (by rw [Nat.pow_succ] at hf; omega)
        (by omega) (by omega)]
      rw [descend, show 2 * (n / 2) + (2 * mask + n % 2) % 2 = n by omega,
        show (2 * mask + n % 2) / 2 = mask by omega]
    · rw [show n = 1 by omega]

/-- The path of `n` leads from the root to position `n`. -/
theorem pathBits_path (n : Nat) (h1 : 1 ≤ n) (h32 : n < 2 ^ 32) :
    descend 1 (pathBits 32 n 0 0).1 (pathBits 32 n 0 0).2 = n := by
  rw [pathBits_descend 32 n 0 0 h1 h32 (by simp) (by simpa using h32), descend]

/-- Every position on the path to a node has a node. -/
theorem occupied_of_descend {a : Nat → Option ν} (t : IsTree a) (p mask : Nat) (hp : 1 ≤ p) :
    ∀ k, a (descend p mask k) ≠ none → a p ≠ none := by
  intro k
  induction k with
  | zero => exact id
  | succ k ih =>
    intro h
    have hgt := descend_gt p mask k hp
    have := t.up (by omega) h
    rw [descend_parent] at this
    exact ih this

/-- The walk along a path to an occupied position meets no NULL link and ends there. -/
theorem Layout.walk {h : Heap ν} {a : Nat → Option ν} (l : Layout h a) :
    ∀ (k p mask : Nat) (x : ν), 1 ≤ p → a p = some x → a (descend p mask k) ≠ none →
      walk h k mask x = a (descend p mask k) := by
  intro k
  induction k with
  | zero => intro p mask x _ hx _; rw [Pandio.walk, descend, hx]
  | succ k ih =>
    intro p mask x hp hx hd
    rw [descend] at hd ⊢
    have hnext := occupied_of_descend l.toIsTree (2 * p + mask % 2) (mask / 2) (by omega) k hd
    obtain ⟨y, hy⟩ := Option.ne_none_iff_exists'.mp hnext
    have hlink : (if mask % 2 = 1 then (h.mem x).right else (h.mem x).left) = some y := by
      split
      · rename_i hb; rw [l.right hx, ← hy, hb]
      · rename_i hb; rw [l.left hx, ← hy, show mask % 2 = 0 by omega, Nat.add_zero]
    simp only [Pandio.walk, hlink]
    exact ih _ _ y (by omega) hy hd

/-- The path of `heap_insert`, without its last step, leads to the parent of the new leaf. -/
theorem Layout.walk_insert {h : Heap ν} {a : Nat → Option ν} (l : Layout h a) (f : Full h.size a)
    {r : ν} (hr : h.root = some r) (h32 : h.size + 1 < 2 ^ 32) :
    Pandio.walk h ((pathBits 32 (h.size + 1) 0 0).2 - 1) (pathBits 32 (h.size + 1) 0 0).1 r =
      a ((h.size + 1) / 2) := by
  have h1 : a 1 = some r := by rw [← l.root, hr]
  have hpos := (f.range h1).2
  have hpath := pathBits_path (h.size + 1) (by omega) h32
  obtain ⟨b, hb⟩ : ∃ b, (pathBits 32 (h.size + 1) 0 0).2 = b + 1 := by
    cases hb : (pathBits 32 (h.size + 1) 0 0).2 with
    | zero => rw [hb, descend] at hpath; omega
    | succ b => exact ⟨b, rfl⟩
  have hpar : descend 1 (pathBits 32 (h.size + 1) 0 0).1 b = (h.size + 1) / 2 := by
    rw [← descend_parent, ← hb, hpath]
  obtain ⟨last, hlast⟩ := f.get (i := (h.size + 1) / 2) (by omega) (by omega)
  rw [hb, Nat.add_sub_cancel, ← hpar]
  exact l.walk b 1 _ r (le_refl 1) h1 (by rw [hpar, hlast]; simp)

/-! ## Valid heaps -/

/-- `a'` has the shape of `a` and the same names. -/
structure SameNodes (a a' : Nat → Option ν) : Prop where
  shape : ∀ k, a' k ≠ none ↔ a k ≠ none
  names : ∀ x, (∃ k, a' k = some x) ↔ ∃ k, a k = some x

theorem SameNodes.refl (a : Nat → Option ν) : SameNodes a a := ⟨fun _ => Iff.rfl, fun _ => Iff.rfl⟩

theorem SameNodes.trans {a b c : Nat → Option ν} (h1 : SameNodes a b) (h2 : SameNodes b c) :
    SameNodes a c :=
  ⟨fun k => (h2.shape k).trans (h1.shape k), fun x => (h2.names x).trans (h1.names x)⟩

theorem SameNodes.swap {a : Nat → Option ν} {i j : Nat} (hi : a i ≠ none) (hj : a j ≠ none) :
    SameNodes a (swapAt a i j) :=
  ⟨swapAt_ne_none hi hj, swapAt_range a i j⟩

theorem SameNodes.full {a a' : Nat → Option ν} (s : SameNodes a a') {n : Nat} (f : Full n a) :
    Full n a' :=
  fun i => (s.shape i).trans (f i)

variable {κ : Type} [LinearOrder κ] (key : ν → κ)

/-- A heap whose links are those of the complete tree `a`, in heap order. -/
structure HeapValid (h : Heap ν) (a : Nat → Option ν) : Prop extends Layout h a where
  full : Full h.size a
  ordered : Ordered key a

/-- The comparator of the repository: 1 when the first key is smaller, else 0. -/
def keyComparator (x y : ν) : Int := if key x < key y then 1 else 0

variable {key}

theorem HeapValid.congr {key' : ν → κ} {h : Heap ν} {a : Nat → Option ν} (v : HeapValid key h a)
    (hk : ∀ i x, a i = some x → key' x = key x) : HeapValid key' h a where
  toLayout := v.toLayout
  full := v.full
  ordered := fun j hj x y hx hy => by
    rw [hk _ _ hx, hk _ _ hy]; exact v.ordered j hj x y hx hy

/-- `heap_peek` is NULL exactly on the empty heap, and otherwise returns a node of smallest key. -/
theorem HeapValid.peek {h : Heap ν} {a : Nat → Option ν} (v : HeapValid key h a) :
    (heapPeek h = none ↔ ∀ i, a i = none) ∧
      ∀ r, heapPeek h = some r → a 1 = some r ∧ ∀ i x, a i = some x → key r ≤ key x := by
  refine ⟨⟨?_, fun hn => by rw [heapPeek, v.root, hn]⟩, ?_⟩
  · intro hr i
    rw [heapPeek, v.root] at hr
    cases hx : a i with
    | none => rfl
    | some x =>
      have hi := v.full.range hx
      exact absurd hr ((v.full 1).mpr ⟨by omega, by omega⟩)
  · intro r hr
    rw [heapPeek, v.root] at hr
    exact ⟨hr, v.ordered.root_min v.toIsTree hr⟩

theorem heapInit_valid (mem : ν → HeapNode ν) : HeapValid key (heapInit mem) (fun _ => none) where
  zero := rfl
  inj := fun h => by cases h
  up := fun _ h => absurd rfl h
  root := rfl
  left := fun h => by cases h
  right := fun h => by cases h
  parent := fun h => by cases h
  full := fun i => by simp [heapInit]; omega
  ordered := fun j _ x y h => by cases h

/-! ## The sifts -/

section
variable [DecidableEq ν] {cmp : ν → ν → Int} (hcmp : ∀ x y, cmp x y = keyComparator key x y)
include hcmp

/-- Sifting up from position `i` ends, with a tree in heap order: it is the sift of the tree. -/
theorem siftUp_valid {f : Int → Bool} (h1 : f 1 = true) (h0 : f 0 = false) (x : ν) :
    ∀ (fuel i : Nat) (h : Heap ν) (a : Nat → Option ν), Layout h a → UpOrder key a i →
      a i = some x → i ≤ fuel →
      ∃ h' a' j, siftUp cmp f fuel h x = some h' ∧ Layout h' a' ∧ Ordered key a' ∧
        SameNodes a a' ∧ h'.size = h.size ∧ SiftsUp key x a i a' j := by
  intro fuel
  induction fuel with
  | zero =>
    intro i h a l _ hx hi
    have := l.toIsTree.pos hx
    omega
  | succ fuel ih =>
    intro i h a l o hx hi
    have hpos := l.toIsTree.pos hx
    rw [siftUp, l.parent hx]
    cases hp : a (i / 2) with
    | none =>
      have hi1 : ¬ 2 ≤ i := fun h2 => l.up h2 (by rw [hx]; simp) hp
      exact ⟨h, a, i, rfl, l, o.finish (fun h2 => absurd h2 hi1), SameNodes.refl a, rfl, .stop⟩
    | some p =>
      have hi2 : 2 ≤ i := by
        have := l.toIsTree.pos hp
        omega
      simp only [hcmp, keyComparator]
      by_cases hlt : key x < key p
      · rw [if_pos hlt, if_pos h1]
        obtain ⟨h', a', j, hs, l', o', s', hz, hsift⟩ := ih (i / 2) _ _ (l.swap hi2 hx hp)
          (o.move hi2 hx hp hlt) (by rw [swapAt_right, hx]) (by omega)
        refine ⟨h', a', j, hs, l', o', ?_, by rw [hz, heapSwap_size], .up hi2 hp hlt hsift⟩
        exact (SameNodes.swap (by rw [hx]; simp) (by rw [hp]; simp)).trans s'
      · rw [if_neg hlt, h0]
        refine ⟨h, a, i, rfl, l, o.finish ?_, SameNodes.refl a, rfl, .stop⟩
        intro _ u v hu hv
        rw [hx] at hu; rw [hp] at hv
        cases hu; cases hv
        exact not_lt.mp hlt

omit [DecidableEq ν] in
/-- The child that sifting down compares with is one of smallest key, the right one if both are. -/
theorem swapNode_min {h : Heap ν} {a : Nat → Option ν} (l : Layout h a) {i : Nat} {x : ν}
    (hx : a i = some x) :
    (swapNode cmp h x = none ∧ a (2 * i) = none ∧ a (2 * i + 1) = none) ∨
      ∃ k c, swapNode cmp h x = some c ∧ 2 ≤ k ∧ k / 2 = i ∧ a k = some c ∧
        (∀ s y, s / 2 = i → 2 ≤ s → a s = some y → key c ≤ key y) ∧
        (k = 2 * i → ∀ y, a (2 * i + 1) = some y → key c < key y) := by
  have hpos := l.toIsTree.pos hx
  have side : ∀ s, s / 2 = i → s = 2 * i ∨ s = 2 * i + 1 := fun s hs => by omega
  simp only [swapNode, l.left hx, l.right hx]
  cases hl : a (2 * i) with
  | none =>
    cases hr : a (2 * i + 1) with
    | none => exact .inl ⟨rfl, rfl, rfl⟩
    | some r =>
      refine .inr ⟨2 * i + 1, r, rfl, by omega, by omega, hr, ?_, fun hk => by omega⟩
      intro s y hs _ hy
      rcases side s hs with rfl | rfl
      · rw [hl] at hy; cases hy
      · rw [hr] at hy; cases hy; exact le_refl _
  | some c =>
    cases hr : a (2 * i + 1) with
    | none =>
      refine .inr ⟨2 * i, c, rfl, by omega, by omega, hl, ?_, fun _ y hy => by cases hy⟩
      intro s y hs _ hy
      rcases side s hs with rfl | rfl
      · rw [hl] at hy; cases hy; exact le_refl _
      · rw [hr] at hy; cases hy
    | some r =>
      simp only [hcmp, keyComparator]
      by_cases hlt : key c < key r
      · refine .inr ⟨2 * i, c, by simp [hlt], by omega, by omega, hl, ?_, fun _ y hy => ?_⟩
        rotate_left
        · cases hy
          exact hlt
        intro s y hs _ hy
        rcases side s hs with rfl | rfl
        · rw [hl] at hy; cases hy; exact le_refl _
        · rw [hr] at hy; cases hy; exact le_of_lt hlt
      · refine .inr ⟨2 * i + 1, r, by simp [hlt], by omega, by omega, hr, ?_, fun hk => by omega⟩
        intro s y hs _ hy
        rcases side s hs with rfl | rfl
        · rw [hl] at hy; cases hy; exact not_lt.mp hlt
        · rw [hr] at hy; cases hy; exact le_refl _

/-- Sifting down from position `i` ends, at a position whose edge up alone may be open: it is the
sift of the tree. -/
theorem siftDown_valid (x : ν) (n : Nat) :
    ∀ (fuel i : Nat) (h : Heap ν) (a : Nat → Option ν), Layout h a → Full n a →
      DownOrder key a i → a i = some x → n < fuel + i →
      ∃ h' a' j, siftDown cmp fuel h x = some h' ∧ Layout h' a' ∧ UpOrder key a' j ∧
        a' j = some x ∧ SameNodes a a' ∧ h'.size = h.size ∧ SiftsDown key x a i a' j := by
  intro fuel
  induction fuel with
  | zero =>
    intro i h a l f _ hx hi
    have := f.range hx
    omega
  | succ fuel ih =>
    intro i h a l f o hx hi
    rw [siftDown]
    rcases swapNode_min hcmp l hx with ⟨hs, hl, hr⟩ | ⟨k, c, hs, hk, hki, hc, hmin, hleft⟩
    · rw [hs]
      have hleaf : ∀ j y, j / 2 = i → a j ≠ some y := by
        intro j y hj hy
        rcases (show j = 2 * i ∨ j = 2 * i + 1 by omega) with rfl | rfl
        · rw [hl] at hy; cases hy
        · rw [hr] at hy; cases hy
      exact ⟨h, a, i, rfl, l, o.finish fun j _ hj u _ hu _ => absurd hu (hleaf j u hj), hx,
        SameNodes.refl a, rfl, .stop fun s y hs _ hy => absurd hy (hleaf s y hs)⟩
    · rw [hs]
      simp only [hcmp, keyComparator]
      by_cases hlt : key x < key c
      · refine ⟨h, a, i, by simp [hlt], l, o.finish ?_, hx, SameNodes.refl a, rfl,
          .stop fun s y hs hs2 hy => hlt.trans_le (hmin s y hs hs2 hy)⟩
        intro j hj hji u v hu hv
        rw [hji, hx] at hv; cases hv
        exact le_trans (le_of_lt hlt) (hmin j u hji hj hu)
      · have hx' : a (k / 2) = some x := by rw [hki]; exact hx
        have l' := l.swap hk hc hx'
        have o' := o.move hk hki hc hmin
        have s' : SameNodes a (swapAt a k (k / 2)) :=
          SameNodes.swap (by rw [hc]; simp) (by rw [hx']; simp)
        rw [hki] at l' s'
        obtain ⟨h', a', j, hd, l'', o'', hj, s'', hz, hsift⟩ := ih k _ _ l' (s'.full f) o'
          (by rw [swapAt_left, hx]) (by omega)
        refine ⟨h', a', j, by simpa [hlt] using hd, l'', o'', hj, s'.trans s'', ?_,
          .down hk hki hc hmin hleft hsift⟩
        rw [hz, heapSwap_size]

/-! ## The operations -/

omit hcmp in
/-- The first node of an empty heap. -/
theorem heapInsert_empty {h : Heap ν} {a : Nat → Option ν} (v : HeapValid key h a)
    (hroot : h.root = none) (x : ν) :
    ∃ h', heapInsert cmp h x = some h' ∧
      HeapValid key h' (Function.update a 1 (some x)) ∧ h'.size = h.size + 1 := by
  have hempty : ∀ i, a i = none := v.peek.1.mp hroot
  have hsize : h.size = 0 := by
    rcases Nat.eq_zero_or_pos h.size with h0 | h0
    · exact h0
    · obtain ⟨y, hy⟩ := v.full.get (i := 1) (le_refl 1) h0
      rw [hempty] at hy; cases hy
  have only : ∀ {i y}, Function.update a 1 (some x) i = some y → i = 1 ∧ y = x := by
    intro i y hy
    by_cases h1 : i = 1
    · subst h1; rw [Function.update_self] at hy; cases hy; exact ⟨rfl, rfl⟩
    · rw [Function.update_of_ne h1, hempty] at hy; cases hy
  refine ⟨_, by rw [heapInsert, hroot], ?_, rfl⟩
  refine
    { toIsTree := v.toIsTree.put (k := 1) (by omega) (fun h2 => by omega)
        (fun i => by rw [hempty]; simp)
      root := by simp
      left := ?_, right := ?_, parent := ?_, full := ?_, ordered := ?_ }
  · intro i y hy
    obtain ⟨rfl, rfl⟩ := only hy
    rw [Function.update_of_ne (by omega), hempty]; simp
  · intro i y hy
    obtain ⟨rfl, rfl⟩ := only hy
    rw [Function.update_of_ne (by omega), hempty]; simp
  · intro i y hy
    obtain ⟨rfl, rfl⟩ := only hy
    rw [Function.update_of_ne (by omega), hempty]; simp
  · have f := v.full
    rw [hsize] at f
    simpa [hsize] using f.push x
  · intro j hj u w hu _
    obtain ⟨rfl, _⟩ := only hu
    omega

/-- `heap_insert` puts the new node at the first free place of the tree and sifts it up. -/
theorem heapInsert_sifts {h : Heap ν} {a : Nat → Option ν} (v : HeapValid key h a) {x : ν}
    (hx : ∀ i, a i ≠ some x) (h32 : h.size + 1 < 2 ^ 32) :
    ∃ h' a' j, heapInsert cmp h x = some h' ∧ HeapValid key h' a' ∧ h'.size = h.size + 1 ∧
      (∀ y, (∃ i, a' i = some y) ↔ y = x ∨ ∃ i, a i = some y) ∧
      SiftsUp key x (Function.update a (h.size + 1) (some x)) (h.size + 1) a' j := by
  cases hroot : h.root with
  | none =>
    obtain ⟨h', hi, v', hz⟩ := heapInsert_empty v hroot x
    have hsize : h.size = 0 := by
      by_contra hne
      obtain ⟨r, hr⟩ := v.full.get (i := 1) (le_refl 1) (by omega)
      rw [v.peek.1.mp hroot] at hr
      cases hr
    refine ⟨h', _, 1, hi, v', hz, names_put (v.peek.1.mp hroot 1) x, ?_⟩
    rw [hsize]
    exact .stop
  | some r =>
    have hr : a 1 = some r := by rw [← v.root, hroot]
    have hpos := (v.full.range hr).2
    -- the walk ends at the parent of the first free place
    obtain ⟨last, hlast⟩ := v.full.get (i := (h.size + 1) / 2) (by omega) (by omega)
    have hwalk := v.toLayout.walk_insert v.full hroot h32
    rw [hlast] at hwalk
    have hfree : a (h.size + 1) = none := v.full.beyond (by omega)
    -- the new node is a left child when its place is even
    have hside : a (2 * ((h.size + 1) / 2)) = none ↔ h.size + 1 = 2 * ((h.size + 1) / 2) := by
      constructor
      · intro hn
        by_contra hne
        exact (v.full _).mpr ⟨by omega, by omega⟩ hn
      · intro he; rw [← he]; exact hfree
    have l := v.toLayout.attach (k := h.size + 1) (by omega) hlast hside
      ⟨v.full.beyond (by omega), v.full.beyond (by omega)⟩ hx
    obtain ⟨h', a', j, hs, l', o', s', hz, hsift⟩ := siftUp_valid hcmp (f := fun c => 0 < c) rfl
      rfl x (h.size + 1) (h.size + 1) _ _ l (v.ordered.push v.full x) (Function.update_self ..)
      (le_refl _)
    rw [heapAttach_size] at hz
    refine ⟨h', a', j, ?_, ⟨l', by rw [hz]; exact s'.full (v.full.push x), o'⟩, hz, fun y => ?_,
      hsift⟩
    · simp only [heapInsert, hroot, Nat.mod_eq_of_lt h32, Option.bind_eq_bind, hwalk,
        Option.bind_some, heapAttach_size]
      exact hs
    · rw [s'.names, names_put hfree]

/-- `heap_insert` of a new node returns, and adds it to the heap. -/
theorem heapInsert_valid {h : Heap ν} {a : Nat → Option ν} (v : HeapValid key h a) {x : ν}
    (hx : ∀ i, a i ≠ some x) (h32 : h.size + 1 < 2 ^ 32) :
    ∃ h' a', heapInsert cmp h x = some h' ∧ HeapValid key h' a' ∧ h'.size = h.size + 1 ∧
      ∀ y, (∃ i, a' i = some y) ↔ y = x ∨ ∃ i, a i = some y := by
  obtain ⟨h', a', _, hi, v', hz, hn, _⟩ := heapInsert_sifts hcmp v hx h32
  exact ⟨h', a', hi, v', hz, hn⟩

omit hcmp in
/-- `heap_remove` of the last node of a larger heap. -/
theorem heapRemove_last {h : Heap ν} {a : Nat → Option ν} (v : HeapValid key h a)
    (h2 : 2 ≤ h.size) {x : ν} (hx : a h.size = some x) :
    HeapValid key
      ((h.setSize (h.size - 1)).relink (h.mem x).parent x none)
      (Function.update a h.size none) where
  toLayout :=
    (v.toLayout.resize (h.size - 1)).unlink h2 hx
      ⟨v.full.beyond (by omega), v.full.beyond (by omega)⟩
  full := by
    obtain ⟨n, hn⟩ : ∃ n, h.size = n + 1 := ⟨h.size - 1, by omega⟩
    have f := v.full
    rw [hn] at f
    simpa [hn] using f.pop
  ordered := v.ordered.drop _

/-- `heap_remove` puts the last node of the tree in the place of the one it takes out, and sifts it
down and up. -/
theorem heapRemove_sifts {h : Heap ν} {a : Nat → Option ν} (v : HeapValid key h a) {x : ν}
    {i : Nat} (hx : a i = some x) (h32 : h.size < 2 ^ 32) :
    ∃ h' a', heapRemove cmp h x = some (h', some x) ∧ HeapValid key h' a' ∧
      h'.size + 1 = h.size ∧ (∀ y, (∃ i, a' i = some y) ↔ y ≠ x ∧ ∃ i, a i = some y) ∧
      Removes key a h.size i a' := by
  have hi := v.full.range hx
  obtain ⟨r, hr⟩ := v.full.get (i := 1) (le_refl 1) (by omega)
  have hroot : h.root = some r := by rw [v.root, hr]
  by_cases h1 : h.size = 1
  · -- the only node
    have hi1 : i = 1 := by omega
    have hnone : Function.update a h.size none = fun _ => none := by
      funext k
      by_cases hk : k = h.size
      · rw [hk, Function.update_self]
      · rw [Function.update_of_ne hk]
        by_contra hne
        have := (v.full k).mp hne
        omega
    refine ⟨{ h with root := none, size := 0 }, fun _ => none, by simp [heapRemove, hroot, h1],
      ?_, by simp [h1], fun y => ?_, hnone ▸ .last (by omega)⟩
    · have v0 : HeapValid key _ _ := heapInit_valid h.mem
      exact { v0 with }
    · constructor
      · rintro ⟨_, hy⟩; cases hy
      · rintro ⟨hyx, j, hy⟩
        have hj := v.full.range hy
        rw [show j = i by omega, hx] at hy
        cases hy; exact absurd rfl hyx
  · have hpath := pathBits_path h.size (by omega) h32
    obtain ⟨last, hlast⟩ := v.full.get (i := h.size) (by omega) (le_refl _)
    have hwalk := v.toLayout.walk (pathBits 32 h.size 0 0).2 1 (pathBits 32 h.size 0 0).1 r
      (le_refl 1) hr (by rw [hpath, hlast]; simp)
    rw [hpath, hlast] at hwalk
    have v1 := heapRemove_last v (by omega) hlast
    have n1 := names_drop v.toIsTree hlast
    by_cases hlx : last = x
    · subst hlx
      refine ⟨_, _, ?_, v1, by rw [Heap.relink_size, Heap.setSize_size]; omega, n1,
        .last (v.inj hx hlast)⟩
      simp only [heapRemove, hroot, if_neg h1, Nat.mod_eq_of_lt h32, Option.bind_eq_bind, hwalk,
        Option.bind_some, if_true, Heap.setSize_mem]
    · have hin : i ≠ h.size := by
        rintro rfl
        rw [hlast] at hx; cases hx; exact hlx rfl
      have hx1 : Function.update a h.size none i = some x := by
        rw [Function.update_of_ne hin, hx]
      have hfree : ∀ j, Function.update a h.size none j ≠ some last :=
        fun j hj => ((n1 last).mp ⟨j, hj⟩).1 rfl
      have l2 := v1.toLayout.replace hx1 hfree
      have f2 : Full (h.size - 1) (Function.update (Function.update a h.size none) i (some last)) := by
        have f := v1.full
        rw [Heap.relink_size, Heap.setSize_size] at f
        exact f.rename (by omega) (by omega)
      obtain ⟨h3, a3, j, hd, l3, o3, hj, s3, z3, hdown⟩ := siftDown_valid hcmp last (h.size - 1)
        (h.size - 1 + 1) i _ _ l2 f2 (v1.ordered.rename v1.toIsTree i last)
        (Function.update_self ..) (by omega)
      have f3 := s3.full f2
      obtain ⟨h4, a4, k, hu, l4, o4, s4, z4, hup⟩ := siftUp_valid hcmp (f := fun c => c ≠ 0) rfl rfl last
        (h3.size + 1) j _ _ l3 o3 hj (by
          have := f3.range hj
          rw [z3, heapReplace_size, Heap.relink_size, Heap.setSize_size]; omega)
      have z3' : h3.size = h.size - 1 := by
        rw [z3, heapReplace_size, Heap.relink_size, Heap.setSize_size]
      refine ⟨h4, a4, ?_, ⟨l4, by rw [z4, z3']; exact s4.full f3, o4⟩, by omega, fun y => ?_,
        .sift hin hlast hdown hup⟩
      · simp only [heapRemove, hroot, if_neg h1, Nat.mod_eq_of_lt h32, Option.bind_eq_bind, hwalk,
          Option.bind_some, if_neg hlx, heapReplace_size, Heap.relink_size, Heap.setSize_size,
          Heap.setSize_mem]
        rw [hd, Option.bind_some, hu, Option.bind_some]
      · rw [s4.names, s3.names, names_rename hx1 (v1.toIsTree), n1]
        constructor
        · rintro (rfl | ⟨hyx, _, hy⟩)
          · exact ⟨hlx, _, hlast⟩
          · exact ⟨hyx, hy⟩
        · rintro ⟨hyx, hy⟩
          by_cases hyl : y = last
          · exact .inl hyl
          · exact .inr ⟨hyx, hyl, hy⟩

/-- `heap_remove` of a node of the heap returns that node, and takes it out of the heap. -/
theorem heapRemove_valid {h : Heap ν} {a : Nat → Option ν} (v : HeapValid key h a) {x : ν}
    {i : Nat} (hx : a i = some x) (h32 : h.size < 2 ^ 32) :
    ∃ h' a', heapRemove cmp h x = some (h', some x) ∧ HeapValid key h' a' ∧
      h'.size + 1 = h.size ∧ ∀ y, (∃ i, a' i = some y) ↔ y ≠ x ∧ ∃ i, a i = some y := by
  obtain ⟨h', a', hr, v', hz, hn, _⟩ := heapRemove_sifts hcmp v hx h32
  exact ⟨h', a', hr, v', hz, hn⟩

/-- `heap_pop` of an empty heap returns NULL and changes nothing; otherwise it removes the root. -/
theorem heapPop_valid {h : Heap ν} {a : Nat → Option ν} (v : HeapValid key h a)
    (h32 : h.size < 2 ^ 32) :
    (heapPeek h = none ∧ heapPop cmp h = some (h, none)) ∨
      ∃ x h' a', heapPeek h = some x ∧ heapPop cmp h = some (h', some x) ∧ HeapValid key h' a' ∧
        h'.size + 1 = h.size ∧ ∀ y, (∃ i, a' i = some y) ↔ y ≠ x ∧ ∃ i, a i = some y := by
  cases hroot : h.root with
  | none => exact .inl ⟨hroot, by rw [heapPop, hroot]⟩
  | some x =>
    obtain ⟨h', a', hr, v', hz, hn⟩ := heapRemove_valid hcmp v (i := 1) (by rw [← v.root, hroot]) h32
    exact .inr ⟨x, h', a', hroot, by rw [heapPop, hroot]; exact hr, v', hz, hn⟩

end

end Pandio
