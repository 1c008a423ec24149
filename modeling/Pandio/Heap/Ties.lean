import Pandio.Heap.Ops

/- Which of several nodes with equal keys comes first. A comparator sees the keys only.
   For a relation that some nodes of equal key have (to be inserted later, say) this file
   says when `heap_insert` and `heap_remove` put no node above one to which it has the
   relation. `heap_insert` never does with a node to which no other has it: the new node
   stays below its equals. `heap_remove` moves the last node into the gap and then down
   under equal children, the right one of two, so it needs what `TiesApart` says of the
   heap before. -/
namespace Pandio
open LevelOrder

variable {ν κ : Type} [LinearOrder κ]

/-! ## The nodes by position -/

/-- The node at a position of the tree, from 1 on. -/
def heapAt (h : Heap ν) (i : Nat) : Option ν :=
  h.root.bind (walk h (pathBits 32 i 0 0).2 (pathBits 32 i 0 0).1)

/-- The last node has the relation from none that is above or below position `i`. -/
def LastApart (R : ν → ν → Prop) (h : Heap ν) (i : Nat) : Prop :=
  ∀ j < h.size, j ≠ i → Under j i ∨ Under i j → ∀ u ∈ heapAt h j, ∀ l ∈ heapAt h h.size, ¬ R u l

/-- The right child of position `q`, unless it is the last node, has the relation to no node in the
left branch. -/
def RightApart (R : ν → ν → Prop) (h : Heap ν) (q : Nat) : Prop :=
  2 * q + 1 < h.size → ∀ j < h.size, Under (2 * q) j →
    ∀ r ∈ heapAt h (2 * q + 1), ∀ v ∈ heapAt h j, ¬ R r v

/-- `heap_remove` of the node at position `i` finds no tie that it may turn round. -/
def TiesApart (R : ν → ν → Prop) (h : Heap ν) (i : Nat) : Prop :=
  LastApart R h i ∧ ∀ q < h.size, Under i q → RightApart R h q

section
variable (R : ν → ν → Prop) [DecidableRel R] (h : Heap ν) (i : Nat)

instance : Decidable (LastApart R h i) := inferInstanceAs (Decidable (∀ j < h.size, _))

instance : Decidable (RightApart R h i) := inferInstanceAs (Decidable (_ → _))

instance : Decidable (TiesApart R h i) := inferInstanceAs (Decidable (_ ∧ _))

end

theorem TiesApart.mono {R R' : ν → ν → Prop} {h : Heap ν} {i : Nat} (ht : TiesApart R h i)
    (hR : ∀ u v, R' u v → R u v) : TiesApart R' h i :=
  ⟨fun j hj hji hu u hu' l hl => mt (hR u l) (ht.1 j hj hji hu u hu' l hl),
    fun q hq hu hr j hj hu' r hr' v hv => mt (hR r v) (ht.2 q hq hu hr j hj hu' r hr' v hv)⟩

section
variable {key : ν → κ} {h : Heap ν} {a : Nat → Option ν} {i : Nat}

theorem HeapValid.heapAt (v : HeapValid key h a) (h32 : h.size < 2 ^ 32) (h1 : 1 ≤ i)
    (hi : i ≤ h.size) : heapAt h i = a i := by
  obtain ⟨r, hr⟩ := v.full.get (i := 1) (le_refl 1) (by omega)
  have hroot : h.root = some r := by rw [v.root, hr]
  have hpath := pathBits_path i h1 (by omega)
  have hwalk := v.toLayout.walk (pathBits 32 i 0 0).2 1 (pathBits 32 i 0 0).1 r (le_refl 1) hr
    (by rw [hpath]; exact (v.full i).mpr ⟨h1, hi⟩)
  rw [Pandio.heapAt, hroot, Option.bind_some, hwalk, hpath]

end

/-! ## The operations -/

section
variable [DecidableEq ν] {key : ν → κ} {cmp : ν → ν → Int} {R : ν → ν → Prop} {h : Heap ν}
  {a : Nat → Option ν} {x : ν} {i : Nat}

/-- **`heap_insert`** puts no node above one to which it has the relation, if none has it to the new
one. -/
theorem heapInsert_respects (hcmp : ∀ x y, cmp x y = keyComparator key x y)
    (hR : ∀ u v, R u v → key u = key v) (v : HeapValid key h a) (hx : ∀ i, a i ≠ some x)
    (h32 : h.size + 1 < 2 ^ 32) (ha : Respects R a) (hnew : ∀ u, ¬ R u x) :
    ∃ h' a', heapInsert cmp h x = some h' ∧ HeapValid key h' a' ∧
      (∀ y, (∃ i, a' i = some y) ↔ y = x ∨ ∃ i, a i = some y) ∧ Respects R a' := by
  obtain ⟨h', a', j, hi, v', -, hn, hsift⟩ := heapInsert_sifts hcmp v hx h32
  have hparent : 2 ≤ h.size + 1 → a ((h.size + 1) / 2) ≠ none := fun h2 =>
    (v.full _).mpr ⟨by omega, by omega⟩
  refine ⟨h', a', hi, v', hn, hsift.respects hR (v.toIsTree.put (by omega) hparent hx)
    (v.ordered.push v.full x) (Function.update_self ..) ?_ fun p u _ _ => hnew u⟩
  intro p q u w hu hp hq
  by_cases hqn : q = h.size + 1
  · rw [hqn, Function.update_self] at hq
    cases hq
    exact hnew u
  · rw [Function.update_of_ne hqn] at hq
    have hle := hu.le
    have hrange := v.full.range hq
    rw [Function.update_of_ne (by omega)] at hp
    exact ha p q u w hu hp hq

/-- **`heap_remove`** puts no node above one to which it has the relation, if the ties are apart. -/
theorem heapRemove_respects (hcmp : ∀ x y, cmp x y = keyComparator key x y)
    (hR : ∀ u v, R u v → key u = key v) (v : HeapValid key h a) (hx : a i = some x)
    (h32 : h.size < 2 ^ 32) (ha : Respects R a) (hties : TiesApart R h i) :
    ∃ h' a', heapRemove cmp h x = some (h', some x) ∧ HeapValid key h' a' ∧
      (∀ y, (∃ i, a' i = some y) ↔ y ≠ x ∧ ∃ i, a i = some y) ∧ Respects R a' := by
  obtain ⟨h', a', hr, v', -, hn, hrem⟩ := heapRemove_sifts hcmp v hx h32
  refine ⟨h', a', hr, v', hn, ?_⟩
  have hi := v.full.range hx
  -- the tree without its last leaf
  have dropped : ∀ {p u}, Function.update a h.size none p = some u → p < h.size ∧ a p = some u := by
    intro p u hp
    have hne : p ≠ h.size := by
      rintro rfl
      rw [Function.update_self] at hp
      cases hp
    rw [Function.update_of_ne hne] at hp
    have := v.full.range hp
    exact ⟨by omega, hp⟩
  cases hrem with
  | last => exact fun p q u w hu hp hq => ha p q u w hu (dropped hp).2 (dropped hq).2
  | @sift l a1 _ j k hin hl hdown hup =>
    have hsize : 2 ≤ h.size := by omega
    have hself : ¬ R l l := ha h.size h.size l l .refl hl hl
    have at_ : ∀ {p u}, p < h.size → a p = some u → heapAt h p = some u := fun hp hu =>
      (v.heapAt h32 (v.toIsTree.pos hu) hp.le).trans hu
    have hlast : heapAt h h.size = some l := (v.heapAt h32 (by omega) (le_refl _)).trans hl
    have tree := v.toIsTree.drop ⟨v.full.beyond (i := 2 * h.size) (by omega),
      v.full.beyond (i := 2 * h.size + 1) (by omega)⟩
    have hfree : ∀ p, Function.update a h.size none p ≠ some l := by
      intro p hp
      obtain ⟨hlt, hp⟩ := dropped hp
      have := v.inj hp hl
      omega
    have tree' : IsTree (Function.update (Function.update a h.size none) i (some l)) := by
      refine tree.put (by omega) (fun h2 => ?_) hfree
      rw [Function.update_of_ne (by omega)]
      exact v.up h2 (by rw [hx]; simp)
    have order := (v.ordered.drop h.size).rename tree i l
    have other : ∀ {p u}, p ≠ i →
        Function.update (Function.update a h.size none) i (some l) p = some u →
        p < h.size ∧ a p = some u := by
      intro p u hpi hp
      rw [Function.update_of_ne hpi] at hp
      exact dropped hp
    have hbranch : BranchClear R (Function.update (Function.update a h.size none) i (some l)) i l := by
      intro p u hu hp
      by_cases hpi : p = i
      · rw [hpi, Function.update_self] at hp
        cases hp
        exact hself
      · obtain ⟨hlt, hp⟩ := other hpi hp
        exact hties.1 p hlt hpi hu u (at_ hlt hp) l hlast
    have hbut : RespectsBut R (Function.update (Function.update a h.size none) i (some l)) i := by
      intro p q u w hpi hu hp hq
      by_cases hqi : q = i
      · rw [hqi, Function.update_self] at hq
        cases hq
        exact hbranch p u (.inl (hqi ▸ hu)) hp
      · exact ha p q u w hu (other hpi hp).2 (other hqi hq).2
    have hrights : RightsClear R (Function.update (Function.update a h.size none) i (some l)) i := by
      intro q p r w hq hp hqr hw
      have h1 := hq.le
      have h2 := hp.le
      obtain ⟨hltr, hqr⟩ := other (by omega) hqr
      obtain ⟨hltw, hw⟩ := other (by omega) hw
      exact hties.2 q (by omega) hq hltr p hltw hp r (at_ hltr hqr) w (at_ hltw hw)
    obtain ⟨hresp, habove⟩ :=
      hdown.respects hR tree' order (Function.update_self ..) hbut hbranch hrights
    obtain ⟨tree1, order1, hj⟩ := hdown.upOrder tree' order (Function.update_self ..)
    exact hup.respects hR tree1 order1 hj hresp habove

end

end Pandio
