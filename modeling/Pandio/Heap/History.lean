import Pandio.Heap.Ops

/- Every history of a heap: any sequence of `heap_insert`, `heap_remove` and
   `heap_pop` on a heap from `heap_init`, with fixed keys. `IsHeap` says in terms
   of the links alone what such a heap is; `heap_history` proves it of every
   history, and that the next operation returns. -/
namespace Pandio
open LevelOrder

variable {ν : Type}

/-- The node at the end of a path of child links from the root. The last step of the path comes
first; `true` goes right. -/
def follow (h : Heap ν) : List Bool → Option ν
  | [] => h.root
  | b :: p =>
    match follow h p with
    | some x => if b then (h.mem x).right else (h.mem x).left
    | none => none

/-- The level-order number of a path's end. -/
def levelOrder : List Bool → Nat
  | [] => 1
  | b :: p => 2 * levelOrder p + b.toNat

theorem levelOrder_pos (p : List Bool) : 1 ≤ levelOrder p := by
  induction p with
  | nil => exact le_refl 1
  | cons b p ih => rw [levelOrder]; omega

theorem levelOrder_inj : ∀ p q : List Bool, levelOrder p = levelOrder q → p = q := by
  intro p
  induction p with
  | nil =>
    intro q h
    cases q with
    | nil => rfl
    | cons c q => have := levelOrder_pos q; simp only [levelOrder] at h; omega
  | cons b p ih =>
    intro q h
    cases q with
    | nil => have := levelOrder_pos p; simp only [levelOrder] at h; omega
    | cons c q =>
      simp only [levelOrder] at h
      have hb := b.toNat_lt
      have hc := c.toNat_lt
      have hbc : b = c := by
        cases b <;> cases c <;> simp_all <;> omega
      rw [ih q (by omega), hbc]

theorem levelOrder_surj : ∀ n, 1 ≤ n → ∃ p, levelOrder p = n := by
  intro n
  induction n using Nat.strongRecOn with
  | ind n ih =>
    intro h1
    by_cases hn : n = 1
    · exact ⟨[], by rw [levelOrder, hn]⟩
    · obtain ⟨p, hp⟩ := ih (n / 2) (by omega) (by omega)
      refine ⟨decide (n % 2 = 1) :: p, ?_⟩
      rw [levelOrder, hp]
      by_cases hodd : n % 2 = 1
      · simp [hodd]; omega
      · simp [hodd]; omega

theorem Layout.follow {h : Heap ν} {a : Nat → Option ν} (l : Layout h a) (p : List Bool) :
    follow h p = a (levelOrder p) := by
  induction p with
  | nil => exact l.root
  | cons b p ih =>
    have hpos := levelOrder_pos p
    rw [Pandio.follow, ih, levelOrder]
    cases hx : a (levelOrder p) with
    | none =>
      cases hc : a (2 * levelOrder p + b.toNat) with
      | none => rfl
      | some y =>
        have := b.toNat_lt
        have hup := l.up (i := 2 * levelOrder p + b.toNat) (by omega) (by rw [hc]; simp)
        rw [show (2 * levelOrder p + b.toNat) / 2 = levelOrder p by omega] at hup
        exact absurd hx hup
    | some x =>
      cases b with
      | true => simp [l.right hx]
      | false => simp [l.left hx]

/-- A binary heap of the nodes `members`, in terms of its links. -/
structure IsHeap {κ : Type} [LinearOrder κ] (key : ν → κ) (h : Heap ν) (members : Finset ν) :
    Prop where
  reach : ∀ x, (∃ p, follow h p = some x) ↔ x ∈ members
  once : ∀ p q x, follow h p = some x → follow h q = some x → p = q
  count : members.card = h.size
  down : ∀ x ∈ members, ∀ y, (h.mem x).left = some y ∨ (h.mem x).right = some y →
    y ∈ members ∧ (h.mem y).parent = some x
  up : ∀ y ∈ members, ∀ x, (h.mem y).parent = some x →
    x ∈ members ∧ ((h.mem x).left = some y ∨ (h.mem x).right = some y)
  top : ∀ x ∈ members, (h.mem x).parent = none ↔ h.root = some x
  /-- The levels are filled from left to right. -/
  complete : ∀ p, follow h p ≠ none ↔ levelOrder p ≤ h.size
  order : ∀ x ∈ members, ∀ y, (h.mem x).left = some y ∨ (h.mem x).right = some y →
    ¬ key y < key x
  peek_none : heapPeek h = none ↔ members = ∅
  peek_min : ∀ r, heapPeek h = some r → r ∈ members ∧ ∀ x ∈ members, key r ≤ key x

variable {κ : Type} [LinearOrder κ] {key : ν → κ}

/-- The names of a complete tree of `n` nodes are `n` many. -/
theorem card_of_full {a : Nat → Option ν} (t : IsTree a) {n : Nat} (f : Full n a)
    {members : Finset ν} (hm : ∀ x, x ∈ members ↔ ∃ i, a i = some x) : members.card = n := by
  classical
  have himage : members.map Function.Embedding.some = (Finset.range n).image fun i => a (i + 1) := by
    ext o
    simp only [Finset.mem_map, Finset.mem_image, Finset.mem_range, Function.Embedding.some_apply]
    constructor
    · rintro ⟨x, hx, rfl⟩
      obtain ⟨i, hi⟩ := (hm x).mp hx
      have hr := f.range hi
      exact ⟨i - 1, by omega, by rw [Nat.sub_add_cancel hr.1, hi]⟩
    · rintro ⟨i, hi, rfl⟩
      obtain ⟨x, hx⟩ := f.get (i := i + 1) (by omega) (by omega)
      exact ⟨x, (hm x).mpr ⟨_, hx⟩, hx.symm⟩
  have hinj : Set.InjOn (fun i => a (i + 1)) (Finset.range n) := by
    intro i hi j hj hij
    rw [Finset.mem_coe, Finset.mem_range] at hi hj
    obtain ⟨x, hx⟩ := f.get (i := i + 1) (by omega) (by omega)
    have := t.inj hx ((Eq.symm hij).trans hx)
    omega
  rw [← Finset.card_map, himage, Finset.card_image_of_injOn hinj, Finset.card_range]

/-- A valid heap is one in terms of its links. -/
theorem HeapValid.isHeap {h : Heap ν} {a : Nat → Option ν} (v : HeapValid key h a)
    {members : Finset ν} (hm : ∀ x, x ∈ members ↔ ∃ i, a i = some x) : IsHeap key h members := by
  have hat : ∀ {x}, x ∈ members → ∃ i, a i = some x := fun hx => (hm _).mp hx
  refine
    { reach := ?_, once := ?_, count := card_of_full v.toIsTree v.full hm, down := ?_, up := ?_
      top := ?_, complete := ?_, order := ?_, peek_none := ?_, peek_min := ?_ }
  · intro x
    rw [hm]
    constructor
    · rintro ⟨p, hp⟩; exact ⟨_, (v.follow p).symm.trans hp⟩
    · rintro ⟨i, hi⟩
      obtain ⟨p, hp⟩ := levelOrder_surj i (v.full.range hi).1
      exact ⟨p, by rw [v.follow, hp, hi]⟩
  · intro p q x hp hq
    rw [v.follow] at hp hq
    exact levelOrder_inj p q (v.inj hp hq)
  · intro x hx y hy
    obtain ⟨i, hi⟩ := hat hx
    rw [v.left hi, v.right hi] at hy
    rcases hy with hy | hy
    · exact ⟨(hm y).mpr ⟨_, hy⟩, by rw [v.parent hy, ← hi]; congr 1; omega⟩
    · exact ⟨(hm y).mpr ⟨_, hy⟩, by rw [v.parent hy, ← hi]; congr 1; omega⟩
  · intro y hy x hx
    obtain ⟨i, hi⟩ := hat hy
    rw [v.parent hi] at hx
    refine ⟨(hm x).mpr ⟨_, hx⟩, ?_⟩
    rw [v.left hx, v.right hx]
    rcases (show i = 2 * (i / 2) ∨ i = 2 * (i / 2) + 1 by omega) with h2 | h2
    · exact .inl (by rw [← h2, hi])
    · exact .inr (by rw [← h2, hi])
  · intro x hx
    obtain ⟨i, hi⟩ := hat hx
    rw [v.parent hi, v.root]
    constructor
    · intro hn
      have h2 : ¬ 2 ≤ i := fun h2 => v.toIsTree.up h2 (by rw [hi]; simp) hn
      have := (v.full.range hi).1
      rw [show 1 = i by omega, hi]
    · intro h1
      rw [v.inj hi h1, show 1 / 2 = 0 by omega, v.zero]
  · intro p
    rw [v.follow, v.full]
    have := levelOrder_pos p
    omega
  · intro x hx y hy
    obtain ⟨i, hi⟩ := hat hx
    rw [v.left hi, v.right hi] at hy
    have hpos := (v.full.range hi).1
    rcases hy with hy | hy
    · exact not_lt.mpr (v.ordered _ (by omega) y x hy (by rw [← hi]; congr 1; omega))
    · exact not_lt.mpr (v.ordered _ (by omega) y x hy (by rw [← hi]; congr 1; omega))
  · rw [v.peek.1, Finset.eq_empty_iff_forall_notMem]
    constructor
    · intro hn x hx
      obtain ⟨i, hi⟩ := hat hx
      rw [hn] at hi; cases hi
    · intro hn i
      cases hx : a i with
      | none => rfl
      | some x => exact absurd ((hm x).mpr ⟨i, hx⟩) (hn x)
  · intro r hr
    obtain ⟨h1, hmin⟩ := v.peek.2 r hr
    refine ⟨(hm r).mpr ⟨1, h1⟩, fun x hx => ?_⟩
    obtain ⟨i, hi⟩ := hat hx
    exact hmin i x hi

variable [DecidableEq ν] (key)

/-- A heap and its nodes after some sequence of operations: a node is inserted only when it is
not in the heap, and removed only when it is. -/
inductive HeapHistory : Heap ν → Finset ν → Prop where
  | init (mem : ν → HeapNode ν) : HeapHistory (heapInit mem) ∅
  | insert {h h' : Heap ν} {members : Finset ν} {x : ν} : HeapHistory h members → x ∉ members →
      members.card + 1 < 2 ^ 32 - 1 → heapInsert (keyComparator key) h x = some h' →
      HeapHistory h' (insert x members)
  | remove {h h' : Heap ν} {members : Finset ν} {x : ν} {r : Option ν} : HeapHistory h members →
      x ∈ members → heapRemove (keyComparator key) h x = some (h', r) →
      HeapHistory h' (members.erase x)
  | pop {h h' : Heap ν} {members : Finset ν} {x : ν} : HeapHistory h members →
      heapPop (keyComparator key) h = some (h', some x) → HeapHistory h' (members.erase x)
  | popEmpty {h h' : Heap ν} {members : Finset ν} : HeapHistory h members →
      heapPop (keyComparator key) h = some (h', none) → HeapHistory h' members

variable {key}

/-- What every history keeps: the links are those of a complete tree in heap order. -/
theorem HeapHistory.valid {h : Heap ν} {members : Finset ν} (H : HeapHistory key h members) :
    ∃ a, HeapValid key h a ∧ (∀ x, x ∈ members ↔ ∃ i, a i = some x) ∧ h.size < 2 ^ 32 - 1 := by
  have hcmp : ∀ x y, keyComparator key x y = keyComparator key x y := fun _ _ => rfl
  induction H with
  | init mem => exact ⟨_, heapInit_valid mem, fun x => by simp, by simp [heapInit]⟩
  | @insert h h' members x _ hx hlt hi ih =>
    obtain ⟨a, v, hm, hsz⟩ := ih
    have hcard := card_of_full v.toIsTree v.full hm
    obtain ⟨h2, a2, hi2, v2, hz, hn⟩ := heapInsert_valid hcmp v (x := x)
      (fun i hi => hx ((hm x).mpr ⟨i, hi⟩)) (by omega)
    rw [hi2] at hi; cases hi
    refine ⟨a2, v2, fun y => ?_, by omega⟩
    rw [Finset.mem_insert, hn, hm]
  | @remove h h' members x r _ hx hr ih =>
    obtain ⟨a, v, hm, hsz⟩ := ih
    obtain ⟨i, hi⟩ := (hm x).mp hx
    obtain ⟨h2, a2, hr2, v2, hz, hn⟩ := heapRemove_valid hcmp v hi (by omega)
    rw [hr2] at hr; cases hr
    refine ⟨a2, v2, fun y => ?_, by omega⟩
    rw [Finset.mem_erase, hn, hm]
  | @pop h h' members x _ hp ih =>
    obtain ⟨a, v, hm, hsz⟩ := ih
    rcases heapPop_valid hcmp v (by omega) with ⟨_, hp2⟩ | ⟨x2, h2, a2, _, hp2, v2, hz, hn⟩
    · rw [hp2] at hp; cases hp
    · rw [hp2] at hp; cases hp
      refine ⟨a2, v2, fun y => ?_, by omega⟩
      rw [Finset.mem_erase, hn, hm]
  | @popEmpty h h' members _ hp ih =>
    obtain ⟨a, v, hm, hsz⟩ := ih
    rcases heapPop_valid hcmp v (by omega) with ⟨_, hp2⟩ | ⟨x2, h2, a2, _, hp2, v2, hz, hn⟩
    · rw [hp2] at hp; cases hp
      exact ⟨a, v, hm, hsz⟩
    · rw [hp2] at hp; cases hp

/-- **Every history of a heap.** After any sequence of operations the links form a binary heap of
the nodes inserted and not yet removed, and the next operation returns: it dereferences no NULL
pointer and its loops end. `heap_remove` returns the node it was given, and `heap_pop` the node
`heap_peek` shows. -/
theorem heap_history {h : Heap ν} {members : Finset ν} (H : HeapHistory key h members) :
    IsHeap key h members ∧
    (∀ x, x ∉ members → members.card + 1 < 2 ^ 32 - 1 →
      ∃ h', heapInsert (keyComparator key) h x = some h') ∧
    (∀ x ∈ members, ∃ h', heapRemove (keyComparator key) h x = some (h', some x)) ∧
    ∃ h', heapPop (keyComparator key) h = some (h', heapPeek h) := by
  have hcmp : ∀ x y, keyComparator key x y = keyComparator key x y := fun _ _ => rfl
  obtain ⟨a, v, hm, hsz⟩ := H.valid
  have heap := v.isHeap hm
  refine ⟨heap, ?_, ?_, ?_⟩
  · intro x hx hlt
    have := heap.count
    obtain ⟨h', _, hi, _⟩ := heapInsert_valid hcmp v (x := x)
      (fun i hi => hx ((hm x).mpr ⟨i, hi⟩)) (by omega)
    exact ⟨h', hi⟩
  · intro x hx
    obtain ⟨i, hi⟩ := (hm x).mp hx
    obtain ⟨h', _, hr, _⟩ := heapRemove_valid hcmp v hi (by omega)
    exact ⟨h', hr⟩
  · rcases heapPop_valid hcmp v (by omega) with ⟨hpeek, hp⟩ | ⟨x, h', _, hpeek, hp, _⟩
    · exact ⟨h, by rw [hp, hpeek]⟩
    · exact ⟨h', by rw [hp, hpeek]⟩

/-- Three nodes with a tie, the middle one removed again. -/
theorem heap_history_three :
    ∃ h : Heap Nat, HeapHistory (fun x : Nat => x / 2) h {0, 2} ∧ IsHeap (fun x => x / 2) h {0, 2} := by
  have H0 : HeapHistory (fun x : Nat => x / 2) _ _ := .init fun _ => ⟨none, none, none⟩
  have H1 := H0.insert (x := 2) (by decide) (by decide) rfl
  have H2 := H1.insert (x := 1) (by decide) (by decide) rfl
  have H3 := H2.insert (x := 0) (by decide) (by decide) rfl
  have H4 := H3.remove (x := 1) (by decide) rfl
  exact ⟨_, H4, (heap_history H4).1⟩

end Pandio
