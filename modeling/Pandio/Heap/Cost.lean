import Mathlib.Data.Nat.Log
import Pandio.Heap.History

/- How often an operation of a heap calls the comparator. The lists below are the calls
   that `heap_insert` and `heap_remove` make, in their order; the functions they are
   read off are those of Model. Nothing is assumed of the comparator but that the heap
   is one by it: the bounds are those of the shape, a complete tree. -/
namespace Pandio
open LevelOrder

variable {ν : Type}

/-! ## The calls -/

section
variable [DecidableEq ν] (cmp : ν → ν → Int)

/-- The calls of `siftUp`. -/
def siftUpCalls (test : Int → Bool) : (fuel : Nat) → Heap ν → ν → List (ν × ν)
  | 0, _, _ => []
  | fuel + 1, h, node =>
    match (h.mem node).parent with
    | none => []
    | some parent =>
      (node, parent) ::
        if test (cmp node parent) then siftUpCalls test fuel (heapSwap h node parent) node else []

/-- The call of `swapNode`, if there are two children. -/
def swapNodeCalls (h : Heap ν) (last : ν) : List (ν × ν) :=
  match (h.mem last).left, (h.mem last).right with
  | some l, some r => [(l, r)]
  | _, _ => []

/-- The calls of `siftDown`. -/
def siftDownCalls : (fuel : Nat) → Heap ν → ν → List (ν × ν)
  | 0, _, _ => []
  | fuel + 1, h, last =>
    swapNodeCalls h last ++
      match swapNode cmp h last with
      | none => []
      | some swap =>
        (last, swap) ::
          if cmp last swap ≠ 0 then [] else siftDownCalls fuel (heapSwap h swap last) last

/-- The calls of `heap_insert`. -/
def heapInsertCalls (h : Heap ν) (newnode : ν) : List (ν × ν) :=
  match h.root with
  | none => []
  | some root =>
    let path := pathBits 32 ((h.size + 1) % 2 ^ 32) 0 0
    match walk h (path.2 - 1) path.1 root with
    | none => []
    | some last =>
      let h := heapAttach h last newnode
      siftUpCalls cmp (fun c => 0 < c) h.size h newnode

/-- The calls of `heap_remove`. -/
def heapRemoveCalls (h : Heap ν) (rnode : ν) : List (ν × ν) :=
  match h.root with
  | none => []
  | some root =>
    if h.size = 1 then []
    else
      let path := pathBits 32 (h.size % 2 ^ 32) 0 0
      match walk h path.2 path.1 root with
      | none => []
      | some last =>
        let h := h.setSize (h.size - 1)
        let h := h.relink (h.mem last).parent last none
        if last = rnode then []
        else
          let h := heapReplace h rnode last
          siftDownCalls cmp (h.size + 1) h last ++
            ((siftDown cmp (h.size + 1) h last).map fun h =>
              siftUpCalls cmp (fun c => c ≠ 0) (h.size + 1) h last).getD []

end

/-! ## The calls are all there is to the comparator -/

section
variable [DecidableEq ν] {cmp cmp' : ν → ν → Int}

/-- The comparators answer alike in these calls. -/
def SameAnswers (cmp cmp' : ν → ν → Int) (l : List (ν × ν)) : Prop :=
  ∀ p ∈ l, cmp' p.1 p.2 = cmp p.1 p.2

omit [DecidableEq ν] in
theorem SameAnswers.append {l m : List (ν × ν)} (hs : SameAnswers cmp cmp' (l ++ m)) :
    SameAnswers cmp cmp' l ∧ SameAnswers cmp cmp' m :=
  ⟨fun p hp => hs p (List.mem_append_left m hp), fun p hp => hs p (List.mem_append_right l hp)⟩

theorem siftUp_same {test : Int → Bool} {x : ν} :
    ∀ (fuel : Nat) (h : Heap ν), SameAnswers cmp cmp' (siftUpCalls cmp test fuel h x) →
      siftUp cmp' test fuel h x = siftUp cmp test fuel h x := by
  intro fuel
  induction fuel with
  | zero => intro h _; rfl
  | succ fuel ih =>
    intro h hs
    rw [siftUpCalls] at hs
    rw [siftUp, siftUp]
    cases hp : (h.mem x).parent with
    | none => rfl
    | some p =>
      rw [hp] at hs
      have hcmp : cmp' x p = cmp x p := hs (x, p) (List.mem_cons_self ..)
      simp only [hcmp]
      by_cases ht : test (cmp x p) = true
      · rw [if_pos ht, if_pos ht]
        refine ih _ fun q hq => hs q (List.mem_cons_of_mem _ ?_)
        rwa [if_pos ht]
      · rw [if_neg ht, if_neg ht]

omit [DecidableEq ν] in
theorem swapNode_same {h : Heap ν} {x : ν} (hs : SameAnswers cmp cmp' (swapNodeCalls h x)) :
    swapNode cmp' h x = swapNode cmp h x := by
  unfold swapNode
  unfold swapNodeCalls at hs
  cases hl : (h.mem x).left with
  | none => cases (h.mem x).right <;> rfl
  | some l =>
    cases hr : (h.mem x).right with
    | none => rfl
    | some r =>
      rw [hl, hr] at hs
      have hcmp : cmp' l r = cmp l r := hs (l, r) (List.mem_cons_self ..)
      simp only [hcmp]

theorem siftDown_same {x : ν} :
    ∀ (fuel : Nat) (h : Heap ν), SameAnswers cmp cmp' (siftDownCalls cmp fuel h x) →
      siftDown cmp' fuel h x = siftDown cmp fuel h x := by
  intro fuel
  induction fuel with
  | zero => intro h _; rfl
  | succ fuel ih =>
    intro h hs
    rw [siftDownCalls] at hs
    obtain ⟨hswap, hs⟩ := hs.append
    rw [siftDown, siftDown, swapNode_same hswap]
    cases hc : swapNode cmp h x with
    | none => rfl
    | some c =>
      rw [hc] at hs
      have hcmp : cmp' x c = cmp x c := hs (x, c) (List.mem_cons_self ..)
      simp only [hcmp]
      by_cases ht : cmp x c ≠ 0
      · rw [if_pos ht, if_pos ht]
      · rw [if_neg ht, if_neg ht]
        refine ih _ fun q hq => hs q (List.mem_cons_of_mem _ ?_)
        rwa [if_neg ht]

/-- What `heap_insert` does depends on the comparator only in its calls. -/
theorem heapInsert_same {h : Heap ν} {x : ν} (hs : SameAnswers cmp cmp' (heapInsertCalls cmp h x)) :
    heapInsert cmp' h x = heapInsert cmp h x := by
  rw [heapInsertCalls] at hs
  rw [heapInsert, heapInsert]
  cases hroot : h.root with
  | none => rfl
  | some r =>
    rw [hroot] at hs
    simp only [Option.bind_eq_bind] at hs ⊢
    cases hw : walk h ((pathBits 32 ((h.size + 1) % 2 ^ 32) 0 0).2 - 1)
        (pathBits 32 ((h.size + 1) % 2 ^ 32) 0 0).1 r with
    | none => rfl
    | some last =>
      rw [hw] at hs
      exact siftUp_same _ _ hs

/-- So does what `heap_remove` does. -/
theorem heapRemove_same {h : Heap ν} {x : ν} (hs : SameAnswers cmp cmp' (heapRemoveCalls cmp h x)) :
    heapRemove cmp' h x = heapRemove cmp h x := by
  rw [heapRemoveCalls] at hs
  rw [heapRemove, heapRemove]
  cases hroot : h.root with
  | none => rfl
  | some r =>
    rw [hroot] at hs
    by_cases h1 : h.size = 1
    · simp only [if_pos h1]
    simp only [if_neg h1, Option.bind_eq_bind] at hs ⊢
    cases hw : walk h (pathBits 32 (h.size % 2 ^ 32) 0 0).2 (pathBits 32 (h.size % 2 ^ 32) 0 0).1
        r with
    | none => rfl
    | some last =>
      rw [hw] at hs
      simp only [Option.bind_some] at hs ⊢
      by_cases hlx : last = x
      · rw [if_pos hlx, if_pos hlx]
      rw [if_neg hlx] at hs
      obtain ⟨hdown, hup⟩ := hs.append
      rw [if_neg hlx, if_neg hlx, siftDown_same _ _ hdown]
      cases hd : siftDown cmp _ _ last with
      | none => rfl
      | some h' =>
        rw [hd, Option.map_some, Option.getD_some] at hup
        rw [Option.bind_some, Option.bind_some, siftUp_same _ _ hup]

end

/-! ## Depth -/

/-- The parent of a position is one level above it. -/
theorem log_parent {i : Nat} (h2 : 2 ≤ i) : Nat.log 2 i = Nat.log 2 (i / 2) + 1 :=
  Nat.log_of_one_lt_of_le (by decide) h2

theorem log_child {i k : Nat} (h2 : 2 ≤ k) (hk : k / 2 = i) : Nat.log 2 k = Nat.log 2 i + 1 := by
  rw [log_parent h2, hk]

/-! ## The sifts -/

section
variable [DecidableEq ν] {cmp : ν → ν → Int}

/-- Sifting up from position `i` compares at most once a level. -/
theorem siftUpCalls_le {test : Int → Bool} {x : ν} :
    ∀ (fuel i : Nat) (h : Heap ν) (a : Nat → Option ν), Layout h a → a i = some x →
      (siftUpCalls cmp test fuel h x).length ≤ Nat.log 2 i := by
  intro fuel
  induction fuel with
  | zero => intro i h a _ _; exact Nat.zero_le _
  | succ fuel ih =>
    intro i h a l hx
    rw [siftUpCalls, l.parent hx]
    cases hp : a (i / 2) with
    | none => exact Nat.zero_le _
    | some p =>
      have h2 : 2 ≤ i := by
        have := l.toIsTree.pos hp
        omega
      have hlog := log_parent h2
      simp only [List.length_cons]
      split
      · have hrest := ih (i / 2) _ _ (l.swap h2 hx hp) (by rw [swapAt_right, hx])
        omega
      · simp only [List.length_nil]
        omega

/-- A node that does not belong above its parent is compared once. -/
theorem siftUpCalls_stop {test : Int → Bool} {fuel : Nat} {h : Heap ν} {x p : ν}
    (hp : (h.mem x).parent = some p) (ht : test (cmp x p) = false) :
    (siftUpCalls cmp test fuel h x).length ≤ 1 := by
  cases fuel with
  | zero => exact Nat.zero_le _
  | succ fuel => simp [siftUpCalls, hp, ht]

variable (cmp) in
omit [DecidableEq ν] in
/-- The node that `siftDown` compares with is a child, and two calls are enough for a round. -/
theorem swapNode_child {h : Heap ν} {a : Nat → Option ν} (l : Layout h a) {i : Nat} {x : ν}
    (hx : a i = some x) :
    swapNode cmp h x = none ∧ swapNodeCalls h x = [] ∨
      ∃ k c, swapNode cmp h x = some c ∧ 2 ≤ k ∧ k / 2 = i ∧ a k = some c ∧
        (swapNodeCalls h x).length ≤ 1 := by
  have hpos := l.toIsTree.pos hx
  simp only [swapNode, swapNodeCalls, l.left hx, l.right hx]
  cases hl : a (2 * i) with
  | none =>
    cases hr : a (2 * i + 1) with
    | none => exact .inl ⟨rfl, rfl⟩
    | some r => exact .inr ⟨2 * i + 1, r, rfl, by omega, by omega, hr, by simp⟩
  | some c =>
    cases hr : a (2 * i + 1) with
    | none => exact .inr ⟨2 * i, c, rfl, by omega, by omega, hl, by simp⟩
    | some r =>
      by_cases hc : cmp c r ≠ 0
      · exact .inr ⟨2 * i, c, if_pos hc, by omega, by omega, hl, by simp⟩
      · exact .inr ⟨2 * i + 1, r, if_neg hc, by omega, by omega, hr, by simp⟩

/-- What sifting down from position `i` of the tree `a` comes to: the node ends at position `j`, where
it started or under a node that it does not belong above. -/
structure SiftedDown (cmp : ν → ν → Int) (a a' : Nat → Option ν) (i j : Nat) (x : ν) : Prop where
  at_ : a' j = some x
  le : i ≤ j
  moved : j = i ∧ a' = a ∨ ∃ c, a' (j / 2) = some c ∧ cmp x c = 0

variable (cmp) in
/-- Sifting down from position `i` of a tree of `n` nodes compares at most twice a level below it;
a node that stays is compared in one round only, and not if it is a leaf. -/
theorem siftDownCalls_le {x : ν} {n : Nat} :
    ∀ (fuel i : Nat) (h : Heap ν) (a : Nat → Option ν), Layout h a → (∀ k, a k ≠ none → k ≤ n) →
      a i = some x → n < fuel + i →
      ∃ h' a' j, siftDown cmp fuel h x = some h' ∧ Layout h' a' ∧ (∀ k, a' k ≠ none → k ≤ n) ∧
        SiftedDown cmp a a' i j x ∧
        (siftDownCalls cmp fuel h x).length + 2 * Nat.log 2 i ≤ 2 * Nat.log 2 n ∧
        (j = i → (siftDownCalls cmp fuel h x).length ≤ 2) := by
  intro fuel
  induction fuel with
  | zero =>
    intro i h a _ hn hx hlt
    have := hn i (by rw [hx]; simp)
    omega
  | succ fuel ih =>
    intro i h a l hn hx hlt
    have hle : Nat.log 2 i ≤ Nat.log 2 n := Nat.log_mono_right (hn i (by rw [hx]; simp))
    rw [siftDown, siftDownCalls]
    rcases swapNode_child cmp l hx with ⟨hs, hcalls⟩ | ⟨k, c, hs, hk2, hki, hc, hone⟩
    · -- a leaf
      rw [hs, hcalls]
      exact ⟨h, a, i, rfl, l, hn, ⟨hx, le_refl i, .inl ⟨rfl, rfl⟩⟩, by simpa using hle, by simp⟩
    · have hlog := log_child hk2 hki
      have hlek : Nat.log 2 k ≤ Nat.log 2 n := Nat.log_mono_right (hn k (by rw [hc]; simp))
      rw [hs]
      simp only [List.length_append, List.length_cons]
      by_cases hmove : cmp x c ≠ 0
      · rw [if_pos hmove, if_pos hmove]
        refine ⟨h, a, i, rfl, l, hn, ⟨hx, le_refl i, .inl ⟨rfl, rfl⟩⟩, ?_, fun _ => ?_⟩ <;>
          · simp only [List.length_nil]
            omega
      · rw [if_neg hmove, if_neg hmove]
        have hzero : cmp x c = 0 := not_not.mp hmove
        have l' := l.swap hk2 hc (by rw [hki]; exact hx)
        rw [hki] at l'
        have hn' : ∀ m, swapAt a k i m ≠ none → m ≤ n := fun m hm =>
          hn m ((swapAt_ne_none (by rw [hc]; simp) (by rw [hx]; simp) m).mp hm)
        obtain ⟨h', a', j, hd, hl, hshape, hsift, hbound, _⟩ :=
          ih k _ _ l' hn' (by rw [swapAt_left, hx]) (by omega)
        have hkj := hsift.le
        refine ⟨h', a', j, hd, hl, hshape, ⟨hsift.at_, by omega, .inr ?_⟩, by omega, fun hj => by omega⟩
        rcases hsift.moved with ⟨rfl, rfl⟩ | hparent
        · exact ⟨c, by rw [hki, swapAt_right, hc], hzero⟩
        · exact hparent

end

/-! ## The operations -/

section
variable [DecidableEq ν] {κ : Type} [LinearOrder κ] {key : ν → κ} {cmp : ν → ν → Int}

/-- The walk of `heap_insert` ends at the node that gets the new one as a child. -/
theorem HeapValid.attach {h : Heap ν} {a : Nat → Option ν} (v : HeapValid key h a) {r x : ν}
    (hroot : h.root = some r) (hx : ∀ i, a i ≠ some x) (h32 : h.size + 1 < 2 ^ 32) :
    ∃ last, walk h ((pathBits 32 (h.size + 1) 0 0).2 - 1) (pathBits 32 (h.size + 1) 0 0).1 r =
        some last ∧
      Layout (heapAttach h last x) (Function.update a (h.size + 1) (some x)) := by
  have hr : a 1 = some r := by rw [← v.root, hroot]
  have hpos := (v.full.range hr).2
  obtain ⟨last, hlast⟩ := v.full.get (i := (h.size + 1) / 2) (by omega) (by omega)
  have hwalk := v.toLayout.walk_insert v.full hroot h32
  rw [hlast] at hwalk
  have hside : a (2 * ((h.size + 1) / 2)) = none ↔ h.size + 1 = 2 * ((h.size + 1) / 2) := by
    constructor
    · intro hn
      by_contra hne
      exact (v.full _).mpr ⟨by omega, by omega⟩ hn
    · intro he
      rw [← he]
      exact v.full.beyond (by omega)
  exact ⟨last, hwalk, v.toLayout.attach (by omega) hlast hside
    ⟨v.full.beyond (by omega), v.full.beyond (by omega)⟩ hx⟩

/-- `heap_insert` compares at most once for each level of the new node's place. -/
theorem heapInsertCalls_le {h : Heap ν} {a : Nat → Option ν} (v : HeapValid key h a) {x : ν}
    (hx : ∀ i, a i ≠ some x) (h32 : h.size + 1 < 2 ^ 32) :
    (heapInsertCalls cmp h x).length ≤ Nat.log 2 (h.size + 1) := by
  rw [heapInsertCalls]
  cases hroot : h.root with
  | none => exact Nat.zero_le _
  | some r =>
    obtain ⟨last, hwalk, l⟩ := v.attach hroot hx h32
    simp only [Nat.mod_eq_of_lt h32, hwalk]
    exact siftUpCalls_le _ _ _ _ l (Function.update_self ..)

/-- `heap_remove` walks to the last node, which then stands at the place of the removed one. -/
theorem HeapValid.replace {h : Heap ν} {a : Nat → Option ν} (v : HeapValid key h a) {r x : ν}
    {i : Nat} (hroot : h.root = some r) (hx : a i = some x) (h2 : 2 ≤ h.size)
    (h32 : h.size < 2 ^ 32) : ∃ last,
    walk h (pathBits 32 h.size 0 0).2 (pathBits 32 h.size 0 0).1 r = some last ∧
    (last ≠ x → i ≤ h.size - 1 ∧
      (∀ k, Function.update (Function.update a h.size none) i (some last) k ≠ none →
        k ≤ h.size - 1) ∧
      Layout
      (heapReplace ((h.setSize (h.size - 1)).relink (h.mem last).parent last none) x last)
      (Function.update (Function.update a h.size none) i (some last))) := by
  have hr : a 1 = some r := by rw [← v.root, hroot]
  have hi := v.full.range hx
  have hpath := pathBits_path h.size (by omega) h32
  obtain ⟨last, hlast⟩ := v.full.get (i := h.size) (by omega) (le_refl _)
  have hwalk := v.toLayout.walk (pathBits 32 h.size 0 0).2 1 (pathBits 32 h.size 0 0).1 r
    (le_refl 1) hr (by rw [hpath, hlast]; simp)
  rw [hpath, hlast] at hwalk
  refine ⟨last, hwalk, fun hne => ?_⟩
  have hin : i ≠ h.size := by
    rintro rfl
    rw [hlast] at hx
    cases hx
    exact hne rfl
  have v1 := heapRemove_last v h2 hlast
  have n1 := names_drop v.toIsTree hlast
  have f2 := v1.full
  rw [Heap.relink_size, Heap.setSize_size] at f2
  have f3 := f2.rename (x := last) (i := i) (by omega) (by omega)
  exact ⟨by omega, fun k hk => ((f3 k).mp hk).2, v1.toLayout.replace
    (by rw [Function.update_of_ne hin, hx]) fun j hj => ((n1 last).mp ⟨j, hj⟩).1 rfl⟩

/-- `heap_remove` compares at most twice for each level of what is left, and once more. -/
theorem heapRemoveCalls_le {h : Heap ν} {a : Nat → Option ν} (v : HeapValid key h a) {x : ν} {i : Nat}
    (hx : a i = some x) (h32 : h.size < 2 ^ 32) :
    (heapRemoveCalls cmp h x).length ≤ 2 * Nat.log 2 (h.size - 1) + 1 := by
  rw [heapRemoveCalls]
  cases hroot : h.root with
  | none => exact Nat.zero_le _
  | some r =>
    have hi := v.full.range hx
    by_cases h1 : h.size = 1
    · simp [h1]
    obtain ⟨last, hwalk, hrest⟩ := v.replace hroot hx (by omega) h32
    simp only [if_neg h1, Nat.mod_eq_of_lt h32, hwalk]
    by_cases hlx : last = x
    · simp [hlx]
    obtain ⟨hle, hshape, l⟩ := hrest hlx
    rw [if_neg hlx]
    obtain ⟨h', a', j, hd, l', hn', hsift, hbound, hstay⟩ := siftDownCalls_le cmp
      (h.size - 1 + 1) i _ _ l hshape (Function.update_self ..) (by omega)
    simp only [heapReplace_size, Heap.relink_size, Heap.setSize_size, List.length_append,
      Heap.setSize_mem] at hd ⊢
    rw [hd, Option.map_some, Option.getD_some]
    rcases hsift.moved with ⟨rfl, rfl⟩ | ⟨c, hc, hzero⟩
    · -- it stays, and may move up
      have hup : (siftUpCalls cmp (fun c => c ≠ 0) (h'.size + 1) h' last).length ≤ Nat.log 2 j :=
        siftUpCalls_le _ _ _ _ l' hsift.at_
      have := hstay rfl
      omega
    · have hup : (siftUpCalls cmp (fun c => c ≠ 0) (h'.size + 1) h' last).length ≤ 1 :=
        siftUpCalls_stop ((l'.parent hsift.at_).trans hc) (by simp [hzero])
      omega

variable {h : Heap ν} {members : Finset ν}

/-- **Comparisons.** After any history, inserting into a heap of `n` nodes calls the comparator at
most `log₂ (n + 1)` times, and removing a node at most `2 * log₂ (n - 1) + 1` times; a comparator
that answers these calls alike gives the same heap. -/
theorem heap_comparisons (H : HeapHistory key h members) :
    (∀ x, x ∉ members → members.card + 1 < 2 ^ 32 - 1 →
      (heapInsertCalls (keyComparator key) h x).length ≤ Nat.log 2 (members.card + 1) ∧
      ∀ cmp, SameAnswers (keyComparator key) cmp (heapInsertCalls (keyComparator key) h x) →
        heapInsert cmp h x = heapInsert (keyComparator key) h x) ∧
    ∀ x ∈ members,
      (heapRemoveCalls (keyComparator key) h x).length ≤ 2 * Nat.log 2 (members.card - 1) + 1 ∧
      ∀ cmp, SameAnswers (keyComparator key) cmp (heapRemoveCalls (keyComparator key) h x) →
        heapRemove cmp h x = heapRemove (keyComparator key) h x := by
  obtain ⟨a, v, hm, hsz⟩ := H.valid
  have hcard := card_of_full v.toIsTree v.full hm
  rw [hcard]
  constructor
  · intro x hx hlt
    exact ⟨heapInsertCalls_le v (fun i hi => hx ((hm x).mpr ⟨i, hi⟩)) (by omega),
      fun _ => heapInsert_same⟩
  · intro x hx
    obtain ⟨i, hi⟩ := (hm x).mp hx
    exact ⟨heapRemoveCalls_le v hi (by omega), fun _ => heapRemove_same⟩

/-- Four nodes: the last one is compared at both levels on its way up. -/
theorem heap_comparisons_four : ∃ h : Heap Nat,
    HeapHistory (fun x : Nat => 9 - x) h {3, 2, 1} ∧
    (heapInsertCalls (keyComparator fun x : Nat => 9 - x) h 4).length = 2 ∧
    (heapInsertCalls (keyComparator fun x : Nat => 9 - x) h 4).length ≤ Nat.log 2 4 := by
  have H0 : HeapHistory (fun x : Nat => 9 - x) _ _ := .init fun _ => ⟨none, none, none⟩
  have H1 := H0.insert (x := 1) (by decide) (by decide) rfl
  have H2 := H1.insert (x := 2) (by decide) (by decide) rfl
  have H3 := H2.insert (x := 3) (by decide) (by decide) rfl
  exact ⟨_, H3, rfl, ((heap_comparisons H3).1 4 (by decide) (by decide)).1⟩

end

end Pandio
