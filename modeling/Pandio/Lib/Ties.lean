import Pandio.Lib.LevelOrder

/- Names of equal keys in a binary heap. The order along the edges says nothing about
   them, so which of two ties comes to the root first depends on which of them stands
   above the other. For a relation that some ties have, `Respects` says that no name
   stands above one to which it has the relation; this file proves when the two sifts
   keep that. Sifting up does, if no name above has the relation to the one that goes
   up. Sifting down may break it, at a name of equal key in the branch that is not
   taken; it does not where `RightsClear` and `BranchClear` hold. -/
namespace LevelOrder

/-! ## Branches -/

/-- Position `j` is `i` or below it. -/
inductive Under (i : Nat) : Nat → Prop where
  | refl : Under i i
  | step {j : Nat} : 2 ≤ j → Under i (j / 2) → Under i j

namespace Under

variable {i j k : Nat}

theorem le (h : Under i j) : i ≤ j := by
  induction h with
  | refl => exact le_refl i
  | step _ _ ih => omega

theorem trans (h : Under i j) (h' : Under j k) : Under i k := by
  induction h' with
  | refl => exact h
  | step h2 _ ih => exact .step h2 ih

/-- What is below a position and not there has its parent below it. -/
theorem parent (h : Under i j) (hne : i ≠ j) : 2 ≤ j ∧ Under i (j / 2) := by
  cases h with
  | refl => exact absurd rfl hne
  | step h2 h => exact ⟨h2, h⟩

theorem child (h2 : 2 ≤ j) : Under (j / 2) j := .step h2 .refl

/-- What is below a position is below its left child or its right one. -/
theorem side (h : Under i j) (hne : i ≠ j) :
    ∃ s, s / 2 = i ∧ 2 ≤ s ∧ Under s j := by
  induction h with
  | refl => exact absurd rfl hne
  | @step j h2 h ih =>
    by_cases hj : i = j / 2
    · exact ⟨j, hj.symm, h2, .refl⟩
    · obtain ⟨s, hs, hs2, hu⟩ := ih hj
      exact ⟨s, hs, hs2, .step h2 hu⟩

theorem root (hj : 1 ≤ j) : Under 1 j := by
  induction j using Nat.strongRecOn with
  | ind j ih =>
    by_cases h1 : j = 1
    · exact h1 ▸ .refl
    · exact .step (by omega) (ih (j / 2) (by omega) (by omega))

theorem iff_div : Under i j ↔ i = j ∨ 1 ≤ i ∧ ∃ k ≤ j, j / 2 ^ (k + 1) = i := by
  constructor
  · intro h
    induction h with
    | refl => exact .inl rfl
    | @step j h2 h ih =>
      rcases ih with rfl | ⟨h1, k, hk, he⟩
      · exact .inr ⟨by omega, 0, by omega, by simp⟩
      · refine .inr ⟨h1, k + 1, by omega, ?_⟩
        rw [← he, Nat.div_div_eq_div_mul, ← Nat.pow_succ']
  · rintro (rfl | ⟨h1, k, -, he⟩)
    · exact .refl
    · induction k generalizing j with
      | zero => exact .step (by omega) (by rw [← he]; simpa using .refl)
      | succ k ih =>
        have hd : j / 2 / 2 ^ (k + 1) = i := by
          rw [Nat.div_div_eq_div_mul, ← Nat.pow_succ']
          exact he
        have h2 : 2 ≤ j := by
          by_contra hlt
          have hz : j / 2 = 0 := by omega
          rw [hz, Nat.zero_div] at hd
          omega
        exact .step h2 (ih hd)

instance : Decidable (Under i j) :=
  decidable_of_iff (i = j ∨ 1 ≤ i ∧ ∃ k ≤ j, j / 2 ^ (k + 1) = i) iff_div.symm

end Under

section
variable {ν κ : Type} [LinearOrder κ] {key : ν → κ} {a a' : Nat → Option ν} {i j s : Nat}
  {p r v : ν}

/-- A tree is closed upwards. -/
theorem IsTree.under (t : IsTree a) (h : Under i j) (hj : a j ≠ none) : a i ≠ none := by
  induction h with
  | refl => exact hj
  | step h2 _ ih => exact ih (t.up h2 hj)

/-- With the edge into `i` open, what is below the parent of `i`, but for `i`, has its key or a
larger one. -/
theorem UpOrder.under (o : UpOrder key a i) (t : IsTree a) (hi : 2 ≤ i) (hp : a (i / 2) = some p)
    (h : Under (i / 2) j) (hne : j ≠ i) (hv : a j = some v) : key p ≤ key v := by
  induction h generalizing v with
  | refl =>
    rw [hp] at hv
    cases hv
    exact le_refl _
  | @step j h2 h ih =>
    obtain ⟨y, hy⟩ := Option.ne_none_iff_exists'.mp (t.up h2 (by rw [hv]; simp))
    by_cases hk : j / 2 = i
    · exact o.grand hi j v p hk hv hp
    · exact (ih hk hy).trans (o.off j h2 hne v y hv hy)

/-- With the edges at `i` open, what is below a child of `i` has its key or a larger one. -/
theorem DownOrder.under (o : DownOrder key a i) (t : IsTree a) (hs : s / 2 = i) (hs2 : 2 ≤ s)
    (hr : a s = some r) (h : Under s j) (hv : a j = some v) : key r ≤ key v := by
  induction h generalizing v with
  | refl =>
    rw [hr] at hv
    cases hv
    exact le_refl _
  | @step j h2 h ih =>
    obtain ⟨y, hy⟩ := Option.ne_none_iff_exists'.mp (t.up h2 (by rw [hv]; simp))
    have hle := h.le
    exact (ih hy).trans (o.off j h2 (by omega) (by omega) v y hv hy)

end

/-! ## The sifts -/

section
variable {ν κ : Type} [LinearOrder κ] (key : ν → κ) (x : ν)

/-- The name `x` goes from position `i` of the first tree to position `j` of the second, past
parents of larger key. -/
inductive SiftsUp : (Nat → Option ν) → Nat → (Nat → Option ν) → Nat → Prop where
  | stop {a : Nat → Option ν} {i : Nat} : SiftsUp a i a i
  | up {a a' : Nat → Option ν} {i j : Nat} {p : ν} : 2 ≤ i → a (i / 2) = some p →
      key x < key p → SiftsUp (swapAt a i (i / 2)) (i / 2) a' j → SiftsUp a i a' j

/-- The name `x` goes from position `i` of the first tree to position `j` of the second, where all
children have larger keys, past children of smallest key, the right one if both have it. -/
inductive SiftsDown : (Nat → Option ν) → Nat → (Nat → Option ν) → Nat → Prop where
  | stop {a : Nat → Option ν} {i : Nat} :
      (∀ s y, s / 2 = i → 2 ≤ s → a s = some y → key x < key y) → SiftsDown a i a i
  | down {a a' : Nat → Option ν} {i j k : Nat} {c : ν} : 2 ≤ k → k / 2 = i → a k = some c →
      (∀ s y, s / 2 = i → 2 ≤ s → a s = some y → key c ≤ key y) →
      (k = 2 * i → ∀ y, a (2 * i + 1) = some y → key c < key y) →
      SiftsDown (swapAt a k i) k a' j → SiftsDown a i a' j

/-- A complete tree of `n` names without the one at position `i`: the last name takes its place and
is sifted down and up. -/
inductive Removes (a : Nat → Option ν) (n i : Nat) : (Nat → Option ν) → Prop where
  | last : i = n → Removes a n i (Function.update a n none)
  | sift {l : ν} {a1 a2 : Nat → Option ν} {j k : Nat} : i ≠ n → a n = some l →
      SiftsDown key l (Function.update (Function.update a n none) i (some l)) i a1 j →
      SiftsUp key l a1 j a2 k → Removes a n i a2

end

section
variable {ν κ : Type} [LinearOrder κ] {key : ν → κ} {x : ν} {a a' : Nat → Option ν} {i j : Nat}

/-- After sifting down only the edge into the name may be open. -/
theorem SiftsDown.upOrder (s : SiftsDown key x a i a' j) (t : IsTree a) (o : DownOrder key a i)
    (hx : a i = some x) : IsTree a' ∧ UpOrder key a' j ∧ a' j = some x := by
  induction s with
  | stop hs =>
    refine ⟨t, o.finish fun j hj hji u v hu hv => ?_, hx⟩
    rw [hji, hx] at hv
    cases hv
    exact (hs j u hji hj hu).le
  | down hk hki hc hmin _ _ ih =>
    exact ih (t.swapAt (by rw [hc]; simp) (by rw [hx]; simp)) (o.move hk hki hc hmin)
      (by rw [swapAt_left, hx])

end

/-! ## Ties -/

section
variable {ν : Type} (R : ν → ν → Prop)

/-- No name stands above one to which it has the relation. -/
def Respects (a : Nat → Option ν) : Prop :=
  ∀ i j u v, Under i j → a i = some u → a j = some v → ¬ R u v

/-- None but the one at position `i`. -/
def RespectsBut (a : Nat → Option ν) (i : Nat) : Prop :=
  ∀ p j u v, p ≠ i → Under p j → a p = some u → a j = some v → ¬ R u v

/-- From position `i` downwards, no right child has the relation to a name in the left branch. -/
def RightsClear (a : Nat → Option ν) (i : Nat) : Prop :=
  ∀ q j r v, Under i q → Under (2 * q) j → a (2 * q + 1) = some r → a j = some v → ¬ R r v

/-- No name above or below position `i` has the relation to `x`. -/
def BranchClear (a : Nat → Option ν) (i : Nat) (x : ν) : Prop :=
  ∀ p u, Under p i ∨ Under i p → a p = some u → ¬ R u x

variable {R} {κ : Type} [LinearOrder κ] {key : ν → κ} (hR : ∀ u v, R u v → key u = key v)
  {a a' : Nat → Option ν} {i j : Nat} {x : ν}
include hR

theorem not_of_lt {u v : ν} (h : key u < key v) : ¬ R u v := fun hr => absurd (hR u v hr) (ne_of_lt h)

/-- **Sifting up** keeps what is respected, if no name above has the relation to the one that goes
up. -/
theorem SiftsUp.respects (s : SiftsUp key x a i a' j) (t : IsTree a) (o : UpOrder key a i)
    (hx : a i = some x) (h : Respects R a) (hup : ∀ p u, Under p i → a p = some u → ¬ R u x) :
    Respects R a' := by
  induction s with
  | stop => exact h
  | @up a a' i j y h2 hy hlt _ ih =>
    have self := hup i x .refl hx
    refine ih (t.swapAt (by rw [hx]; simp) (by rw [hy]; simp)) (o.move h2 hx hy hlt)
      (by rw [swapAt_right, hx]) ?_ ?_
    · intro p j u v hu hp hv
      by_cases hpq : p = i / 2
      · -- `x` is above what was below the parent
        subst hpq
        rw [swapAt_right, hx] at hp
        cases hp
        by_cases hji : j = i
        · subst hji
          rw [swapAt_left, hy] at hv
          cases hv
          exact not_of_lt hR hlt
        · by_cases hjq : j = i / 2
          · rw [hjq, swapAt_right, hx] at hv
            cases hv
            exact self
          · rw [swapAt_other a hji hjq] at hv
            exact not_of_lt hR (hlt.trans_le (o.under t h2 hy hu hji hv))
      · by_cases hpi : p = i
        · -- the parent has fewer names below it
          subst hpi
          rw [swapAt_left, hy] at hp
          cases hp
          by_cases hji : j = p
          · rw [hji, swapAt_left, hy] at hv
            cases hv
            exact h _ _ y y .refl hy hy
          · have hle := hu.le
            rw [swapAt_other a hji (by omega)] at hv
            exact h _ _ y v ((Under.child h2).trans hu) hy hv
        · rw [swapAt_other a hpi hpq] at hp
          by_cases hji : j = i
          · subst hji
            rw [swapAt_left, hy] at hv
            cases hv
            exact h p _ u y (hu.parent hpi).2 hp hy
          · by_cases hjq : j = i / 2
            · subst hjq
              rw [swapAt_right, hx] at hv
              cases hv
              exact hup p u (hu.trans (.child h2)) hp
            · rw [swapAt_other a hji hjq] at hv
              exact h p j u v hu hp hv
    · intro p u hu hp
      by_cases hpq : p = i / 2
      · rw [hpq, swapAt_right, hx] at hp
        cases hp
        exact self
      · have hle := hu.le
        rw [swapAt_other a (by omega) hpq] at hp
        exact hup p u (hu.trans (.child h2)) hp

/-- **Sifting down** keeps what is respected, if no name on its way up or down has the relation to
the one that goes down, and no right child to a name in the left branch. -/
theorem SiftsDown.respects (s : SiftsDown key x a i a' j) (t : IsTree a) (o : DownOrder key a i)
    (hx : a i = some x) (h : RespectsBut R a i) (hb : BranchClear R a i x) (hr : RightsClear R a i) :
    Respects R a' ∧ ∀ p u, Under p j → a' p = some u → ¬ R u x := by
  induction s with
  | @stop a i hs =>
    refine ⟨fun p j u v hu hp hv => ?_, fun p u hu hp => hb p u (.inl hu) hp⟩
    by_cases hpi : p = i
    · subst hpi
      rw [hx] at hp
      cases hp
      by_cases hji : p = j
      · subst hji
        rw [hx] at hv
        cases hv
        exact hb p _ (.inl .refl) hx
      · obtain ⟨s, hsp, hs2, hsj⟩ := hu.side hji
        obtain ⟨y, hy⟩ := Option.ne_none_iff_exists'.mp (t.under hsj (by rw [hv]; simp))
        exact not_of_lt hR ((hs s y hsp hs2 hy).trans_le (o.under t hsp hs2 hy hsj hv))
    · exact h p j u v hpi hu hp hv
  | @down a a' i j k c hk hki hc hmin hleft _ ih =>
    have self := hb i x (.inl .refl) hx
    have hik : Under i k := hki ▸ .child hk
    have hxk : a (k / 2) = some x := by rw [hki, hx]
    refine ih (t.swapAt (by rw [hc]; simp) (by rw [hx]; simp)) (o.move hk hki hc hmin)
      (by rw [swapAt_left, hx]) ?_ ?_ ?_
    · intro p j u v hpk hu hp hv
      by_cases hpi : p = i
      · -- the child is above its sibling's branch
        subst hpi
        rw [swapAt_right, hc] at hp
        cases hp
        by_cases hjp : p = j
        · subst hjp
          rw [swapAt_right, hc] at hv
          cases hv
          exact h k k c c (Ne.symm hpk) .refl hc hc
        · by_cases hjk : j = k
          · subst hjk
            rw [swapAt_left, hx] at hv
            cases hv
            exact hb j c (.inr hik) hc
          · rw [swapAt_other a hjk (Ne.symm hjp)] at hv
            obtain ⟨s, hsp, hs2, hsj⟩ := hu.side hjp
            by_cases hsk : s = k
            · subst hsk
              exact h s j c v (Ne.symm hpk) hsj hc hv
            · rcases (show k = 2 * p ∧ s = 2 * p + 1 ∨ k = 2 * p + 1 ∧ s = 2 * p by omega) with
                ⟨hkl, rfl⟩ | ⟨rfl, rfl⟩
              · obtain ⟨y, hy⟩ := Option.ne_none_iff_exists'.mp (t.under hsj (by rw [hv]; simp))
                exact not_of_lt hR ((hleft hkl y hy).trans_le (o.under t hsp hs2 hy hsj hv))
              · exact hr p j c v .refl hsj hc hv
      · rw [swapAt_other a hpk hpi] at hp
        by_cases hji : j = i
        · subst hji
          rw [swapAt_right, hc] at hv
          cases hv
          exact h p k u c hpi (hu.trans hik) hp hc
        · by_cases hjk : j = k
          · subst hjk
            rw [swapAt_left, hx] at hv
            cases hv
            exact hb p u (.inl (hki ▸ (hu.parent hpk).2)) hp
          · rw [swapAt_other a hjk hji] at hv
            exact h p j u v hpi hu hp hv
    · intro p u hu hp
      by_cases hpk : p = k
      · subst hpk
        rw [swapAt_left, hx] at hp
        cases hp
        exact self
      · by_cases hpi : p = i
        · subst hpi
          rw [swapAt_right, hc] at hp
          cases hp
          exact hb k c (.inr hik) hc
        · rw [swapAt_other a hpk hpi] at hp
          refine hb p u (hu.imp (fun hu => ?_) fun hu => hik.trans hu) hp
          exact hki ▸ (hu.parent hpk).2
    · -- below `k` nothing has changed
      intro q j r v hq hj hqr hv
      have hkq := hq.le
      have hqj := hj.le
      rw [swapAt_other a (by omega) (by omega)] at hqr hv
      exact hr q j r v (hik.trans hq) hj hqr hv

end

end LevelOrder
