import Mathlib

/- Tokens in places. Every place holds a list of tokens; a token that is somewhere is in
   one place, and there once. `pl` says where each token is, and the rules say what
   becomes of it when one token, or all tokens of a place, move. -/
namespace Places

variable {κ π : Type} {content content' : π → List κ} {pl : κ → Option π}

/-- `pl` says of every token in which place it is. -/
def Holds (content : π → List κ) (pl : κ → Option π) : Prop :=
  ∀ p, (content p).Nodup ∧ ∀ k, k ∈ content p ↔ pl k = some p

theorem Holds.mem (h : Holds content pl) {k : κ} {p : π} : k ∈ content p ↔ pl k = some p :=
  (h p).2 k

/-- A token is in one place. -/
theorem Holds.unique (h : Holds content pl) {k : κ} {p q : π} (hp : k ∈ content p)
    (hq : k ∈ content q) : p = q :=
  Option.some.inj ((h.mem.mp hp).symm.trans (h.mem.mp hq))

theorem Holds.congr (h : Holds content pl) (he : ∀ p, content' p = content p) :
    Holds content' pl := by
  intro p
  rw [he]
  exact h p

theorem holds_nil : Holds (fun _ : π => ([] : List κ)) fun _ => none :=
  fun _ => ⟨List.nodup_nil, fun _ => by simp⟩

variable [DecidableEq κ]

/-- One token moves from a place, or from nowhere, to another place, or to nowhere. -/
theorem Holds.move {k : κ} {p q : Option π} (h : Holds content pl) (hk : pl k = p) (hpq : p ≠ q)
    (hother : ∀ x, some x ≠ p → some x ≠ q → content' x = content x)
    (hfrom : ∀ x, some x = p → content' x = (content x).erase k)
    (hto : ∀ x, some x = q → content' x = content x ++ [k]) :
    Holds content' (Function.update pl k q) := by
  subst hk
  intro x
  obtain ⟨hnd, hm⟩ := h x
  by_cases hf : some x = pl k
  · have hq : some x ≠ q := fun he => hpq (hf.symm.trans he)
    rw [hfrom x hf]
    refine ⟨hnd.erase k, fun k' => ?_⟩
    rw [hnd.mem_erase_iff, hm]
    by_cases hkk : k' = k
    · subst hkk
      simp [hq.symm]
    · simp [hkk]
  · by_cases hq : some x = q
    · have hn : k ∉ content x := fun hk => hf ((hm k).mp hk).symm
      rw [hto x hq]
      refine ⟨hnd.append (List.nodup_singleton k) (List.disjoint_singleton.mpr hn), fun k' => ?_⟩
      by_cases hkk : k' = k
      · subst hkk
        simp [← hq]
      · simp [hkk, hm]
    · rw [hother x hf hq]
      refine ⟨hnd, fun k' => ?_⟩
      by_cases hkk : k' = k
      · subst hkk
        rw [hm, Function.update_self]
        exact ⟨fun h1 => absurd h1.symm hf, fun h1 => absurd h1.symm hq⟩
      · rw [hm, Function.update_of_ne hkk]

omit [DecidableEq κ] in
/-- All tokens of one place move to another, before those that are there. -/
theorem Holds.moveAll [DecidableEq π] {p q : π} (h : Holds content pl) (hpq : p ≠ q)
    (hother : ∀ x, x ≠ p → x ≠ q → content' x = content x) (hfrom : content' p = [])
    (hto : content' q = content p ++ content q) :
    Holds content' fun k => if pl k = some p then some q else pl k := by
  intro x
  obtain ⟨hnd, hm⟩ := h x
  by_cases hp : x = p
  · subst hp
    rw [hfrom]
    refine ⟨List.nodup_nil, fun k => ?_⟩
    by_cases hk : pl k = some x
    · simp [hk, hpq.symm]
    · simp [hk]
  · by_cases hq : x = q
    · subst hq
      rw [hto]
      refine ⟨(h p).1.append hnd fun k hk hk' => hpq (h.unique hk hk'), fun k => ?_⟩
      rw [List.mem_append, h.mem, hm]
      by_cases hk : pl k = some p
      · simp [hk]
      · simp [hk]
    · rw [hother x hp hq]
      refine ⟨hnd, fun k => ?_⟩
      rw [hm]
      by_cases hk : pl k = some p
      · simp [hk, Ne.symm hp, Ne.symm hq]
      · simp [hk]

end Places
