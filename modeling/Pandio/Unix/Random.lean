import Pandio.Unix.World

/- `pd_random` of src/random.c on Unix, which reads /dev/urandom: one `read`, repeated
   while it is interrupted. The kernel's results are given, the reads as the list of
   those made so far, so that a call that is still being interrupted has no result yet.
   A read may give fewer bytes than were asked for; the code does not look at the
   count, and so succeeds with the rest of the buffer as it was.

   Correspondence (C ↔ Lean):
     `pd_random`                ↔ `pdRandom`, its loop `randomLoop`
     the bytes at `bytes`       ↔ `Buffer`
     `pd_errno` after `close`   ↔ `World.pdErrmap` of `errnoAfter` -/
namespace Pandio

/-- What `read` has put at each offset of the buffer; `none` where it put nothing. -/
abbrev Buffer : Type := Nat → Option UInt8

/-- The result of `read` into `size` bytes: as many bytes at most, or -1 with `errno`. -/
inductive RandomRead (size : Nat) where
  | ok (bytes : List UInt8) (le : bytes.length ≤ size)
  | err (errno : Nat) (pos : 0 < errno)

/-- The results of the system calls of one `pd_random` of `size` bytes. -/
structure RandomCalls (size : Nat) where
  opened : SysRes
  reads : List (RandomRead size)
  closed : SysRes
  errno_pos : ∀ e, opened = .err e ∨ closed = .err e → 0 < e

variable {size : Nat}

/-- The read is to be repeated. -/
def RandomRead.interrupted : RandomRead size → Bool
  | .ok _ _ => false
  | .err e _ => e = EINTR

/-- The loop around `read`, with the result it ends with. -/
def randomLoop : List (RandomRead size) → Option (RandomRead size)
  | [] => none
  | r :: rest => if r.interrupted then randomLoop rest else some r

/-- `errno` after a call that followed one with `errno`. -/
def errnoAfter (errno : Nat) : SysRes → Nat
  | .ok _ => errno
  | .err e => e

/-- The bytes `read` puts at the start of the buffer. -/
def Buffer.fill (b : Buffer) (bytes : List UInt8) : Buffer := fun i => bytes[i]? <|> b i

/-- `pd_random`, with the value it returns and the buffer. -/
def pdRandom (a : RandomCalls size) : Option (Int × Buffer) :=
  let bytes : Buffer := fun _ => none
  if size = 0 then some (0, bytes)
  else
    match a.opened with
    | .err e => some (World.pdErrmap e, bytes)
    | .ok _ =>
      match randomLoop a.reads with
      | none => none
      | some (.err e _) => some (World.pdErrmap (errnoAfter e a.closed), bytes)
      -- the count is not compared with `size`
      | some (.ok read _) => some (0, bytes.fill read)

/-- What `pd_random` is for: it returns 0 with the whole buffer written, or a negative code. -/
def RandomMeets (size : Nat) (r : Int × Buffer) : Prop :=
  (r.1 = 0 ∧ ∀ i < size, r.2 i ≠ none) ∨ r.1 < 0

/-- The read that ends the loop fails or gives all the bytes. -/
def RandomCalls.FullRead (a : RandomCalls size) : Prop :=
  ∀ fd, a.opened = .ok fd → ∀ bytes le,
    a.reads.find? (!·.interrupted) = some (.ok bytes le) → bytes.length = size

/-! ## The loop -/

theorem randomLoop_eq_find (l : List (RandomRead size)) :
    randomLoop l = l.find? (!·.interrupted) := by
  induction l with
  | nil => rfl
  | cons r rest ih =>
    rw [randomLoop, List.find?_cons, ih]
    cases r.interrupted <;> rfl

/-- **`pd_random` returns once a read is not interrupted.** -/
theorem pd_random_returns (a : RandomCalls size) (fd : Nat) (hopen : a.opened = .ok fd)
    (h : ∃ r ∈ a.reads, r.interrupted = false) : (pdRandom a).isSome := by
  unfold pdRandom
  split
  · rfl
  · rw [hopen, randomLoop_eq_find]
    obtain ⟨r, hr, hdone⟩ := h
    cases hfind : a.reads.find? (!·.interrupted) with
    | none =>
      have hnone := List.find?_eq_none.mp hfind r hr
      simp [hdone] at hnone
    | some r' => cases r' <;> rfl

theorem fill_covers {b : Buffer} {bytes : List UInt8} (hb : ∀ i, b i = none) :
    (∀ i < size, b.fill bytes i ≠ none) ↔ size ≤ bytes.length := by
  have hfill : ∀ i, b.fill bytes i = bytes[i]? := by
    intro i
    rw [Buffer.fill, hb]
    cases bytes[i]? <;> rfl
  constructor
  · intro h
    by_contra hlt
    apply h bytes.length (by omega)
    rw [hfill, List.getElem?_eq_none (Nat.le_refl _)]
  · intro h i hi
    rw [hfill, List.getElem?_eq_getElem (by omega)]
    exact Option.some_ne_none _

theorem pdErrmap_neg {e : Nat} (h : 0 < e) : World.pdErrmap e < 0 := by
  rw [World.pdErrmap]
  omega

theorem RandomCalls.errnoAfter_pos (a : RandomCalls size) {e : Nat} (h : 0 < e) :
    0 < errnoAfter e a.closed := by
  cases hc : a.closed with
  | ok n => exact h
  | err e' => exact a.errno_pos e' (.inr hc)

/-! ## Short reads -/

/-- **`pd_random` fills the buffer or fails exactly when no short read ends its loop.** -/
theorem pd_random_meets_iff (a : RandomCalls size) :
    (∀ r, pdRandom a = some r → RandomMeets size r) ↔ (size = 0 ∨ a.FullRead) := by
  by_cases hsize : size = 0
  · -- nothing is asked for, and nothing is read
    subst hsize
    simp [pdRandom, RandomMeets]
  rw [or_iff_right hsize]
  cases hopen : a.opened with
  | err e =>
    have hret : pdRandom a = some (World.pdErrmap e, fun _ => none) := by
      simp only [pdRandom, if_neg hsize, hopen]
    constructor
    · intro _ fd hfd
      rw [hopen] at hfd
      cases hfd
    · intro _ r hr
      rw [hret] at hr
      cases hr
      exact .inr (pdErrmap_neg (a.errno_pos e (.inl hopen)))
  | ok fd =>
    cases hend : a.reads.find? (!·.interrupted) with
    | none =>
      have hret : pdRandom a = none := by
        simp only [pdRandom, if_neg hsize, hopen, randomLoop_eq_find, hend]
      constructor
      · intro _ _ _ bytes le hfind
        rw [hend] at hfind
        cases hfind
      · intro _ r hr
        rw [hret] at hr
        cases hr
    | some last =>
      cases last with
      | err e pos =>
        have hret : pdRandom a =
            some (World.pdErrmap (errnoAfter e a.closed), fun _ => none) := by
          simp only [pdRandom, if_neg hsize, hopen, randomLoop_eq_find, hend]
        constructor
        · intro _ _ _ bytes le hfind
          rw [hend] at hfind
          cases hfind
        · intro _ r hr
          rw [hret] at hr
          cases hr
          exact .inr (pdErrmap_neg (a.errnoAfter_pos pos))
      | ok bytes le =>
        have hret : pdRandom a = some (0, Buffer.fill (fun _ => none) bytes) := by
          simp only [pdRandom, if_neg hsize, hopen, randomLoop_eq_find, hend]
        have hcovers : (∀ i < size, Buffer.fill (fun _ => none) bytes i ≠ none) ↔
            size ≤ bytes.length := fill_covers fun _ => rfl
        constructor
        · intro h _ _ bytes' le' hfind
          rw [hend] at hfind
          cases hfind
          obtain ⟨_, hfull⟩ | hneg := h _ hret
          · exact Nat.le_antisymm le (hcovers.mp hfull)
          · exact absurd hneg (Int.lt_irrefl 0)
        · intro h r hr
          rw [hret] at hr
          cases hr
          refine .inl ⟨rfl, hcovers.mpr ?_⟩
          rw [h fd hopen bytes le hend]

/-- Two bytes are asked for; after an interruption the read gives one. -/
def shortRandom : RandomCalls 2 :=
  { opened := .ok 4, reads := [.err EINTR (by decide), .ok [7] (by decide)], closed := .ok 0
    errno_pos := fun _ h => by cases h <;> contradiction }

theorem short_random_succeeds : ∃ r, pdRandom shortRandom = some r ∧ r.1 = 0 ∧ r.2 1 = none ∧
    ¬ RandomMeets 2 r := by
  refine ⟨_, rfl, rfl, rfl, ?_⟩
  intro h
  obtain ⟨_, hfull⟩ | hneg := h
  · exact hfull 1 (by decide) rfl
  · exact absurd hneg (Int.lt_irrefl 0)

end Pandio
