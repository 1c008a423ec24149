import Mathlib

/- Threads that sleep on one condition variable and are woken one at a time. A woken
   thread has to take the lock again before it sees what it was woken for, and by then
   another thread may have been there. What is said here counts threads only: how many
   sleep, how many are woken and wait for the lock, how many are neither. -/
namespace Monitor

/-! ## Counting threads -/

section
variable {α : Type} (p : α → Bool) (w : α → Nat)

/-- A weight of all threads, after one of them has moved. -/
theorem sum_set {l : List α} {i : Nat} {a b : α} (h : l[i]? = some b) :
    ((l.set i a).map w).sum + w b = (l.map w).sum + w a := by
  induction l generalizing i with
  | nil => simp at h
  | cons x l ih =>
    cases i with
    | zero =>
      have hb : x = b := by simpa using h
      simp only [List.set_cons_zero, List.map_cons, List.sum_cons, hb]
      omega
    | succ i =>
      have h' := ih (i := i) (by simpa using h)
      simp only [List.set_cons_succ, List.map_cons, List.sum_cons]
      omega

/-- The number of threads with a property, after one of them has moved. -/
theorem countP_set {l : List α} {i : Nat} {a b : α} (h : l[i]? = some b) :
    (l.set i a).countP p + (p b).toNat = l.countP p + (p a).toNat := by
  have hc : ∀ l : List α, l.countP p = (l.map fun x => (p x).toNat).sum := by
    intro l
    induction l with
    | nil => rfl
    | cons x l ih =>
      cases hx : p x
      · simp [hx, ih]
      · simp [hx, ih]
        omega
  rw [hc, hc]
  exact sum_set _ h

end

/-! ## Items of work -/

/-- The threads asleep, the threads woken and without the lock, and the items to be taken. -/
structure Crew where
  asleep : Nat
  woken : Nat
  items : Nat

namespace Crew

/-- What can happen under the lock, and a wake-up for no reason. Who adds an item wakes a sleeper
if there is one. -/
inductive Move (c : Crew) : Crew → Prop where
  | put (h : c.asleep = 0) : Move c { c with items := c.items + 1 }
  | putWaking (h : 0 < c.asleep) :
      Move c { asleep := c.asleep - 1, woken := c.woken + 1, items := c.items + 1 }
  | wake (h : 0 < c.asleep) : Move c { c with asleep := c.asleep - 1, woken := c.woken + 1 }
  | take (h : 0 < c.items) : Move c { c with items := c.items - 1 }
  | takeWoken (h : 0 < c.items) (hw : 0 < c.woken) :
      Move c { c with woken := c.woken - 1, items := c.items - 1 }
  | sleep (h : c.items = 0) : Move c { c with asleep := c.asleep + 1 }
  | sleepWoken (h : c.items = 0) (hw : 0 < c.woken) :
      Move c { c with asleep := c.asleep + 1, woken := c.woken - 1 }

/-- While a thread sleeps, there is a woken thread for every item. -/
def Fed (c : Crew) : Prop := 0 < c.asleep → c.items ≤ c.woken

theorem Move.fed {c c' : Crew} (m : Move c c') (h : c.Fed) : c'.Fed := by
  unfold Fed at *
  cases m <;> simp only <;> omega

end Crew

/-! ## Leaving one by one -/

/-- The threads asleep, and those that are neither asleep nor gone. -/
structure Exit where
  asleep : Nat
  awake : Nat

namespace Exit

/-- No thread goes to sleep any more, and a thread that leaves wakes a sleeper if there is one. -/
inductive Move (c : Exit) : Exit → Prop where
  | wake (h : 0 < c.asleep) : Move c { asleep := c.asleep - 1, awake := c.awake + 1 }
  | leave (h : c.asleep = 0) (ha : 0 < c.awake) : Move c { c with awake := c.awake - 1 }
  | leaveWaking (h : 0 < c.asleep) (ha : 0 < c.awake) : Move c { c with asleep := c.asleep - 1 }

/-- Some thread is awake as long as one sleeps. -/
def Relayed (c : Exit) : Prop := c.awake = 0 → c.asleep = 0

theorem Move.relayed {c c' : Exit} (m : Move c c') : c'.Relayed := by
  unfold Relayed
  cases m <;> simp only <;> omega

end Exit

end Monitor
