import Pandio.Unix.TimersDue

/- What becomes of the timers when 2^32 - 1 of them are active and another one is
   started: `heap_insert` keeps 32 bits of the new size, its path is empty, and the
   new node takes the place of the root's right child, with all below it. A part of
   the heap that was cut off in this way comes back when one of its timers is
   stopped, and its callbacks then start out of order. -/
namespace Pandio
open World LevelOrder

/-! ## Heaps filled in level order -/

/-- The nodes 1 to `n`, each at its own position. -/
def levelHeap (n : Nat) : Heap Nat :=
  { root := if n = 0 then none else some 1, size := n
    mem := fun (t : Nat) =>
      if 1 ≤ t ∧ t ≤ n then
        { left := if 2 * t ≤ n then some (2 * t) else none
          right := if 2 * t + 1 ≤ n then some (2 * t + 1) else none
          parent := if t = 1 then none else some (t / 2) }
      else ⟨none, none, none⟩ }

section
variable (n t : Nat)

@[simp] theorem levelHeap_size : (levelHeap n).size = n := rfl

@[simp] theorem levelHeap_left : ((levelHeap n).mem t).left =
    if 1 ≤ t ∧ 2 * t ≤ n then some (2 * t) else none := by
  unfold levelHeap
  grind

@[simp] theorem levelHeap_right : ((levelHeap n).mem t).right =
    if 1 ≤ t ∧ 2 * t + 1 ≤ n then some (2 * t + 1) else none := by
  unfold levelHeap
  grind

@[simp] theorem levelHeap_parent : ((levelHeap n).mem t).parent =
    if 2 ≤ t ∧ t ≤ n then some (t / 2) else none := by
  unfold levelHeap
  grind

end

def levelNodes (n i : Nat) : Option Nat := if 1 ≤ i ∧ i ≤ n then some i else none

theorem levelNodes_some {n i : Nat} {t : Nat} :
    levelNodes n i = some t ↔ i = t ∧ 1 ≤ t ∧ t ≤ n := by
  unfold levelNodes
  split
  · rename_i h
    constructor
    · rintro ⟨rfl⟩
      exact ⟨rfl, h⟩
    · rintro ⟨rfl, _⟩
      rfl
  · rename_i h
    constructor
    · intro hn
      cases hn
    · rintro ⟨rfl, hi⟩
      exact absurd hi h

theorem levelHeap_full (n : Nat) : Full n (levelNodes n) := by
  intro i
  unfold levelNodes
  split <;> simp_all

theorem levelHeap_layout (n : Nat) : Layout (levelHeap n) (levelNodes n) where
  zero := rfl
  inj := by
    intro i j x hi hj
    rw [levelNodes_some] at hi hj
    rw [hi.1, hj.1]
  up := by
    intro i hi h
    have := (levelHeap_full n i).mp h
    exact (levelHeap_full n _).mpr ⟨by omega, by omega⟩
  root := by
    unfold levelHeap levelNodes
    split <;> split <;> first | rfl | omega
  left := by
    intro i x hi
    obtain ⟨rfl, hx⟩ := levelNodes_some.mp hi
    rw [levelHeap_left, levelNodes]
    grind
  right := by
    intro i x hi
    obtain ⟨rfl, hx⟩ := levelNodes_some.mp hi
    rw [levelHeap_right, levelNodes]
    grind
  parent := by
    intro i x hi
    obtain ⟨rfl, hx⟩ := levelNodes_some.mp hi
    rw [levelHeap_parent, levelNodes]
    grind

theorem heap_ext {h h' : Heap Nat} (hroot : h.root = h'.root) (hsize : h.size = h'.size)
    (hmem : ∀ t, (h.mem t).left = (h'.mem t).left ∧ (h.mem t).right = (h'.mem t).right ∧
      (h.mem t).parent = (h'.mem t).parent) : h = h' := by
  cases h with
  | mk root size mem =>
    cases h' with
    | mk root' size' mem' =>
      obtain rfl : root = root' := hroot
      obtain rfl : size = size' := hsize
      congr 1
      funext t
      obtain ⟨h1, h2, h3⟩ := hmem t
      cases ht : mem t
      cases ht' : mem' t
      simp_all

/-- The new node becomes the child of its position's parent. -/
theorem levelHeap_attach {n : Nat} (h1 : 1 ≤ n) :
    heapAttach (levelHeap n) ((n + 1) / 2) (n + 1) = levelHeap (n + 1) := by
  have hp : 1 ≤ (n + 1) / 2 ∧ (n + 1) / 2 ≤ n := by omega
  apply heap_ext
  · unfold heapAttach
    split <;> simp [levelHeap] <;> omega
  · unfold heapAttach
    split <;> simp
  · intro t
    unfold heapAttach
    split
    · rename_i hl
      rw [levelHeap_left] at hl
      have hn : 2 * ((n + 1) / 2) = n + 1 := by grind
      refine ⟨?_, ?_, ?_⟩
      all_goals simp only [Heap.setRight_left, Heap.setRight_right, Heap.setRight_parent,
        Heap.setLeft_left, Heap.setLeft_right, Heap.setLeft_parent, Heap.setParent_left,
        Heap.setParent_right, Heap.setParent_parent, Heap.setSize_mem, levelHeap_left,
        levelHeap_right, levelHeap_parent]
      · grind
      · grind
      · grind
    · rename_i hl
      rw [levelHeap_left] at hl
      have hn : 2 * ((n + 1) / 2) + 1 = n + 1 := by grind
      refine ⟨?_, ?_, ?_⟩
      all_goals simp only [Heap.setRight_left, Heap.setRight_right, Heap.setRight_parent,
        Heap.setLeft_left, Heap.setLeft_right, Heap.setLeft_parent, Heap.setParent_left,
        Heap.setParent_right, Heap.setParent_parent, Heap.setSize_mem, levelHeap_left,
        levelHeap_right, levelHeap_parent]
      · grind
      · grind
      · grind

variable {cmp : Nat → Nat → Int}

/-- A node that is not smaller than its parent stays where `heap_insert` puts it. -/
theorem levelHeap_insert {n : Nat} (h32 : n + 1 < 2 ^ 32) (hcmp : cmp (n + 1) ((n + 1) / 2) = 0) :
    heapInsert cmp (levelHeap n) (n + 1) = some (levelHeap (n + 1)) := by
  rcases Nat.eq_zero_or_pos n with rfl | h1
  · show some _ = _
    congr 1
    refine heap_ext rfl rfl fun t => ⟨?_, ?_, ?_⟩
    all_goals simp
    all_goals grind
  · have hroot : (levelHeap n).root = some 1 := if_neg (by omega)
    have hwalk := (levelHeap_layout n).walk_insert (levelHeap_full n) hroot h32
    have hlast : levelNodes n ((n + 1) / 2) = some ((n + 1) / 2) := if_pos (by omega)
    rw [levelHeap_size, hlast] at hwalk
    have hparent : ((levelHeap (n + 1)).mem (n + 1)).parent = some ((n + 1) / 2) := by
      rw [levelHeap_parent, if_pos (by omega)]
    simp only [heapInsert, hroot, levelHeap_size, Nat.mod_eq_of_lt h32, Option.bind_eq_bind, hwalk,
      Option.bind_some, levelHeap_attach h1]
    rw [siftUp, hparent]
    simp [hcmp]

/-! ## 2^32 - 1 active timers -/

/-- The deadlines of the timers 1 to 2^32 - 1, all started at time 0. -/
def levelDeadline (t : Nat) : Nat :=
  if t = 1 then 10 else if t = 2 then 40 else if t = 3 ∨ t = 7 then 15 else 100

theorem levelDeadline_parent {n : Nat} (h1 : 1 ≤ n) :
    levelDeadline ((n + 1) / 2) ≤ levelDeadline (n + 1) := by
  unfold levelDeadline
  grind

/-- The first `n` timers have been started; timer 1 repeats. -/
def levelTimer (n t : Nat) : Timer :=
  if 1 ≤ t ∧ t ≤ n then
    { timeout := levelDeadline t, interval := if t = 1 then 10 else 0, active := true
      onTimeout := true }
  else pdTimerInit

theorem levelTimer_timeout (n t : Nat) :
    (levelTimer n t).timeout = if 1 ≤ t ∧ t ≤ n then levelDeadline t else 0 := by
  unfold levelTimer
  split <;> rfl

def levelWorld (n : Nat) (log : List Obs) : World :=
  { (Cfg.start []).world with
    refs := n, timers := levelHeap n, timer := levelTimer n, log := log }

/-- The call that starts timer `t`. -/
def levelStart (t : Nat) : Call :=
  if t = 1 then .timerRepeat t true (levelDeadline t) else .timerStart t true (levelDeadline t)

theorem levelTimer_succ (n : Nat) :
    Function.update (levelTimer n) (n + 1)
      { timeout := levelDeadline (n + 1), interval := if n + 1 = 1 then 10 else 0, active := true
        onTimeout := true } = levelTimer (n + 1) := by
  funext t
  by_cases ht : t = n + 1
  · subst ht
    simp [levelTimer]
  · rw [Function.update_of_ne ht]
    unfold levelTimer
    grind

theorem levelWorld_timer {n : Nat} (log : List Obs) :
    (levelWorld n log).timer (n + 1) = pdTimerInit := by
  show levelTimer n (n + 1) = pdTimerInit
  simp [levelTimer]

theorem levelWorld_pdTimerStart {n : Nat} (h32 : n + 1 < 2 ^ 32) (log : List Obs) :
    pdTimerStart ((levelWorld n log).setTimer (n + 1)
        { pdTimerInit with interval := if n + 1 = 1 then 10 else 0 }) (n + 1) true
        (levelDeadline (n + 1)) =
      some (levelWorld (n + 1) (log ++ [.refInc (.timer (n + 1))])) := by
  have hd : (0 + levelDeadline (n + 1)) % 2 ^ 64 = levelDeadline (n + 1) := by
    unfold levelDeadline
    grind
  have hn : levelDeadline ((n + 1) / 2) ≤ levelDeadline (n + 1) ∨ n = 0 := by
    rcases Nat.eq_zero_or_pos n with h0 | h1
    · exact .inr h0
    · exact .inl (levelDeadline_parent h1)
  -- the state when `heap_insert` is called
  have hw : (((levelWorld n log).setTimer (n + 1)
        { pdTimerInit with interval := if n + 1 = 1 then 10 else 0 }).setTimer (n + 1)
        { timeout := levelDeadline (n + 1), interval := if n + 1 = 1 then 10 else 0, active := true
          onTimeout := true }).incRefs (.timer (n + 1)) =
      { levelWorld (n + 1) (log ++ [.refInc (.timer (n + 1))]) with timers := levelHeap n } := by
    unfold World.setTimer World.incRefs World.setRefs World.logObs levelWorld
    simp only [Function.update_idem, levelTimer_succ]
    congr 1
    exact Nat.mod_eq_of_lt (by omega)
  have hcmp : pdTimersComparator
      { levelWorld (n + 1) (log ++ [.refInc (.timer (n + 1))]) with timers := levelHeap n }
      (n + 1) ((n + 1) / 2) = 0 := by
    refine if_neg ?_
    show ¬ (levelTimer (n + 1) (n + 1)).timeout < (levelTimer (n + 1) ((n + 1) / 2)).timeout
    rw [levelTimer_timeout, levelTimer_timeout, if_pos (by omega)]
    split <;> omega
  have hins := levelHeap_insert h32 hcmp
  unfold pdTimerStart
  rw [if_neg (by simp [World.setTimer, pdTimerInit])]
  have ht : ((levelWorld n log).setTimer (n + 1)
      { pdTimerInit with interval := if n + 1 = 1 then 10 else 0 }).timer (n + 1) =
      { pdTimerInit with interval := if n + 1 = 1 then 10 else 0 } := Function.update_self ..
  have hnow : ((levelWorld n log).setTimer (n + 1)
      { pdTimerInit with interval := if n + 1 = 1 then 10 else 0 }).now = 0 := rfl
  simp only [ht, hnow, hd, hw]
  rw [hins]
  rfl

theorem levelWorld_start {n : Nat} (h32 : n + 1 < 2 ^ 32) (log : List Obs) (a : Answer) :
    api (levelWorld n log) (levelStart (n + 1)) a = some
      (levelWorld (n + 1) (log ++ [.timerStart (n + 1), .refInc (.timer (n + 1))]), []) := by
  have hlog : (levelWorld n log).logObs (.timerStart (n + 1)) =
      levelWorld n (log ++ [.timerStart (n + 1)]) := rfl
  have hd : levelDeadline (n + 1) % 2 ^ 64 = levelDeadline (n + 1) := by
    unfold levelDeadline
    grind
  have h := levelWorld_pdTimerStart h32 (log ++ [.timerStart (n + 1)])
  rw [List.append_assoc] at h
  unfold levelStart
  split
  · rename_i h1
    simp only [api, pdTimerRepeat, hlog, levelWorld_timer, hd]
    rw [if_pos h1] at h
    have h10 : levelDeadline (n + 1) = 10 := by rw [h1]; rfl
    rw [h10] at h ⊢
    simp only [h]
    rfl
  · rename_i h1
    simp only [api, hlog, hd]
    rw [if_neg h1] at h
    have hself : (levelWorld n (log ++ [.timerStart (n + 1)])).setTimer (n + 1)
        { pdTimerInit with interval := 0 } = levelWorld n (log ++ [.timerStart (n + 1)]) := by
      have hu := Function.update_eq_self (n + 1) (levelTimer n)
      rw [show levelTimer n (n + 1) = pdTimerInit from levelWorld_timer log] at hu
      unfold World.setTimer levelWorld
      congr 1
    rw [hself] at h
    rw [h]
    rfl

theorem levelWorld_noOverflow (n : Nat) (log : List Obs) (a : Answer) (st : List Item) :
    NoOverflow ⟨levelWorld n log, st⟩ (.api (levelStart (n + 1)) a) := by
  have hstarted : started ⟨levelWorld n log, st⟩ (.api (levelStart (n + 1)) a) =
      some (n + 1, levelDeadline (n + 1) % 2 ^ 64) := by
    unfold levelStart
    split <;> simp [started, levelWorld_timer, pdTimerInit]
  intro p hp
  rw [hstarted] at hp
  cases hp
  show 0 + levelDeadline (n + 1) % 2 ^ 64 < 2 ^ 64
  omega

/-- All of them can be started. -/
theorem levelWorld_run (n : Nat) (h32 : n < 2 ^ 32) :
    ∃ log, Run NoOverflow ⟨levelWorld n log, [.app .main]⟩ := by
  induction n with
  | zero =>
    refine ⟨[], .init ?_⟩
    have hw : levelWorld 0 [] = (Cfg.start []).world := by
      unfold levelWorld Cfg.start
      simp only [World.init]
      congr 1
      · refine heap_ext rfl rfl fun t => ⟨?_, ?_, ?_⟩
        all_goals simp [heapInit]
        all_goals omega
      · funext t
        unfold levelTimer
        grind
    rw [hw]
    exact Cfg.start_init []
  | succ n ih =>
    obtain ⟨log, r⟩ := ih (by omega)
    refine ⟨log ++ [.timerStart (n + 1), .refInc (.timer (n + 1))],
      r.step (a := .api (levelStart (n + 1)) (.ok 0 [])) (levelWorld_noOverflow n log _ _) ?_⟩
    simp only [step, levelWorld_start h32, Option.map_some]
    rfl

/-! ## Three more -/

/-- Three more timers are started, and with the last of them everything below the root's right child
is cut off. Timer 1 fires at 10. In the `after_tick` hook timer 3 is stopped, which was cut off:
`heap_remove` links its child 7 to timer 1, with a deadline of 15 below one of 20. -/
def afterLevel : List Act :=
  [.api (.setAfterTick true) (.ok 0 []), .api (.timerStart (2 ^ 32) true 50) (.ok 0 []),
    .api (.timerStart (2 ^ 32 + 1) true 50) (.ok 0 []),
    .api (.timerStart (2 ^ 32 + 2) true 50) (.ok 0 []), .env (.tick 10), .api .ioRun (.ok 0 []),
    .lib (.ok 0 []), .lib (.ok 0 []), .ret none, .lib (.ok 0 []), .lib (.ok 0 []), .lib (.ok 0 []),
    .lib (.ok 0 []), .api (.timerStop 3) (.ok 0 []),
    .api (.timerStart (2 ^ 32 + 3) true 20) (.ok 0 []), .ret none, .lib (.ok 0 []), .env (.tick 10),
    .lib (.ok 0 []), .lib (.ok 0 []), .ret none, .lib (.ok 0 []), .lib (.ok 0 [])]

theorem afterLevel_log (log : List Obs) :
    ((Machine.play step NoOverflow ⟨levelWorld (2 ^ 32 - 1) log, [.app .main]⟩ afterLevel).map
      (·.world.log)) = some (List.foldl (fun l o => l ++ [o]) log
        [.timerStart 4294967296, .refInc (.timer 4294967296), .timerStart 4294967297,
          .refInc (.timer 4294967297), .timerStart 4294967298, .refInc (.timer 4294967298),
          .refDec (.timer 1), .cb (.onTimeout 1 10) 10, .refInc (.timer 1), .cb .afterTick 10,
          .refDec (.timer 3), .timerStop 3, .timerStart 4294967299, .refInc (.timer 4294967299),
          .refDec (.timer 1), .cb (.onTimeout 1 20) 20, .refInc (.timer 1), .refDec (.timer 7),
          .cb (.onTimeout 7 15) 20]) := by
  cbv

/-- With more than 2^32 - 1 timers, one fires after another whose deadline is later. -/
theorem not_timers_in_order : ¬ ∀ c, Run NoOverflow c → TimersInOrder c := by
  intro h
  obtain ⟨log, r⟩ := levelWorld_run (2 ^ 32 - 1) (by norm_num)
  obtain ⟨c, hc, hlog⟩ := Option.map_eq_some_iff.mp (afterLevel_log log)
  have hsorted := (h c (Machine.Reach.play r hc)).1
  have hcalls : timerCalls c.world.log = timerCalls log ++ [(10, 10), (20, 20), (15, 20)] := by
    rw [hlog]
    simp [timerCalls]
  rw [hcalls, List.pairwise_append] at hsorted
  simp at hsorted

/-! ## One more -/

/-- One more timer is started, and timer 1 becomes due. -/
def overLevel : List Act :=
  [.api (.timerStart (2 ^ 32) true 50) (.ok 0 []), .env (.tick 10), .api .ioRun (.ok 0 []),
    .lib (.ok 0 [])]

/-- `heap_remove` of the root with 2^32 nodes takes the root for the last node and leaves it. -/
theorem overLevel_root (log : List Obs) :
    ((Machine.play step AnyStep ⟨levelWorld (2 ^ 32 - 1) log, [.app .main]⟩ overLevel).bind fun c =>
      (step c (.lib (.ok 0 []))).map fun c' =>
        (heapRemoved c (.lib (.ok 0 [])), heapPeek c'.world.timers)) = some (some 1, some 1) := by
  cbv

/-- With more than 2^32 - 1 timers, `pd_timers_run` does not remove the timer it has just taken. -/
theorem not_timers_agree : ¬ ∀ c, Run AnyStep c → TimersAgree AnyStep c := by
  intro h
  obtain ⟨log, r⟩ := levelWorld_run (2 ^ 32 - 1) (by norm_num)
  have r : Run AnyStep _ := r.mono fun _ _ _ => trivial
  obtain ⟨c, hc, hlast⟩ := Option.bind_eq_some_iff.mp (overLevel_root log)
  obtain ⟨c', hs, heq⟩ := Option.map_eq_some_iff.mp hlast
  obtain ⟨hremoved, hroot⟩ := Prod.mk.inj heq
  have hgone := ((h c (Machine.Reach.play r hc)).removed _ c' trivial hs 1 hremoved).2 1
  exact (hgone.mp ⟨[], hroot⟩).1 rfl

/-- Three more timers are started; at 15 timer 1 fires and starts again, and the timers 3 and 7 are
due as well, but have been cut off. -/
def lostLevel : List Act :=
  [.api (.timerStart (2 ^ 32) true 50) (.ok 0 []),
    .api (.timerStart (2 ^ 32 + 1) true 50) (.ok 0 []),
    .api (.timerStart (2 ^ 32 + 2) true 50) (.ok 0 []), .env (.tick 15), .api .ioRun (.ok 0 []),
    .lib (.ok 0 []), .lib (.ok 0 []), .ret none, .lib (.ok 0 [])]

theorem lostLevel_due (log : List Obs) :
    ((Machine.play step NoOverflow ⟨levelWorld (2 ^ 32 - 1) log, [.app .main]⟩ lostLevel).bind fun c =>
      (step c (.lib (.ok 0 []))).map fun c' =>
        (c.stack, c'.stack, c'.world.now, (c'.world.timer 3).active, (c'.world.timer 3).timeout)) =
      some ([.lib .timersRun, .lib .pendingClose, .lib .ioAfterTick, .lib .ioNext, .app .main],
        [.lib .pendingClose, .lib .ioAfterTick, .lib .ioNext, .app .main], 15, true, 15) := by
  cbv

/-- With more than 2^32 - 1 timers `pd_timers_run` leaves a due timer behind; and one timer is enough
for a callback that asks `pd_timers_next` between a late poll and `pd_timers_run`. -/
theorem not_timers_served : (¬ ∀ c, Run NoOverflow c → TimersServed (NoOverflow c) c) ∧
    ¬ ∀ c, Run (fun c x => TimersFit c x ∧ NoOverflow c x) c → TimersServed (NoOverflow c) c := by
  refine ⟨fun h => ?_, fun h => ?_⟩
  · obtain ⟨log, r⟩ := levelWorld_run (2 ^ 32 - 1) (by norm_num)
    obtain ⟨c, hc, hlast⟩ := Option.bind_eq_some_iff.mp (lostLevel_due log)
    obtain ⟨c', hs, heq⟩ := Option.map_eq_some_iff.mp hlast
    simp only [Prod.mk.injEq] at heq
    obtain ⟨hst, hrest, hnow, hact, htime⟩ := heq
    have hdue := (h c (Machine.Reach.play r hc)).returned _ c' _ hst hs hrest 3 hact
    omega
  · obtain ⟨c, r, hasks, -, hover, -⟩ := late_callback_overdue
    exact hover ((h c r).next _ (by simp [NoOverflow, started, rearmed]) hasks).1

end Pandio
