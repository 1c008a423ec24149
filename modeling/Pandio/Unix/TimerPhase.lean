import Pandio.Unix.Deadlines
import Pandio.Unix.TimerMembers

/- Whether a call of `pd_timers_run` returns. Its loop takes the root of the heap until
   that is not due, at a time that stands still: a callback that starts a timer with no
   delay gives it one more round, and so does a deadline that wraps around. What the
   callbacks do is given as the calls they make in each round; what counts the rounds
   that are left is the number of due timers. -/
namespace Pandio
open World

/-! ## The loop of `pd_timers_run`, with its callbacks -/

/-- A call that a callback makes. -/
inductive TimerCall where
  | start (t : Tid) (cb : Bool) (timeout : Nat)
  | repeating (t : Tid) (cb : Bool) (interval : Nat)
  | stop (t : Tid)

namespace TimerCall

def call : TimerCall → Call
  | start t cb timeout => .timerStart t cb timeout
  | repeating t cb interval => .timerRepeat t cb interval
  | stop t => .timerStop t

def timer : TimerCall → Tid
  | start t _ _ | repeating t _ _ | stop t => t

def run (k : TimerCall) (w : World) : Option World := (api w k.call (.ok 0 [])).map (·.1)

end TimerCall

/-- One invocation of a callback. -/
def runCalls (w : World) : List TimerCall → Option World
  | [] => some w
  | k :: rest => (k.run w).bind (runCalls · rest)

/-- The calls that are made when these items are pushed: none without a callback. -/
def callbackCalls (items : List Item) (calls : List TimerCall) : List TimerCall :=
  match items with
  | .app _ :: _ => calls
  | _ => []

/-- One round of the loop, with what the callback does if it is called; whether it goes on. -/
def timersRound (w : World) (calls : List TimerCall) : Option (World × Bool) :=
  (pdTimersRun w).bind fun r =>
    match rearms r.2 with
    | [] => some (r.1, false)
    | min :: _ =>
      (runCalls r.1 (callbackCalls r.2 calls)).bind fun w =>
        (pdTimersRearm w min).map fun r => (r.1, true)

/-- The first `n` rounds of `pd_timers_run`; whether it has not returned by then. -/
def timersRounds (f : Nat → List TimerCall) : Nat → World → Option (World × Bool)
  | 0, w => some (w, true)
  | n + 1, w => (timersRounds f n w).bind fun r => if r.2 then timersRound r.1 (f n) else some r

/-- The call of `pd_timers_run` returns. -/
def TimersRunReturns (f : Nat → List TimerCall) (w : World) : Prop :=
  ∃ n w', timersRounds f n w = some (w', false)

/-! ## The rounds are runs of the machine -/

theorem pdTimersRun_items {w : World} {r : World × List Item} (h : pdTimersRun w = some r) :
    r.2 = [] ∨ ∃ min, r.2 = [.lib (.timersRearm min)] ∨
      ∃ timeout, r.2 = [.app (.onTimeout min timeout), .lib (.timersRearm min)] := by
  unfold pdTimersRun at h
  split at h
  · cases h
    exact .inl rfl
  · rename_i min _
    split at h
    · cases h
      exact .inl rfl
    · obtain ⟨w1, _, h⟩ := Option.bind_eq_some_iff.mp h
      split at h <;> cases h
      · exact .inr ⟨min, .inr ⟨_, rfl⟩⟩
      · exact .inr ⟨min, .inl rfl⟩

theorem TimerCall.step {k : TimerCall} {w w' : World} {cb : Cb} {rest : List Item}
    (h : k.run w = some w') :
    Pandio.step ⟨w, .app cb :: rest⟩ (.api k.call (.ok 0 [])) = some ⟨w', .app cb :: rest⟩ := by
  obtain ⟨r, hr, rfl⟩ := Option.map_eq_some_iff.mp h
  have hitems : r.2 = [] := by
    cases k <;> (obtain ⟨_, _, rfl⟩ := Option.map_eq_some_iff.mp hr; rfl)
  simp [Pandio.step, hr, hitems]

theorem runCalls_play {calls : List TimerCall} {w w' : World} {cb : Cb} {rest : List Item}
    (h : runCalls w calls = some w') :
    Machine.play step AnyStep ⟨w, .app cb :: rest⟩
      (calls.map fun k => .api k.call (.ok 0 [])) = some ⟨w', .app cb :: rest⟩ := by
  induction calls generalizing w with
  | nil =>
    cases h
    rfl
  | cons k calls ih =>
    obtain ⟨w1, h1, h2⟩ := Option.bind_eq_some_iff.mp h
    simp only [List.map_cons, Machine.play, AnyStep, if_true, TimerCall.step h1,
      Option.bind_some]
    exact ih h2

theorem timersRound_reach {calls : List TimerCall} {w w' : World} {b : Bool} {rest : List Item}
    (h : timersRound w calls = some (w', b)) :
    Machine.Reach Pandio.step AnyStep (· = ⟨w, .lib .timersRun :: rest⟩)
      ⟨w', if b then .lib .timersRun :: rest else rest⟩ := by
  obtain ⟨r, hr, h⟩ := Option.bind_eq_some_iff.mp h
  have h0 : Machine.Reach Pandio.step AnyStep (· = ⟨w, .lib .timersRun :: rest⟩)
      ⟨w, .lib .timersRun :: rest⟩ := .init rfl
  have h1 : Machine.Reach Pandio.step AnyStep (· = ⟨w, .lib .timersRun :: rest⟩)
      ⟨r.1, r.2 ++ rest⟩ := h0.step trivial (a := .lib (.ok 0 [])) (by simp [Pandio.step, exec, hr])
  -- after the callback, if there is one
  have rearm : ∀ {w1 : World} {min : Tid},
      Machine.Reach Pandio.step AnyStep (· = ⟨w, .lib .timersRun :: rest⟩)
        ⟨w1, .lib (.timersRearm min) :: rest⟩ →
      (pdTimersRearm w1 min).map (fun r => (r.1, true)) = some (w', b) →
      Machine.Reach Pandio.step AnyStep (· = ⟨w, .lib .timersRun :: rest⟩)
        ⟨w', if b then .lib .timersRun :: rest else rest⟩ := by
    intro w1 min hreach hre
    obtain ⟨r2, hr2, heq⟩ := Option.map_eq_some_iff.mp hre
    obtain ⟨rfl, rfl⟩ := Prod.mk.inj heq
    have hitems : r2.2 = [.lib .timersRun] := by
      unfold pdTimersRearm at hr2
      split at hr2
      · obtain ⟨_, _, rfl⟩ := Option.map_eq_some_iff.mp hr2
        rfl
      · cases hr2
        rfl
    refine hreach.step trivial (a := .lib (.ok 0 [])) ?_
    simp [Pandio.step, exec, hr2, hitems]
  rcases pdTimersRun_items hr with hi | ⟨min, hi | ⟨timeout, hi⟩⟩
  · simp only [hi, rearms, List.filterMap_nil] at h
    cases h
    simpa [hi] using h1
  · rw [hi] at h h1
    exact rearm h1 h
  · rw [hi] at h h1
    obtain ⟨w1, hcalls, hre⟩ := Option.bind_eq_some_iff.mp h
    have h2 := h1.play (runCalls_play hcalls)
    refine rearm (h2.step trivial (a := .ret w1.ptr) ?_) hre
    simp [Pandio.step, World.setPtr]

/-- What the rounds lead to is reached by the machine, from the call of `pd_timers_run` on. -/
theorem timersRounds_reach {f : Nat → List TimerCall} {n : Nat} {w w' : World} {b : Bool}
    {rest : List Item} (h : timersRounds f n w = some (w', b)) :
    Machine.Reach Pandio.step AnyStep (· = ⟨w, .lib .timersRun :: rest⟩)
      ⟨w', if b then .lib .timersRun :: rest else rest⟩ := by
  induction n generalizing w' b with
  | zero =>
    cases h
    exact .init rfl
  | succ n ih =>
    obtain ⟨⟨w1, b1⟩, h1, h2⟩ := Option.bind_eq_some_iff.mp h
    cases b1 with
    | true => exact (ih h1).trans (timersRound_reach h2)
    | false =>
      cases h2
      exact ih h1

/-! ## Starts that are due at once -/

/-- A timer that is started with this delay is not due at once. -/
def World.Ahead (w : World) (d : Nat) : Prop := d ≠ 0 ∧ w.now + d < 2 ^ 64

/-- The call starts no timer that is due at once. -/
def TimerCall.Defers (k : TimerCall) (w : World) : Prop :=
  match k with
  | .start t _ d | .repeating t _ d => (w.timer t).active = false → w.Ahead (d % 2 ^ 64)
  | .stop _ => True

def CallsDefer (w : World) : List TimerCall → Prop
  | [] => True
  | k :: rest => k.Defers w ∧ ∀ w' ∈ k.run w, CallsDefer w' rest

/-- The timer is not started again after its callback, or not due at once then. -/
def RearmDefers (w : World) (min : Tid) : Prop :=
  (w.timer min).active = false → (w.timer min).interval ≠ 0 → w.Ahead (w.timer min).interval

/-- In this round no timer is started that is due at once, neither by the callback nor after it. -/
def RoundDefers (w : World) (calls : List TimerCall) : Prop :=
  ∀ r ∈ pdTimersRun w, ∀ min ∈ rearms r.2,
    CallsDefer r.1 (callbackCalls r.2 calls) ∧
      ∀ w' ∈ runCalls r.1 (callbackCalls r.2 calls), RearmDefers w' min

/-! ## The due timers -/

/-- The timers are those of a finite set, which the heap can hold. -/
structure TimersOf (S : Finset Tid) (w : World) : Prop where
  valid : TimersValid w
  active : ∀ t, (w.timer t).active = true → t ∈ S
  card : S.card < 2 ^ 32
  now : w.now < 2 ^ 64

def dueTimers (S : Finset Tid) (w : World) : Finset Tid :=
  S.filter fun t => (w.timer t).active = true ∧ (w.timer t).timeout ≤ w.now

section
variable {S : Finset Tid} {w w' : World} {t : Tid} {cb : Bool} {d : Nat}

/-- There is room in the heap for a timer of the set that is not active. -/
theorem TimersOf.room (h : TimersOf S w) (ht : t ∈ S) (hact : (w.timer t).active = false) :
    w.timers.size + 1 < 2 ^ 32 := by
  obtain ⟨active, hmem⟩ := h.valid.heapOfActive
  have hsub : insert t active ⊆ S := by
    intro t' ht'
    rcases Finset.mem_insert.mp ht' with rfl | hin
    · exact ht
    · exact h.active t' ((hmem.mem t').mp hin)
  have hnot : t ∉ active := by
    intro hin
    rw [(hmem.mem t).mp hin] at hact
    cases hact
  have hcard := Finset.card_le_card hsub
  rw [Finset.card_insert_of_notMem hnot, ← hmem.size] at hcard
  exact hcard.trans_lt h.card

/-- What a step of the loop does to the timers of the set: its time stands still. -/
structure PhaseStep (S : Finset Tid) (w w' : World) : Prop where
  timers : TimersOf S w'
  now : w'.now = w.now

theorem PhaseStep.trans {w1 : World} (h : PhaseStep S w w1) (h' : PhaseStep S w1 w') :
    PhaseStep S w w' := ⟨h'.timers, h'.now.trans h.now⟩

/-- `pd_timer_start` of a timer of the set returns. A timer that is not due at once is no due
timer. -/
theorem TimersOf.start (h : TimersOf S w) (cb : Bool) (d : Nat) (ht : t ∈ S) :
    ∃ w', pdTimerStart w t cb d = some w' ∧ PhaseStep S w w' ∧
      (((w.timer t).active = false → w.Ahead d) → dueTimers S w' ⊆ dueTimers S w) := by
  obtain ⟨w', hw, hv⟩ : ∃ w', pdTimerStart w t cb d = some w' ∧ TimersValid w' :=
    pdTimerStart_valid h.valid (h.room ht)
  have hnow := (pdTimerStart_time hw).1
  refine ⟨w', hw, ⟨⟨hv, fun t' hact => ?_, h.card, hnow ▸ h.now⟩, hnow⟩, fun hahead t' hdue => ?_⟩
  · rcases (pdTimerStart_active hw t').mp hact with rfl | hact
    · exact ht
    · exact h.active t' hact
  · obtain ⟨hS, hact, hle⟩ := Finset.mem_filter.mp hdue
    rw [hnow, pdTimerStart_timeout hw] at hle
    split at hle
    · -- the new deadline lies ahead
      rename_i hnew
      obtain ⟨hd, hlt⟩ := hahead hnew.2
      rw [Nat.mod_eq_of_lt hlt] at hle
      omega
    · rename_i hold
      have hact : (w.timer t').active = true := by
        rcases (pdTimerStart_active hw t').mp hact with rfl | hact
        · simpa using hold
        · exact hact
      exact Finset.mem_filter.mpr ⟨hS, hact, hle⟩

/-- `pd_timer_stop` returns, and leaves the timer no due timer. -/
theorem TimersOf.stop (h : TimersOf S w) :
    ∃ w', pdTimerStop w t = some w' ∧ PhaseStep S w w' ∧
      dueTimers S w' ⊆ (dueTimers S w).erase t := by
  obtain ⟨w', hw, hv⟩ := pdTimerStop_valid (t := t) h.valid
  have hnow := (pdTimerStop_time hw).1
  have hne := fun t' => (pdTimerStop_active hw t').mp
  refine ⟨w', hw, ⟨⟨hv, fun t' hact => ?_, h.card, hnow ▸ h.now⟩, hnow⟩, fun t' hdue => ?_⟩
  · exact h.active t' (hne t' hact).2
  · obtain ⟨hS, hact, hle⟩ := Finset.mem_filter.mp hdue
    rw [hnow, pdTimerStop_timeout hw] at hle
    obtain ⟨htt, hact⟩ := hne t' hact
    exact Finset.mem_erase.mpr ⟨htt, Finset.mem_filter.mpr ⟨hS, hact, hle⟩⟩

theorem TimersOf.logObs {o : Obs} (h : TimersOf S w) : TimersOf S (w.logObs o) :=
  ⟨h.valid.congr rfl rfl, h.active, h.card, h.now⟩

/-- `pd_timer_repeat` writes the interval first. -/
theorem TimersOf.setInterval {i : Nat} (h : TimersOf S w) :
    TimersOf S (w.setTimer t { w.timer t with interval := i }) ∧
      dueTimers S (w.setTimer t { w.timer t with interval := i }) = dueTimers S w := by
  have hsame : ∀ t', ((w.setTimer t { w.timer t with interval := i }).timer t').active =
        (w.timer t').active ∧
      ((w.setTimer t { w.timer t with interval := i }).timer t').timeout =
        (w.timer t').timeout := by
    intro t'
    by_cases htt : t' = t
    · subst htt
      simp [World.setTimer]
    · simp [World.setTimer, htt]
  refine ⟨⟨h.valid.setTimer rfl rfl, fun t' hact => ?_, h.card, h.now⟩, ?_⟩
  · rw [(hsame t').1] at hact
    exact h.active t' hact
  · apply Finset.filter_congr
    intro t' _
    rw [(hsame t').1, (hsame t').2]
    rfl

/-- A call of a callback returns. -/
theorem TimersOf.call {k : TimerCall} (h : TimersOf S w) (hk : k.timer ∈ S) :
    ∃ w', k.run w = some w' ∧ PhaseStep S w w' ∧
      (k.Defers w → dueTimers S w' ⊆ dueTimers S w) := by
  cases k with
  | start t cb d =>
    obtain ⟨w', hw, hstep, hdue⟩ :=
      (h.logObs (o := .timerStart t)).start (t := t) cb (d % 2 ^ 64) hk
    have hrun : (TimerCall.start t cb d).run w = some w' := by
      simp only [TimerCall.run, TimerCall.call, api, hw, Option.map_some]
      rfl
    exact ⟨w', hrun, ⟨hstep.timers, hstep.now⟩, hdue⟩
  | repeating t cb d =>
    obtain ⟨h1, hsame⟩ := (h.logObs (o := .timerStart t)).setInterval (t := t) (i := d % 2 ^ 64)
    obtain ⟨w', hw, hstep, hdue⟩ := h1.start (t := t) cb (d % 2 ^ 64) hk
    have hrun : (TimerCall.repeating t cb d).run w = some w' := by
      have hrep : pdTimerRepeat (w.logObs (.timerStart t)) t cb (d % 2 ^ 64) = some w' := hw
      simp only [TimerCall.run, TimerCall.call, api, hrep, Option.map_some]
      rfl
    refine ⟨w', hrun, ⟨hstep.timers, hstep.now⟩, fun hd => ?_⟩
    rw [hsame] at hdue
    apply hdue
    intro hact
    apply hd
    simpa [World.setTimer, World.logObs] using hact
  | stop t =>
    obtain ⟨w', hw, hstep, hdue⟩ := h.stop (t := t)
    have hrun : (TimerCall.stop t).run w = some (w'.logObs (.timerStop t)) := by
      simp [TimerCall.run, TimerCall.call, api, hw, goOn]
    exact ⟨_, hrun, ⟨hstep.timers.logObs, hstep.now⟩,
      fun _ => hdue.trans (Finset.erase_subset ..)⟩

theorem TimersOf.calls {calls : List TimerCall} (h : TimersOf S w)
    (hk : ∀ k ∈ calls, k.timer ∈ S) :
    ∃ w', runCalls w calls = some w' ∧ PhaseStep S w w' ∧
      (CallsDefer w calls → dueTimers S w' ⊆ dueTimers S w) := by
  induction calls generalizing w with
  | nil => exact ⟨w, rfl, ⟨h, rfl⟩, fun _ => Finset.Subset.refl _⟩
  | cons k calls ih =>
    obtain ⟨w1, h1, hs1, hd1⟩ := h.call (hk k List.mem_cons_self)
    obtain ⟨w2, h2, hs2, hd2⟩ := ih hs1.timers fun k' hk' => hk k' (List.mem_cons_of_mem _ hk')
    refine ⟨w2, by simp [runCalls, h1, h2], hs1.trans hs2, fun hd => ?_⟩
    exact (hd2 (hd.2 w1 h1)).trans (hd1 hd.1)

/-- The rest of a round returns. -/
theorem TimersOf.rearm (h : TimersOf S w) (ht : t ∈ S) :
    ∃ r, pdTimersRearm w t = some r ∧ PhaseStep S w r.1 ∧
      (RearmDefers w t → dueTimers S r.1 ⊆ dueTimers S w) := by
  unfold pdTimersRearm
  split
  · rename_i hi
    obtain ⟨w', hw, hstep, hdue⟩ :=
      h.start (t := t) (w.timer t).onTimeout (w.timer t).interval ht
    exact ⟨w'.goOn [.timersRun], by rw [hw]; rfl, ⟨hstep.timers, hstep.now⟩,
      fun hd => hdue fun hact => hd hact hi⟩
  · exact ⟨_, rfl, ⟨h, rfl⟩, fun _ => Finset.Subset.refl _⟩

/-- The head of the loop returns; if it goes on, it has taken a due timer. -/
theorem TimersOf.run (h : TimersOf S w) :
    ∃ r, pdTimersRun w = some r ∧ PhaseStep S w r.1 ∧ (rearms r.2 = [] ∨
      ∃ t ∈ S, rearms r.2 = [t] ∧ dueTimers S r.1 ⊂ dueTimers S w) := by
  unfold pdTimersRun
  split
  · exact ⟨_, rfl, ⟨h, rfl⟩, .inl rfl⟩
  · rename_i min hpeek
    split
    · exact ⟨_, rfl, ⟨h, rfl⟩, .inl rfl⟩
    · rename_i hdue
      obtain ⟨w', hw, hstep, hsub⟩ := h.stop (t := min)
      have hact : (w.timer min).active = true := ((h.valid.peek []).1 min hpeek).active
      have hin : min ∈ dueTimers S w :=
        Finset.mem_filter.mpr ⟨h.active min hact, hact, Nat.le_of_not_lt hdue⟩
      have hlt : dueTimers S w' ⊂ dueTimers S w :=
        hsub.trans_ssubset (Finset.erase_ssubset hin)
      simp only [hw, Option.bind_eq_bind, Option.bind_some]
      split
      · exact ⟨_, rfl, ⟨hstep.timers.logObs, hstep.now⟩,
          .inr ⟨min, h.active min hact, rfl, hlt⟩⟩
      · exact ⟨_, rfl, ⟨hstep.timers, hstep.now⟩, .inr ⟨min, h.active min hact, rfl, hlt⟩⟩

/-- **One round.** It returns, and if nothing in it is due at once, fewer timers are due after it. -/
theorem TimersOf.round {calls : List TimerCall} (h : TimersOf S w)
    (hk : ∀ k ∈ calls, k.timer ∈ S) :
    ∃ r, timersRound w calls = some r ∧ TimersOf S r.1 ∧ (r.2 = true → RoundDefers w calls →
      (dueTimers S r.1).card < (dueTimers S w).card) := by
  obtain ⟨r, hr, hstep, hgo⟩ := h.run
  rcases hgo with hend | ⟨t, ht, hgo, hlt⟩
  · refine ⟨(r.1, false), by simp [timersRound, hr, hend], hstep.timers, fun hf => ?_⟩
    cases hf
  · have hcb : ∀ k ∈ callbackCalls r.2 calls, k.timer ∈ S := by
      intro k hin
      unfold callbackCalls at hin
      split at hin
      · exact hk k hin
      · cases hin
    obtain ⟨w1, h1, hs1, hd1⟩ := hstep.timers.calls hcb
    obtain ⟨r2, h2, hs2, hd2⟩ := hs1.timers.rearm ht
    refine ⟨(r2.1, true), by simp [timersRound, hr, hgo, h1, h2], hs2.timers, fun _ hd => ?_⟩
    obtain ⟨hcalls, hrearm⟩ := hd r hr t (by simp [hgo])
    apply Finset.card_lt_card
    exact ((hd2 (hrearm w1 h1)).trans (hd1 hcalls)).trans_ssubset hlt

end

/-! ## The whole call -/

section
variable {S : Finset Tid} {f : Nat → List TimerCall} {w : World}

theorem TimersOf.rounds (h : TimersOf S w) (hf : ∀ n, ∀ k ∈ f n, k.timer ∈ S) (n : Nat) :
    ∃ r, timersRounds f n w = some r ∧ TimersOf S r.1 := by
  induction n with
  | zero => exact ⟨(w, true), rfl, h⟩
  | succ n ih =>
    obtain ⟨⟨w1, b⟩, h1, hs1⟩ := ih
    cases b with
    | false => exact ⟨(w1, false), by simp [timersRounds, h1], hs1⟩
    | true =>
      obtain ⟨r, hr, hs, _⟩ := hs1.round (hf n)
      exact ⟨r, by simp [timersRounds, h1, hr], hs⟩

/-- A call that has returned stays so. -/
theorem timersRounds_returned {n m : Nat} {w' : World} (h : timersRounds f n w = some (w', false))
    (hm : n ≤ m) : timersRounds f m w = some (w', false) := by
  induction m, hm using Nat.le_induction with
  | base => exact h
  | succ m _ ih => simp [timersRounds, ih]

/-- From some round on, no timer is started that is due at once. -/
def EventuallyDefers (f : Nat → List TimerCall) (w : World) : Prop :=
  ∃ N, ∀ n ≥ N, ∀ w', timersRounds f n w = some (w', true) → RoundDefers w' (f n)

/-- While no round starts a timer that is due at once, each leaves fewer due timers. -/
theorem TimersOf.returns {w1 : World} {N n : Nat} (hf : ∀ n, ∀ k ∈ f n, k.timer ∈ S)
    (hd : ∀ n ≥ N, ∀ w', timersRounds f n w = some (w', true) → RoundDefers w' (f n))
    (hn : N ≤ n) (hw : timersRounds f n w = some (w1, true)) (h : TimersOf S w1) :
    TimersRunReturns f w := by
  obtain ⟨⟨w2, b⟩, hr, h2, hlt⟩ := h.round (hf n)
  have hnext : timersRounds f (n + 1) w = some (w2, b) := by simp [timersRounds, hw, hr]
  cases b with
  | false => exact ⟨n + 1, w2, hnext⟩
  | true =>
    have hless := hlt rfl (hd n hn w1 hw)
    exact TimersOf.returns hf hd (Nat.le_succ_of_le hn) hnext h2
termination_by (dueTimers S w1).card

/-- **A call of `pd_timers_run` returns exactly when only finitely many of its rounds start a timer
that is due at once**, in any state and whatever the callbacks do. -/
theorem timers_run_returns_iff {c : Cfg} (r : Run TimersFit c) (hcard : S.card < 2 ^ 32)
    (hactive : ∀ t, (c.world.timer t).active = true → t ∈ S)
    (hf : ∀ n, ∀ k ∈ f n, k.timer ∈ S) :
    TimersRunReturns f c.world ↔ EventuallyDefers f c.world := by
  have h : TimersOf S c.world := by
    obtain ⟨due, htimed⟩ := Run.timed r
    exact ⟨Run.timersValid (fun c x hx => hx) r, hactive, hcard, htimed.inv.now⟩
  constructor
  · rintro ⟨N, w', hend⟩
    refine ⟨N, fun n hn w1 hw1 => ?_⟩
    rw [timersRounds_returned hend hn] at hw1
    cases hw1
  · rintro ⟨N, hd⟩
    obtain ⟨⟨w1, b⟩, hN, h1⟩ := h.rounds hf N
    cases b with
    | false => exact ⟨N, w1, hN⟩
    | true => exact h1.returns hf hd (Nat.le_refl N) hN

end

/-! ## Concrete calls -/

/-- Timer 0 is due, and `pd_timers_run` is called. -/
theorem due_timer : ∃ c rest, Run TimersFit c ∧ c.stack = .lib .timersRun :: rest ∧
    c.world.now = 5 ∧ c.world.timer = Function.update (fun _ => pdTimerInit) 0
      { timeout := 5, interval := 0, active := true, onTimeout := true } ∧
    (timersRounds (fun n => if n = 0 then [.start 1 true 0] else []) 3 c.world).map (·.2) =
      some false := by
  have r : Run TimersFit _ := Run.play (Cfg.start_init [])
    [.api (.timerStart 0 true 5) (.ok 0 []), .env (.tick 5), .api .ioRun (.ok 0 []),
      .lib (.ok 0 [])] rfl
  exact ⟨_, _, r, rfl, rfl, rfl, rfl⟩

/-- The first callback starts a timer without a delay, and the second nothing. -/
theorem timers_run_returns_iff_zero : ∃ c, Run TimersFit c ∧
    TimersRunReturns (fun n => if n = 0 then [.start 1 true 0] else []) c.world ∧
    EventuallyDefers (fun n => if n = 0 then [.start 1 true 0] else []) c.world := by
  obtain ⟨c, rest, r, -, -, htimer, hrounds⟩ := due_timer
  obtain ⟨⟨w', b⟩, hw, hb⟩ := Option.map_eq_some_iff.mp hrounds
  cases hb
  have hreturns : TimersRunReturns (fun n => if n = 0 then [.start 1 true 0] else []) c.world :=
    ⟨3, w', hw⟩
  refine ⟨c, r, hreturns, (timers_run_returns_iff (S := {0, 1}) r (by decide) ?_ ?_).mp hreturns⟩
  · intro t hact
    rw [htimer] at hact
    by_cases ht : t = 0
    · simp [ht]
    · simp [ht, pdTimerInit] at hact
  · intro n k hk
    by_cases hn : n = 0
    · simp only [hn, if_true, List.mem_singleton] at hk
      subst hk
      decide
    · simp [hn] at hk

/-- Timer 0 is the only one, is due, and is not to repeat. -/
structure OnlyTimer (w : World) : Prop where
  timers : TimersOf {0} w
  due : (w.timer 0).timeout ≤ w.now
  fields : (w.timer 0).active = true ∧ (w.timer 0).onTimeout = true ∧ (w.timer 0).interval = 0

/-- Its callback starts it again, without a delay. -/
theorem OnlyTimer.round {w : World} (h : OnlyTimer w) :
    ∃ w', timersRound w [.start 0 true 0] = some (w', true) ∧ OnlyTimer w' := by
  obtain ⟨hact, hcb, hint⟩ := h.fields
  have hpeek : heapPeek w.timers = some 0 := by
    obtain ⟨hroot, hnone⟩ := h.timers.valid.peek []
    cases hp : heapPeek w.timers with
    | none =>
      rw [hnone hp 0] at hact
      cases hact
    | some m =>
      have hm := h.timers.active m (hroot m hp).active
      rw [Finset.mem_singleton.mp hm]
  -- the timer is stopped and called back
  obtain ⟨w1, hstop, hs1, _⟩ := h.timers.stop (t := 0)
  have h1 : w1.timer 0 = { w.timer 0 with active := false } := by
    rw [pdTimerStop_timer hstop]
    simp [TimerView.stop, timerView, hact]
  have hrun : pdTimersRun w =
      some (w1.call (.onTimeout 0 (w1.timer 0).timeout) [.timersRearm 0]) := by
    simp [pdTimersRun, hpeek, Nat.not_lt.mpr h.due, hstop, h1, hcb]
  -- the callback starts it
  generalize hw1' : (w1.call (.onTimeout 0 (w1.timer 0).timeout) [.timersRearm 0]).1 = w1'
  have ht1 : TimersOf {0} w1' := by
    rw [← hw1']
    exact hs1.timers.logObs
  have htimer1 : w1'.timer 0 = { w.timer 0 with active := false } := by
    rw [← hw1']
    exact h1
  obtain ⟨w2, hstart, hs2, _⟩ := (ht1.logObs (o := .timerStart 0)).start (t := 0) true 0
    (Finset.mem_singleton_self 0)
  have h2 : w2.timer 0 = { w.timer 0 with
      active := true, timeout := w1'.now % 2 ^ 64, onTimeout := true } := by
    rw [pdTimerStart_timer hstart]
    simp [TimerView.start, timerView, World.logObs, htimer1]
  have hcall : runCalls w1' [.start 0 true 0] = some w2 := by
    simp [runCalls, TimerCall.run, TimerCall.call, api, hstart, goOn]
  have hrearm : pdTimersRearm w2 0 = some (w2.goOn [.timersRun]) := by
    simp [pdTimersRearm, h2, hint]
  refine ⟨w2, ?_, hs2.timers, ?_, ?_⟩
  · rw [timersRound, hrun, Option.bind_some]
    show (runCalls (w1.call (.onTimeout 0 (w1.timer 0).timeout) [.timersRearm 0]).1
      [.start 0 true 0]).bind _ = _
    rw [hw1', hcall, Option.bind_some, hrearm]
    rfl
  · rw [h2, hs2.now]
    exact Nat.mod_le ..
  · rw [h2]
    exact ⟨rfl, rfl, hint⟩

theorem not_timers_run_returns : ¬ ∀ (c : Cfg) (rest : List Item) (S : Finset Tid)
    (f : Nat → List TimerCall), Run AnyStep c → c.stack = .lib .timersRun :: rest →
    (∀ t, (c.world.timer t).active = true → t ∈ S) → (∀ n, ∀ k ∈ f n, k.timer ∈ S) →
    TimersRunReturns f c.world := by
  intro hall
  obtain ⟨c, rest, r, hst, hnow, htimer, -⟩ := due_timer
  have hactive : ∀ t, (c.world.timer t).active = true → t ∈ ({0} : Finset Tid) := by
    intro t hact
    rw [htimer] at hact
    by_cases ht : t = 0
    · simp [ht]
    · simp [ht, pdTimerInit] at hact
  have h0 : OnlyTimer c.world := by
    have hv : TimersValid c.world := Run.timersValid (fun c x hx => hx) r
    refine ⟨⟨hv, hactive, by decide, by rw [hnow]; decide⟩, ?_, ?_⟩
    · rw [htimer, hnow]
      simp
    · rw [htimer]
      simp
  obtain ⟨n, w', hend⟩ := hall c rest {0} (fun _ => [.start 0 true 0])
    (r.mono fun _ _ _ => trivial) hst hactive (by simp [TimerCall.timer])
  -- after any number of rounds the timer is due again
  have busy : ∀ n, ∃ w', timersRounds (fun _ => [.start 0 true 0]) n c.world = some (w', true) ∧
      OnlyTimer w' := by
    intro n
    induction n with
    | zero => exact ⟨c.world, rfl, h0⟩
    | succ n ih =>
      obtain ⟨w1, h1, hw1⟩ := ih
      obtain ⟨w2, h2, hw2⟩ := hw1.round
      exact ⟨w2, by simp [timersRounds, h1, h2], hw2⟩
  obtain ⟨w1, h1, _⟩ := busy n
  rw [hend] at h1
  cases h1

end Pandio
