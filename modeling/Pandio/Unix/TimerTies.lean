import Pandio.Heap.Ties
import Pandio.Unix.Deadlines
import Pandio.Unix.TimerMembers

/- Timers of the same deadline. `pd_timers_comparator` does not tell them apart, so it is
   the shape of the heap that decides which of them fires first. Beside a run every start
   of a timer is numbered; the starts whose callbacks were invoked are kept in the order
   of the callbacks.

   Two timers tie that were started at the same time of the loop with the same delay.
   `pd_timer_start` puts no timer above an earlier one that it ties with: the new node
   stays below its equals. `heap_remove`, for `pd_timer_stop` and for `pd_timers_run`
   alike, may, when the ties lie so in the heap that it has to choose between them. As
   long as it does not, the root is the timer whose turn it is. -/
namespace Pandio
open World LevelOrder

/-! ## A run with its starts -/

/-- A start of a timer: the loop's time, the delay, and which of all starts it is, from 1 on. -/
structure Start where
  now : Nat
  delay : Nat
  nth : Nat
  deriving DecidableEq, Repr

/-- A configuration with the last start of each timer, the number of all starts, and those whose
callback was invoked, in the order of the callbacks. -/
structure Lineup where
  cfg : Cfg
  last : Tid → Start
  count : Nat
  fired : List Start

/-- The timers whose callbacks were invoked. -/
def calledTimers (log : List Obs) : List Tid :=
  log.filterMap fun o =>
    match o with
    | .cb (.onTimeout t _) _ => some t
    | _ => none

/-- The timers whose callbacks a step invokes. -/
def newlyCalled (c c' : Cfg) : List Tid :=
  (calledTimers c'.world.log).drop (calledTimers c.world.log).length

/-- The starts after a step. -/
def Lineup.next (g : Lineup) (x : Act) (c' : Cfg) : Lineup :=
  { cfg := c'
    last :=
      match started g.cfg x with
      | some (t, d) => Function.update g.last t ⟨g.cfg.world.now, d, g.count + 1⟩
      | none => g.last
    count := g.count + (started g.cfg x).toList.length
    fired := g.fired ++ (newlyCalled g.cfg c').map g.last }

def Lineup.step (g : Lineup) (x : Act) : Option Lineup := (Pandio.step g.cfg x).map (g.next x)

def Lineup.Init (g : Lineup) : Prop :=
  g.cfg.Init ∧ g.last = (fun _ => ⟨0, 0, 0⟩) ∧ g.count = 0 ∧ g.fired = []

/-- The runs whose steps all meet `ok`, with their starts. -/
abbrev LineupRun (ok : Lineup → Act → Prop) : Lineup → Prop :=
  Machine.Reach Lineup.step ok Lineup.Init

/-- Two starts at the same time of the loop with the same delay, the first one first. -/
def Start.Before (e e' : Start) : Prop := e.now = e'.now → e.delay = e'.delay → e.nth < e'.nth

instance (e e' : Start) : Decidable (e.Before e') := inferInstanceAs (Decidable (_ → _ → _))

/-- The callbacks of timers that were started at the same time of the loop with the same delay came
in the order of the starts, and none came before that of a timer that still waits. -/
structure FiresInTurn (g : Lineup) : Prop where
  order : g.fired.Pairwise Start.Before
  waiting : ∀ e ∈ g.fired, ∀ t, (g.cfg.world.timer t).active = true → e.Before (g.last t)

/-- Two such starts, the second one first. -/
def Start.After (e e' : Start) : Prop := e.now = e'.now ∧ e.delay = e'.delay ∧ e'.nth < e.nth

instance : DecidableRel Start.After := fun _ _ => inferInstanceAs (Decidable (_ ∧ _))

/-- When a timer is taken from the heap, the ties of the others are not in its way: the last node was
started after those of its ties that are above or below that timer, and from there downwards a right
child, unless it is the last node, before its ties in the left branch. -/
def TiesAside (g : Lineup) (x : Act) : Prop :=
  ∀ t ∈ heapRemoved g.cfg x, ∀ i < g.cfg.world.timers.size + 1,
    heapAt g.cfg.world.timers i = some t →
    TiesApart (fun u v => (g.last u).After (g.last v)) g.cfg.world.timers i

/-- The condition of the runs. -/
def InTurn (g : Lineup) (x : Act) : Prop := TimersFit g.cfg x ∧ TiesAside g x

instance (g : Lineup) (x : Act) : Decidable (TiesAside g x) :=
  inferInstanceAs (Decidable (∀ t ∈ heapRemoved g.cfg x, _))

instance (g : Lineup) (x : Act) : Decidable (InTurn g x) := inferInstanceAs (Decidable (_ ∧ _))

/-! ## What a step does to the heap -/

/-- A step leaves the heap and the active timers alone, or inserts one timer, or removes one; a
callback is that of the root, which is removed. -/
inductive HeapStep (c : Cfg) (x : Act) (c' : Cfg) : Prop where
  | idle : started c x = none → heapRemoved c x = none → newlyCalled c c' = [] →
      c'.world.timers = c.world.timers →
      (∀ t, (c'.world.timer t).active = (c.world.timer t).active) → HeapStep c x c'
  | insert {t : Tid} {d : Nat} : started c x = some (t, d) → (c.world.timer t).active = false →
      newlyCalled c c' = [] →
      heapInsert (pdTimersComparator c'.world) c.world.timers t = some c'.world.timers →
      (∀ t', (c'.world.timer t').active = true ↔ t' = t ∨ (c.world.timer t').active = true) →
      HeapStep c x c'
  | remove {t : Tid} {r : Option Tid} : started c x = none → heapRemoved c x = some t →
      (newlyCalled c c' = [] ∨ newlyCalled c c' = [t] ∧ heapPeek c.world.timers = some t) →
      heapRemove (pdTimersComparator c.world) c.world.timers t = some (c'.world.timers, r) →
      (c.world.timer t).active = true →
      (∀ t', (c'.world.timer t').active = true ↔ t' ≠ t ∧ (c.world.timer t').active = true) →
      HeapStep c x c'

theorem calledTimers_append (l m : List Obs) :
    calledTimers (l ++ m) = calledTimers l ++ calledTimers m := List.filterMap_append ..

theorem calledTimers_filter (l : List Obs) : calledTimers (l.filter isTimerObs) = calledTimers l := by
  unfold calledTimers
  rw [List.filterMap_filter]
  congr 1
  funext o
  unfold isTimerObs
  split <;> first | rfl | (split <;> simp_all)

section
variable {w w' : World} {t t' : Tid} {cb : Bool} {d : Nat}

theorem pdTimerStart_called (h : pdTimerStart w t cb d = some w') :
    calledTimers w'.log = calledTimers w.log := by
  have hlog := congrArg TimerView.log (pdTimerStart_timerView [] h)
  rw [← calledTimers_filter w'.log, show w'.log.filter isTimerObs = _ from hlog,
    ← calledTimers_filter w.log]
  unfold TimerView.start
  split
  · rfl
  · exact (calledTimers_append ..).trans (List.append_nil _)

theorem pdTimerStop_called (h : pdTimerStop w t = some w') :
    calledTimers w'.log = calledTimers w.log := by
  have hlog := congrArg TimerView.log (pdTimerStop_timerView [] h)
  rw [← calledTimers_filter w'.log, show w'.log.filter isTimerObs = _ from hlog,
    ← calledTimers_filter w.log]
  unfold TimerView.stop
  split
  · exact (calledTimers_append ..).trans (List.append_nil _)
  · rfl

/-- `pd_timer_start` of an inactive timer inserts it. -/
theorem pdTimerStart_inserts (h : pdTimerStart w t cb d = some w')
    (hact : (w.timer t).active = false) :
    heapInsert (pdTimersComparator w') w.timers t = some w'.timers := by
  simp only [pdTimerStart, hact, Bool.false_eq_true, if_false] at h
  obtain ⟨hp, hi, rfl⟩ := Option.map_eq_some_iff.mp h
  exact hi

/-- `pd_timer_stop` of an active timer removes it. -/
theorem pdTimerStop_removes (h : pdTimerStop w t = some w') (hact : (w.timer t).active = true) :
    ∃ r, heapRemove (pdTimersComparator w) w.timers t = some (w'.timers, r) := by
  simp only [pdTimerStop, hact, Bool.not_true, Bool.false_eq_true, if_false] at h
  obtain ⟨hp, hr, rfl⟩ := Option.map_eq_some_iff.mp h
  have htime : ∀ a, ((w.setTimer t { w.timer t with active := false }).timer a).timeout =
      (w.timer a).timeout := by
    intro a
    by_cases ha : a = t
    · subst ha
      simp [World.setTimer]
    · simp [World.setTimer, ha]
  have hcmp : pdTimersComparator (w.setTimer t { w.timer t with active := false }) =
      pdTimersComparator w := by
    funext a b
    simp only [pdTimersComparator, htime]
  rw [hcmp] at hr
  exact ⟨hp.2, hr⟩

end

section
variable {c c' : Cfg} {x : Act} {w' : World} {st : List Item}

theorem newlyCalled_eq {l : List Tid} (h : calledTimers c'.world.log = calledTimers c.world.log ++ l) :
    newlyCalled c c' = l := by
  rw [newlyCalled, h, List.drop_left]

/-- A step that leaves the timers alone. -/
theorem HeapStep.of_timerBase (hst : started c x = none) (hrem : heapRemoved c x = none)
    (h : w'.timerBase = c.world.timerBase) : HeapStep c x ⟨w', st⟩ := by
  refine .idle hst hrem ?_ (congrArg Prod.fst h) fun t => ?_
  · apply newlyCalled_eq
    have hlog : w'.log.filter isTimerObs = c.world.log.filter isTimerObs := congrArg (·.2.log) h
    rw [← calledTimers_filter w'.log, hlog, calledTimers_filter, List.append_nil]
  · exact congrArg (fun p => (p.2.timer t).active) h

/-- A step that starts a timer, unless it is active. -/
theorem HeapStep.start {w : World} {t : Tid} {cb : Bool} {d : Nat}
    (hst : started c x = if (w.timer t).active then none else some (t, d))
    (hrem : heapRemoved c x = none) (hw : pdTimerStart w t cb d = some w')
    (htimers : w.timers = c.world.timers)
    (htimer : ∀ t, (w.timer t).active = (c.world.timer t).active)
    (hlog : calledTimers w.log = calledTimers c.world.log) : HeapStep c x ⟨w', st⟩ := by
  have hcalled : newlyCalled c ⟨w', st⟩ = [] :=
    newlyCalled_eq (by rw [List.append_nil]; exact (pdTimerStart_called hw).trans hlog)
  cases hact : (w.timer t).active with
  | true =>
    simp only [pdTimerStart, hact, if_true, Option.some.injEq] at hw
    subst hw
    exact .idle (by rw [hst, hact, if_pos rfl]) hrem hcalled htimers htimer
  | false =>
    have hins := pdTimerStart_inserts hw hact
    rw [htimers] at hins
    refine .insert (by rw [hst, hact]; rfl) (by rw [← htimer, hact]) hcalled hins fun t' => ?_
    rw [← htimer]
    exact pdTimerStart_active hw t'

theorem pdTimersRun_heap {a : Answer} {rest : List Item} {r : World × List Item}
    (hv : TimersValid c.world) (hst : c.stack = .lib .timersRun :: rest)
    (h : pdTimersRun c.world = some r) : HeapStep c (.lib a) ⟨r.1, st⟩ := by
  have hnone : started c (.lib a) = none := by simp [started, rearmed, hst]
  unfold pdTimersRun at h
  cases hpeek : heapPeek c.world.timers with
  | none =>
    simp only [hpeek] at h
    cases h
    exact .of_timerBase hnone (by simp [heapRemoved, hst, hpeek]) rfl
  | some min =>
    have hact : (c.world.timer min).active = true := ((hv.peek []).1 min hpeek).active
    simp only [hpeek] at h
    split at h
    · rename_i hahead
      cases h
      exact .of_timerBase hnone (by simp [heapRemoved, hst, hpeek, hahead]) rfl
    · rename_i hdue
      obtain ⟨w1, hstop, h⟩ := Option.bind_eq_some_iff.mp h
      have hrem : heapRemoved c (.lib a) = some min := by
        simp [heapRemoved, hst, hpeek, hact, not_lt.mp hdue]
      obtain ⟨p, hp⟩ := pdTimerStop_removes hstop hact
      have hactive := pdTimerStop_active hstop
      have hcalled := pdTimerStop_called hstop
      split at h
      · cases h
        refine .remove hnone hrem (.inr ⟨newlyCalled_eq ?_, hpeek⟩) hp hact hactive
        rw [← hcalled]
        exact calledTimers_append ..
      · cases h
        refine .remove hnone hrem (.inl (newlyCalled_eq ?_)) hp hact hactive
        rw [List.append_nil]
        exact hcalled

theorem exec_heap {f : Frame} {a : Answer} {rest : List Item} {r : World × List Item}
    (hv : TimersValid c.world) (hst : c.stack = .lib f :: rest) (h : exec c.world f a = some r) :
    HeapStep c (.lib a) ⟨r.1, st⟩ := by
  by_cases hf : f = .timersRun
  · subst hf
    exact pdTimersRun_heap hv hst h
  · have hrem : heapRemoved c (.lib a) = none := by
      cases f <;> first | (simp [heapRemoved, hst]; done) | exact absurd rfl hf
    by_cases htiming : f.timing = false
    · refine .of_timerBase ?_ hrem (exec_timerBase htiming h)
      cases f <;> first | (simp [started, rearmed, hst]; done) | cases htiming
    · cases f with
      | timersRearm t =>
        simp only [exec, pdTimersRearm] at h
        split at h
        · rename_i hi
          obtain ⟨w', hw, rfl⟩ := Option.map_eq_some_iff.mp h
          refine HeapStep.start ?_ hrem hw rfl (fun _ => rfl) rfl
          simp [started, rearmed, hst, hi]
        · rename_i hi
          cases h
          refine .of_timerBase ?_ hrem rfl
          simp [started, rearmed, hst, hi]
      | ioRun timeout =>
        have hnone : started c (.lib a) = none := by simp [started, rearmed, hst]
        simp only [exec, ioRun] at h
        split at h
        · cases h
          exact .of_timerBase hnone hrem rfl
        · split at h
          · split at h <;> cases h
            exact .of_timerBase hnone hrem rfl
          · cases h
            exact .idle hnone hrem (newlyCalled_eq (List.append_nil _).symm) rfl fun _ => rfl
      | timersRun => exact absurd rfl hf
      | _ => exact absurd rfl htiming

theorem api_heap {k : Call} {a : Answer} {cb : Cb} {rest : List Item} {r : World × List Item}
    (hst : c.stack = .app cb :: rest) (h : api c.world k a = some r) :
    HeapStep c (.api k a) ⟨r.1, st⟩ := by
  have logged : ∀ t : Tid, calledTimers (c.world.logObs (.timerStart t)).log =
      calledTimers c.world.log := fun t =>
    (calledTimers_append ..).trans (List.append_nil _)
  by_cases hk : k.timing = false
  · refine .of_timerBase ?_ ?_ (api_timerBase hk h)
    · cases k <;> first | rfl | cases hk
    · cases k <;> first | (simp [heapRemoved]; done) | cases hk
  · cases k with
    | timerStart t b d =>
      obtain ⟨w', hw, rfl⟩ := Option.map_eq_some_iff.mp h
      exact HeapStep.start (w := c.world.logObs (.timerStart t)) rfl (by simp [heapRemoved]) hw rfl
        (fun _ => rfl) (logged t)
    | timerRepeat t b d =>
      obtain ⟨w', hw, rfl⟩ := Option.map_eq_some_iff.mp h
      refine HeapStep.start ?_ (by simp [heapRemoved]) hw rfl (fun t' => ?_) (logged t)
      · simp [started, World.setTimer, World.logObs]
      · by_cases ht : t' = t
        · subst ht
          simp [World.setTimer, World.logObs]
        · simp [World.setTimer, World.logObs, ht]
    | timerStop t =>
      obtain ⟨w', hw, rfl⟩ := Option.map_eq_some_iff.mp h
      have hcalled : newlyCalled c ⟨((w'.logObs (.timerStop t)).goOn []).1, st⟩ = [] := by
        apply newlyCalled_eq
        rw [List.append_nil, ← pdTimerStop_called hw]
        exact (calledTimers_append ..).trans (List.append_nil _)
      cases hact : (c.world.timer t).active with
      | false =>
        simp only [pdTimerStop, hact, Bool.not_false, if_true, Option.some.injEq] at hw
        subst hw
        exact .idle rfl (by simp [heapRemoved, hst, hact]) hcalled rfl fun _ => rfl
      | true =>
        obtain ⟨p, hp⟩ := pdTimerStop_removes hw hact
        have hactive := pdTimerStop_active hw
        exact .remove rfl (by simp [heapRemoved, hst, hact]) (.inl hcalled) hp hact hactive
    | _ => exact absurd rfl hk

/-- **What any step does to the heap.** -/
theorem step_heap (hv : TimersValid c.world) (hs : step c x = some c') : HeapStep c x c' := by
  rcases step_cases hs with ⟨a, f, rest, r, rfl, hst, hr, rfl⟩ |
    ⟨k, a, cb, rest, r, rfl, hst, hr, rfl⟩ | ⟨p, cb, rest, rfl, hst, hcb, rfl⟩ |
    ⟨e, w', rfl, he, rfl⟩
  · exact exec_heap hv hst hr
  · exact api_heap hst hr
  · exact .of_timerBase rfl rfl rfl
  · cases e with
    | tick n =>
      simp only [env] at he
      split at he <;> cases he
      exact .idle rfl rfl (newlyCalled_eq (List.append_nil _).symm) rfl fun _ => rfl
    | arrive fd bytes | peerFin fd | workDone t =>
      simp only [env] at he
      split at he <;> cases he
      exact .of_timerBase rfl rfl rfl
    | openFd fd =>
      simp only [env] at he
      split at he <;> cases he
      exact .of_timerBase rfl rfl (setKernel_timerBase (Kernel.newSocket_clock ..))
    | closeFd fd =>
      cases he
      exact .of_timerBase rfl rfl (setKernel_timerBase (Kernel.close_clock ..))

end

/-! ## The invariant -/

/-- The two timers tie, and the second was started first. -/
def Lineup.Later (g : Lineup) (u v : Tid) : Prop :=
  (g.cfg.world.timer u).timeout = (g.cfg.world.timer v).timeout ∧ (g.last u).After (g.last v)

/-- In the heap no timer is above an earlier one that it ties with, and the deadlines are those of
the starts. -/
structure LineupInv (g : Lineup) : Prop where
  heap : ∃ a, HeapValid (fun t => (g.cfg.world.timer t).timeout) g.cfg.world.timers a ∧
      Respects g.Later a ∧ ∀ t, (g.cfg.world.timer t).active = true ↔ ∃ i, a i = some t
  due : ∀ t, (g.cfg.world.timer t).active = true →
    (g.cfg.world.timer t).timeout = ((g.last t).now + (g.last t).delay) % 2 ^ 64
  count : ∀ t, (g.last t).nth ≤ g.count
  once : ∀ t t', (g.cfg.world.timer t).active = true → (g.cfg.world.timer t').active = true →
    (g.last t).nth = (g.last t').nth → t = t'
  past : ∀ e ∈ g.fired, e.nth ≤ g.count
  turn : FiresInTurn g

section
variable {g : Lineup} {c' : Cfg} {x : Act} {t : Tid}

/-- A step that starts no timer changes no deadline. -/
theorem timeout_eq (hs : step g.cfg x = some c') (hst : started g.cfg x = none) (t : Tid) :
    (c'.world.timer t).timeout = (g.cfg.world.timer t).timeout := by
  rw [(step_times hs).timeout, hst]

theorem Lineup.next_last (hst : started g.cfg x = none) : (g.next x c').last = g.last := by
  simp only [Lineup.next, hst]

theorem Lineup.next_count (hst : started g.cfg x = none) : (g.next x c').count = g.count := by
  simp [Lineup.next, hst]

theorem Lineup.next_fired {l : List Tid} (hl : newlyCalled g.cfg c' = l) :
    (g.next x c').fired = g.fired ++ l.map g.last := by
  simp only [Lineup.next, hl]

/-- A step that starts no timer changes no tie. -/
theorem Lineup.next_later (hs : Pandio.step g.cfg x = some c') (hst : started g.cfg x = none) :
    (g.next x c').Later = g.Later := by
  funext u v
  show ((c'.world.timer u).timeout = (c'.world.timer v).timeout ∧ _) = _
  rw [timeout_eq hs hst, timeout_eq hs hst, Lineup.next_last hst]
  rfl

/-- A step that leaves the heap alone. -/
theorem LineupInv.idle (h : LineupInv g) (hs : step g.cfg x = some c')
    (hst : started g.cfg x = none) (hcalled : newlyCalled g.cfg c' = [])
    (htimers : c'.world.timers = g.cfg.world.timers)
    (hact : ∀ t, (c'.world.timer t).active = (g.cfg.world.timer t).active) :
    LineupInv (g.next x c') := by
  have hlast : (g.next x c').last = g.last := Lineup.next_last hst
  have hcount : (g.next x c').count = g.count := Lineup.next_count hst
  have hfired : (g.next x c').fired = g.fired := (Lineup.next_fired hcalled).trans (List.append_nil _)
  have htime := timeout_eq hs hst
  constructor
  · obtain ⟨a, ha, hresp, hmem⟩ := h.heap
    refine ⟨a, ?_, ?_, fun t => ?_⟩
    · show HeapValid _ c'.world.timers a
      rw [htimers]
      exact ha.congr fun i t _ => htime t
    · rw [Lineup.next_later hs hst]
      exact hresp
    · show (c'.world.timer t).active = true ↔ _
      rw [hact]
      exact hmem t
  · intro t ht
    rw [hlast]
    show (c'.world.timer t).timeout = _
    rw [htime]
    exact h.due t (hact t ▸ ht)
  · rw [hlast, hcount]
    exact h.count
  · rw [hlast]
    exact fun t t' ht ht' => h.once t t' (hact t ▸ ht) (hact t' ▸ ht')
  · rw [hfired, hcount]
    exact h.past
  · refine ⟨?_, ?_⟩
    · rw [hfired]
      exact h.turn.order
    · rw [hfired, hlast]
      exact fun e he t ht => h.turn.waiting e he t (hact t ▸ ht)

/-- A timer is started: it comes after all others. -/
theorem LineupInv.insert {d : Nat} (h : LineupInv g) (hs : step g.cfg x = some c')
    (hst : started g.cfg x = some (t, d)) (hinactive : (g.cfg.world.timer t).active = false)
    (hroom : g.cfg.world.timers.size + 1 < 2 ^ 32) (hcalled : newlyCalled g.cfg c' = [])
    (hins : heapInsert (pdTimersComparator c'.world) g.cfg.world.timers t = some c'.world.timers)
    (hact : ∀ t', (c'.world.timer t').active = true ↔
      t' = t ∨ (g.cfg.world.timer t').active = true) : LineupInv (g.next x c') := by
  have hlast : (g.next x c').last =
      Function.update g.last t ⟨g.cfg.world.now, d, g.count + 1⟩ := by
    simp only [Lineup.next, hst]
  have hcount : (g.next x c').count = g.count + 1 := by simp [Lineup.next, hst]
  have hfired : (g.next x c').fired = g.fired := (Lineup.next_fired hcalled).trans (List.append_nil _)
  have hself : (g.next x c').last t = ⟨g.cfg.world.now, d, g.count + 1⟩ := by
    rw [hlast, Function.update_self]
  have hother : ∀ t', t' ≠ t → (g.next x c').last t' = g.last t' := fun t' ht => by
    rw [hlast, Function.update_of_ne ht]
  have htime : ∀ t', (c'.world.timer t').timeout =
      if t' = t then (g.cfg.world.now + d) % 2 ^ 64 else (g.cfg.world.timer t').timeout := by
    intro t'
    rw [(step_times hs).timeout, hst]
  have hle : ∀ t', ((g.next x c').last t').nth ≤ g.count + 1 := by
    intro t'
    by_cases ht : t' = t
    · rw [ht, hself]
    · rw [hother t' ht]
      exact (h.count t').trans (Nat.le_succ _)
  have hwas : ∀ t', t' ≠ t → (c'.world.timer t').active = true →
      (g.cfg.world.timer t').active = true := fun t' hne ht =>
    ((hact t').mp ht).resolve_left hne
  constructor
  · obtain ⟨a, ha, hresp, hmem⟩ := h.heap
    have hfree : ∀ i, a i ≠ some t := by
      intro i hi
      rw [(hmem t).mpr ⟨i, hi⟩] at hinactive
      cases hinactive
    have hold : ∀ i t', a i = some t' → t' ≠ t := by
      rintro i t' hi rfl
      exact hfree i hi
    -- the nodes keep their deadlines and their ties
    have ha' : HeapValid (fun t => (c'.world.timer t).timeout) g.cfg.world.timers a :=
      ha.congr fun i t' hi => by rw [htime, if_neg (hold i t' hi)]
    have hresp' : Respects (g.next x c').Later a := by
      intro i j u v hu hi hj hlater
      have hune := hold i u hi
      have hvne := hold j v hj
      refine hresp i j u v hu hi hj ⟨?_, ?_⟩
      · have := hlater.1
        simpa only [Lineup.next, htime, if_neg hune, if_neg hvne] using this
      · have := hlater.2
        rwa [hother u hune, hother v hvne] at this
    obtain ⟨h', a', hi, hv', hnames, hresp''⟩ := heapInsert_respects (fun _ _ => rfl)
      (fun u v h => h.1) ha' hfree hroom hresp' fun u hlater => by
        -- none was started after the new one
        have hlt := hlater.2.2.2
        rw [hself] at hlt
        exact absurd (hle u) (not_le.mpr hlt)
    obtain rfl : c'.world.timers = h' := Option.some.inj (hins.symm.trans hi)
    exact ⟨a', hv', hresp'',
      fun t' => (hact t').trans ((or_congr_right (hmem t')).trans (hnames t').symm)⟩
  · intro t' ht
    show (c'.world.timer t').timeout = _
    rw [htime]
    by_cases hne : t' = t
    · rw [if_pos hne, hne, hself]
    · rw [if_neg hne, hother t' hne]
      exact h.due t' (hwas t' hne ht)
  · rw [hcount]
    exact hle
  · -- the new start has a number of its own
    have hnew : ∀ t', t' ≠ t → ((g.next x c').last t').nth ≠ ((g.next x c').last t).nth := by
      intro t' hne
      rw [hself, hother t' hne]
      exact Nat.ne_of_lt (Nat.lt_succ_of_le (h.count t'))
    intro t1 t2 h1 h2 heq
    by_cases hne1 : t1 = t <;> by_cases hne2 : t2 = t
    · rw [hne1, hne2]
    · rw [hne1] at heq
      exact absurd heq.symm (hnew t2 hne2)
    · rw [hne2] at heq
      exact absurd heq (hnew t1 hne1)
    · rw [hother t1 hne1, hother t2 hne2] at heq
      exact h.once t1 t2 (hwas t1 hne1 h1) (hwas t2 hne2 h2) heq
  · rw [hfired, hcount]
    exact fun e he => (h.past e he).trans (Nat.le_succ _)
  · refine ⟨?_, fun e he t' ht => ?_⟩
    · rw [hfired]
      exact h.turn.order
    · rw [hfired] at he
      by_cases hne : t' = t
      · rw [hne, hself]
        exact fun _ _ => Nat.lt_succ_of_le (h.past e he)
      · rw [hother t' hne]
        exact h.turn.waiting e he t' (hwas t' hne ht)

/-- A timer is removed: when it is the root its turn has come. -/
theorem LineupInv.remove {r : Option Tid} (h : LineupInv g) (hs : step g.cfg x = some c')
    (hst : started g.cfg x = none) (hsize : g.cfg.world.timers.size < 2 ^ 32)
    (hcalled : newlyCalled g.cfg c' = [] ∨
      newlyCalled g.cfg c' = [t] ∧ heapPeek g.cfg.world.timers = some t)
    (hrem : heapRemove (pdTimersComparator g.cfg.world) g.cfg.world.timers t =
      some (c'.world.timers, r))
    (hties : ∀ i < g.cfg.world.timers.size + 1, heapAt g.cfg.world.timers i = some t →
      TiesApart (fun u v => (g.last u).After (g.last v)) g.cfg.world.timers i)
    (hactive : (g.cfg.world.timer t).active = true)
    (hact : ∀ t', (c'.world.timer t').active = true ↔
      t' ≠ t ∧ (g.cfg.world.timer t').active = true) : LineupInv (g.next x c') := by
  have hlast : (g.next x c').last = g.last := Lineup.next_last hst
  have hcount : (g.next x c').count = g.count := Lineup.next_count hst
  have htime := timeout_eq hs hst
  obtain ⟨a, ha, hresp, hmem⟩ := h.heap
  constructor
  · obtain ⟨i, hi⟩ := (hmem t).mp hactive
    have hrange := ha.full.range hi
    have hapart : TiesApart g.Later g.cfg.world.timers i :=
      (hties i (by omega) ((ha.heapAt hsize hrange.1 hrange.2).trans hi)).mono fun u v h => h.2
    obtain ⟨h', a', hr, hv', hnames, hresp'⟩ :=
      heapRemove_respects (fun _ _ => rfl) (fun u v h => h.1) ha hi hsize hresp hapart
    obtain ⟨rfl, -⟩ : c'.world.timers = h' ∧ r = some t := by
      have := hrem.symm.trans hr
      simpa using this
    refine ⟨a', hv'.congr fun i t' _ => htime t', ?_, fun t' => ?_⟩
    · rw [Lineup.next_later hs hst]
      exact hresp'
    · exact (hact t').trans ((and_congr_right fun _ => hmem t').trans (hnames t').symm)
  · intro t' ht
    rw [hlast]
    show (c'.world.timer t').timeout = _
    rw [htime]
    exact h.due t' ((hact t').mp ht).2
  · rw [hlast, hcount]
    exact h.count
  · rw [hlast]
    exact fun t1 t2 h1 h2 => h.once t1 t2 ((hact t1).mp h1).2 ((hact t2).mp h2).2
  · rw [hcount]
    intro e he
    rcases List.mem_append.mp he with he | he
    · exact h.past e he
    · obtain ⟨t', -, rfl⟩ := List.mem_map.mp he
      exact h.count t'
  · rcases hcalled with hcalled | ⟨hcalled, hpeek⟩
    · have hfired := (Lineup.next_fired (x := x) hcalled).trans (List.append_nil g.fired)
      refine ⟨?_, ?_⟩
      · rw [hfired]
        exact h.turn.order
      · rw [hfired, hlast]
        exact fun e he t' ht => h.turn.waiting e he t' ((hact t').mp ht).2
    · have hfired : (g.next x c').fired = g.fired ++ [g.last t] := Lineup.next_fired hcalled
      have hroot := (ha.peek.2 t hpeek).1
      refine ⟨?_, ?_⟩
      · rw [hfired, List.pairwise_append]
        refine ⟨h.turn.order, List.pairwise_singleton .., fun e he e' he' => ?_⟩
        rw [List.mem_singleton.mp he']
        exact h.turn.waiting e he t hactive
      · rw [hfired, hlast]
        intro e he t' ht
        obtain ⟨hne, ht⟩ := (hact t').mp ht
        rcases List.mem_append.mp he with he | he
        · exact h.turn.waiting e he t' ht
        · rw [List.mem_singleton.mp he]
          -- it is below the root, and does not tie with it or was started later
          intro hnow hdelay
          have hdue : (g.cfg.world.timer t).timeout = (g.cfg.world.timer t').timeout := by
            rw [h.due t' ht, h.due t hactive, hnow, hdelay]
          obtain ⟨i, hi⟩ := (hmem t').mp ht
          have hnot := hresp 1 i t t' (.root (ha.toIsTree.pos hi)) hroot hi
          refine lt_of_le_of_ne (not_lt.mp fun hlt => hnot ⟨hdue, hnow, hdelay, hlt⟩) fun heq => ?_
          exact hne (h.once t t' hactive ht heq).symm

theorem LineupInv.step (h : LineupInv g) (hv : TimersValid g.cfg.world) (hok : InTurn g x)
    (hs : step g.cfg x = some c') : LineupInv (g.next x c') := by
  cases step_heap hv hs with
  | idle hst _ hcalled htimers hact => exact h.idle hs hst hcalled htimers hact
  | insert hst hinactive hcalled hins hact =>
    exact h.insert hs hst hinactive (hok.1 _ hst) hcalled hins hact
  | remove hst hrem hcalled hr hactive hact =>
    exact h.remove hs hst hv.size_lt hcalled hr (hok.2 _ hrem) hactive hact

end

/-! ## Runs -/

section
variable {g : Lineup}

theorem LineupRun.run {ok : Lineup → Act → Prop} (hok : ∀ g x, ok g x → TimersFit g.cfg x)
    (r : LineupRun ok g) : Run TimersFit g.cfg := by
  refine Machine.Reach.map Lineup.cfg (fun _ x => x) (fun _ h => h.1) hok (fun g x g' hs => ?_) r
  obtain ⟨c', hc, rfl⟩ := Option.map_eq_some_iff.mp hs
  exact hc

theorem LineupInv.init (h : g.Init) : LineupInv g := by
  obtain ⟨⟨k, fd, -, -, hc⟩, hlast, hcount, hfired⟩ := h
  have hinactive : ∀ t, (g.cfg.world.timer t).active = false := by
    intro t
    rw [hc]
    rfl
  have hno : ∀ {P : Prop} t, (g.cfg.world.timer t).active = true → P := by
    intro P t ht
    rw [hinactive t] at ht
    cases ht
  refine ⟨⟨fun _ => none, ?_, ?_, fun t => ⟨hno t, fun h => ?_⟩⟩, fun t => hno t, fun t => ?_,
    fun t _ => hno t, ?_, ?_, ?_⟩
  · rw [hc]
    exact heapInit_valid _
  · intro i j u v _ hi
    cases hi
  · obtain ⟨i, hi⟩ := h
    cases hi
  · rw [hlast, hcount]
  · rw [hfired]
    simp
  · rw [hfired]
    exact .nil
  · rw [hfired]
    simp

/-- **Timers that tie fire in the order in which they were started**, in a run in which the ties are
aside whenever a timer is taken from the heap. -/
theorem timers_fire_in_turn (r : LineupRun InTurn g) : FiresInTurn g := by
  have h : LineupInv g := by
    refine r.invariant (P := LineupInv) (fun _ => .init) fun g x g' r h hok hs => ?_
    obtain ⟨c', hc, rfl⟩ := Option.map_eq_some_iff.mp hs
    have hv := Run.timersValid (fun _ _ h => h) (LineupRun.run (fun _ _ h => h.1) r)
    exact h.step hv hok hc
  exact h.turn

/-- The end of a run that is given step by step, with its starts. -/
theorem LineupRun.play {ok : Lineup → Act → Prop} [∀ g x, Decidable (ok g x)] (l : List Act)
    (hp : Machine.play Lineup.step ok ⟨Cfg.start [], fun _ => ⟨0, 0, 0⟩, 0, []⟩ l = some g) :
    LineupRun ok g :=
  (Machine.Reach.init ⟨Cfg.start_init [], rfl, rfl, rfl⟩).play hp

/-- Three timers are started with the same delay, a fourth with a longer one; one is stopped. -/
theorem timers_fire_in_turn_three : ∃ g, LineupRun InTurn g ∧
    g.fired = [⟨0, 5, 1⟩, ⟨0, 5, 2⟩, ⟨0, 5, 4⟩] ∧ FiresInTurn g := by
  have hplay : ∃ g, LineupRun InTurn g ∧ g.fired = [⟨0, 5, 1⟩, ⟨0, 5, 2⟩, ⟨0, 5, 4⟩] := by
    have r : LineupRun InTurn _ := LineupRun.play
      [.api (.timerStart 0 true 5) (.ok 0 []), .api (.timerStart 1 true 5) (.ok 0 []),
        .api (.timerStart 2 true 7) (.ok 0 []), .api (.timerStart 3 true 5) (.ok 0 []),
        .api (.timerStop 2) (.ok 0 []),
        .env (.tick 5), .api .ioRun (.ok 0 []), .lib (.ok 0 []), .lib (.ok 0 []), .ret none,
        .lib (.ok 0 []), .lib (.ok 0 []), .ret none, .lib (.ok 0 []), .lib (.ok 0 [])] rfl
    exact ⟨_, r, rfl⟩
  obtain ⟨g, r, hfired⟩ := hplay
  exact ⟨g, r, hfired, timers_fire_in_turn r⟩

/-- Two timers of the same delay and one that fires before them: when it is removed, the first of
the two is the last node, and is moved down under the second. -/
theorem not_timers_fire_in_turn : (∃ g, LineupRun (fun g x => TimersFit g.cfg x) g ∧
      g.fired = [⟨0, 1, 3⟩, ⟨0, 2, 2⟩, ⟨0, 2, 1⟩]) ∧
    ¬ ∀ g, LineupRun (fun g x => TimersFit g.cfg x) g → FiresInTurn g := by
  have hplay : ∃ g, LineupRun (fun g x => TimersFit g.cfg x) g ∧
      g.fired = [⟨0, 1, 3⟩, ⟨0, 2, 2⟩, ⟨0, 2, 1⟩] := by
    have r : LineupRun (fun g x => TimersFit g.cfg x) _ := LineupRun.play
      [.api (.timerStart 0 true 2) (.ok 0 []), .api (.timerStart 1 true 2) (.ok 0 []),
        .api (.timerStart 2 true 1) (.ok 0 []), .env (.tick 2), .api .ioRun (.ok 0 []),
        .lib (.ok 0 []), .lib (.ok 0 []), .ret none, .lib (.ok 0 []), .lib (.ok 0 []), .ret none,
        .lib (.ok 0 []), .lib (.ok 0 [])] rfl
    exact ⟨_, r, rfl⟩
  refine ⟨hplay, fun h => ?_⟩
  obtain ⟨g, r, hfired⟩ := hplay
  have horder := (h g r).order
  rw [hfired] at horder
  revert horder
  decide

end

end Pandio
