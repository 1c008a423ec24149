import Pandio.Heap.Ops
import Pandio.Unix.Footprint

/- What a step does to the timers. As long as the heap has fewer than 2^32 nodes it
   holds exactly the active timers, ordered by deadline, and the heap can be
   forgotten: `TimerMove` lists every way in which a step of the machine can change
   what is left, and all that is said about timers is derived from that list. -/
namespace Pandio
open World

/-! ## The view of the timers -/

/-- The loop's time, the clock, the timers, what happened to them, and the timers whose callback
is running, the innermost first. -/
structure TimerView where
  now : Nat
  clock : Nat
  timer : Tid → Timer
  log : List Obs
  rearms : List Tid

namespace TimerView

def logObs (v : TimerView) (o : Obs) : TimerView := { v with log := v.log ++ [o] }

def setInterval (v : TimerView) (t : Tid) (interval : Nat) : TimerView :=
  { v with timer := Function.update v.timer t { v.timer t with interval := interval } }

/-- What `pd_timer_start` does. -/
def start (v : TimerView) (t : Tid) (cb : Bool) (timeout : Nat) : TimerView :=
  if (v.timer t).active then v
  else
    { v with
      timer := Function.update v.timer t
        { v.timer t with
          active := true, timeout := (v.now + timeout) % 2 ^ 64, onTimeout := cb }
      log := v.log ++ [.refInc (.timer t)] }

/-- What `pd_timer_stop` does. -/
def stop (v : TimerView) (t : Tid) : TimerView :=
  if (v.timer t).active then
    { v with
      timer := Function.update v.timer t { v.timer t with active := false }
      log := v.log ++ [.refDec (.timer t)] }
  else v

/-- The callback of a timer starts, if it is set. -/
def fire (v : TimerView) (t : Tid) : TimerView :=
  { v with
    log := v.log ++
      if (v.timer t).onTimeout then [.cb (.onTimeout t (v.timer t).timeout) v.now] else []
    rearms := t :: v.rearms }

/-- The timer is active, and none that is has an earlier deadline. -/
structure Earliest (v : TimerView) (t : Tid) : Prop where
  active : (v.timer t).active = true
  le : ∀ t', (v.timer t').active = true → (v.timer t).timeout ≤ (v.timer t').timeout

end TimerView

/-- The ways to change the timers, where `P t d` holds when the step starts the inactive timer `t`
with the delay `d`, and `Q t` when the callback of `t` has returned and its interval is not 0. -/
inductive TimerMove (P : Tid → Nat → Prop) (Q : Tid → Prop) (v : TimerView) : TimerView → Prop where
  | tick (n : Nat) : TimerMove P Q v { v with clock := v.clock + n }
  | poll : TimerMove P Q v { v with now := v.clock }
  | start {t : Tid} {cb : Bool} {d : Nat} : ((v.timer t).active = false → P t d) →
      TimerMove P Q v ((v.logObs (.timerStart t)).start t cb d)
  | repeating {t : Tid} {cb : Bool} {d : Nat} : ((v.timer t).active = false → P t d) →
      TimerMove P Q v (((v.logObs (.timerStart t)).setInterval t d).start t cb d)
  | stop (t : Tid) : TimerMove P Q v ((v.stop t).logObs (.timerStop t))
  /-- `pd_timers_run` takes a due timer. -/
  | fire {t : Tid} : v.Earliest t → (v.timer t).timeout ≤ v.now →
      TimerMove P Q v ((v.stop t).fire t)
  | rearm {t : Tid} {rest : List Tid} : v.rearms = t :: rest → (v.timer t).interval ≠ 0 → Q t →
      ((v.timer t).active = false → P t (v.timer t).interval) →
      TimerMove P Q v
        ({ v with rearms := rest }.start t (v.timer t).onTimeout (v.timer t).interval)
  | once {t : Tid} {rest : List Tid} : v.rearms = t :: rest → (v.timer t).interval = 0 →
      TimerMove P Q v { v with rearms := rest }

/-- The timers whose callback a frame of the stack waits for. -/
def rearms (stack : List Item) : List Tid :=
  stack.filterMap fun i =>
    match i with
    | .lib (.timersRearm t) => some t
    | _ => none

def World.timerView (w : World) (stack : List Item) : TimerView :=
  { now := w.now, clock := w.kernel.clock, timer := w.timer, log := w.log.filter isTimerObs
    rearms := rearms stack }

def Cfg.timerView (c : Cfg) : TimerView := c.world.timerView c.stack

/-! ## Steps that leave the timers alone -/

/-- The part of the view that the state holds, with the heap. -/
def World.timerBase (w : World) : Heap Tid × TimerView := (w.timers, w.timerView [])

section
variable {w w' : World} {a : Answer} {r : World × List Item}

theorem SameTimers.timerBase (h : SameTimers w w')
    (hl : w'.log.filter isTimerObs = w.log.filter isTimerObs) : w'.timerBase = w.timerBase := by
  obtain ⟨h1, h2, h3, h4⟩ := h
  simp only [World.timerBase, timerView, h1, h2, h3, h4, hl]

theorem Touches.timerBase {F : Footprint} (t : Touches F w w') (ht : ¬ F.timers) :
    w'.timerBase = w.timerBase := by
  refine (t.timers ht).timerBase (t.filter_log fun o ho => ?_)
  by_contra h
  exact ht (ho.timers (by simpa using h))

theorem setKernel_timerBase {k : Kernel} (hk : k.clock = w.kernel.clock) :
    (w.setKernel k).timerBase = w.timerBase := by
  simp [World.timerBase, timerView, setKernel, hk]

theorem exec_timerBase {f : Frame} (hf : f.timing = false) (h : exec w f a = some r) :
    r.1.timerBase = w.timerBase := (exec_touches h).timerBase (by simp [Frame.footprint, hf])

theorem api_timerBase {c : Call} (hc : c.timing = false) (h : api w c a = some r) :
    r.1.timerBase = w.timerBase := (api_touches h).timerBase (by simp [Call.footprint, hc])

end

/-! ## The heap and the active timers -/

/-- The heap holds the active timers, ordered by deadline, and its size fits the 32 bits that
`heap_insert` and `heap_remove` keep of it. -/
structure TimersValid (w : World) : Prop where
  heap : ∃ a, HeapValid (fun t => (w.timer t).timeout) w.timers a ∧
    ∀ t, (w.timer t).active = true ↔ ∃ i, a i = some t
  size_lt : w.timers.size < 2 ^ 32

section
variable {w : World} {t : Tid} {cb : Bool} {d : Nat}

theorem TimersValid.congr {w' : World} (hv : TimersValid w) (h1 : w'.timers = w.timers)
    (h2 : w'.timer = w.timer) : TimersValid w' :=
  ⟨by rw [h1, h2]; exact hv.heap, by rw [h1]; exact hv.size_lt⟩

/-- Changes to the timers' other fields. -/
theorem TimersValid.setTimer {r : Timer} (hv : TimersValid w)
    (h1 : r.timeout = (w.timer t).timeout) (h2 : r.active = (w.timer t).active) :
    TimersValid (w.setTimer t r) := by
  obtain ⟨⟨a, ha, hact⟩, hsize⟩ := hv
  have hk : ∀ x, ((w.setTimer t r).timer x).timeout = (w.timer x).timeout ∧
      ((w.setTimer t r).timer x).active = (w.timer x).active := by
    intro x
    by_cases hx : x = t
    · subst hx
      simp [World.setTimer, h1, h2]
    · simp [World.setTimer, hx]
  refine ⟨⟨a, ha.congr fun _ x _ => (hk x).1, fun x => ?_⟩, hsize⟩
  rw [(hk x).2]
  exact hact x

theorem pdTimerStart_timerView {w' : World} (st : List Item) (h : pdTimerStart w t cb d = some w') :
    w'.timerView st = (w.timerView st).start t cb d := by
  simp only [pdTimerStart] at h
  split at h
  · rename_i hact
    cases h
    simp [TimerView.start, timerView, hact]
  · rename_i hact
    obtain ⟨hp, _, rfl⟩ := Option.map_eq_some_iff.mp h
    simp [TimerView.start, timerView, hact, setTimers, incRefs, setRefs, World.setTimer,
      World.logObs, isTimerObs]

theorem pdTimerStop_timerView {w' : World} (st : List Item) (h : pdTimerStop w t = some w') :
    w'.timerView st = (w.timerView st).stop t := by
  simp only [pdTimerStop] at h
  split at h
  · rename_i hact
    cases h
    simp_all [TimerView.stop, timerView]
  · rename_i hact
    obtain ⟨hp, _, rfl⟩ := Option.map_eq_some_iff.mp h
    simp_all [TimerView.stop, timerView, setTimers, decRefs, setRefs, World.setTimer,
      World.logObs, isTimerObs]

/-- `pd_timer_start` with room in the heap returns. -/
theorem pdTimerStart_valid (hv : TimersValid w)
    (hsize : (w.timer t).active = false → w.timers.size + 1 < 2 ^ 32) :
    ∃ w', pdTimerStart w t cb d = some w' ∧ TimersValid w' := by
  simp only [pdTimerStart]
  split
  · exact ⟨w, rfl, hv⟩
  · rename_i hact
    obtain ⟨⟨a, ha, hmem⟩, hlt⟩ := hv
    have hfree : ∀ i, a i ≠ some t := fun i hi => hact ((hmem t).mpr ⟨i, hi⟩)
    generalize hr : ({ w.timer t with
      active := true, timeout := (w.now + d) % 2 ^ 64, onTimeout := cb } : Timer) = r
    have hactive : r.active = true := by rw [← hr]
    have ha' : HeapValid (fun x => ((w.setTimer t r).timer x).timeout) w.timers a := by
      refine ha.congr fun i x hx => ?_
      have hxt : x ≠ t := by
        rintro rfl
        exact hfree i hx
      simp [World.setTimer, hxt]
    have hcmp : ∀ x y, pdTimersComparator ((w.setTimer t r).incRefs (.timer t)) x y =
        keyComparator (fun x => ((w.setTimer t r).timer x).timeout) x y := fun _ _ => rfl
    obtain ⟨h', a', hins, hv', hsz, hnames⟩ :=
      heapInsert_valid hcmp ha' hfree (hsize (by simpa using hact))
    have hrun : (heapInsert (pdTimersComparator ((w.setTimer t r).incRefs (.timer t)))
        ((w.setTimer t r).incRefs (.timer t)).timers t) = some h' := hins
    rw [hrun]
    refine ⟨_, rfl, ⟨a', hv', fun x => ?_⟩, by
      have := hsize (by simpa using hact)
      simp only [setTimers]
      omega⟩
    rw [hnames]
    by_cases hx : x = t
    · subst hx
      simp [setTimers, incRefs, setRefs, World.logObs, World.setTimer, hactive]
    · simp [setTimers, incRefs, setRefs, World.logObs, World.setTimer, hx, hmem]

theorem TimersValid.started (hv : TimersValid w)
    (hsize : (w.timer t).active = false → w.timers.size + 1 < 2 ^ 32)
    (h : pdTimerStart w t cb d = some w') : TimersValid w' := by
  obtain ⟨w2, hw2, hv2⟩ : ∃ w2, pdTimerStart w t cb d = some w2 ∧ TimersValid w2 :=
    pdTimerStart_valid hv hsize
  obtain rfl : w' = w2 := Option.some.inj (h.symm.trans hw2)
  exact hv2

/-- `pd_timer_stop` returns. -/
theorem pdTimerStop_valid (hv : TimersValid w) :
    ∃ w', pdTimerStop w t = some w' ∧ TimersValid w' := by
  simp only [pdTimerStop]
  split
  · exact ⟨w, rfl, hv⟩
  · rename_i hact
    obtain ⟨⟨a, ha, hmem⟩, hlt⟩ := hv
    obtain ⟨i, hi⟩ := (hmem t).mp (by simpa using hact)
    generalize hr : ({ w.timer t with active := false } : Timer) = r
    have hactive : r.active = false := by rw [← hr]
    have htime : r.timeout = (w.timer t).timeout := by rw [← hr]
    have ha' : HeapValid (fun x => ((w.setTimer t r).timer x).timeout) w.timers a := by
      refine ha.congr fun i x hx => ?_
      by_cases hxt : x = t
      · subst hxt
        simp [World.setTimer, htime]
      · simp [World.setTimer, hxt]
    have hcmp : ∀ x y, pdTimersComparator (w.setTimer t r) x y =
        keyComparator (fun x => ((w.setTimer t r).timer x).timeout) x y := fun _ _ => rfl
    obtain ⟨h', a', hrem, hv', hsz, hnames⟩ := heapRemove_valid hcmp ha' hi hlt
    have hrun : heapRemove (pdTimersComparator (w.setTimer t r)) (w.setTimer t r).timers t =
        some (h', some t) := hrem
    rw [hrun]
    refine ⟨_, rfl, ⟨a', hv', fun x => ?_⟩, by
      simp only [setTimers, decRefs, setRefs, World.logObs]
      omega⟩
    rw [hnames]
    by_cases hx : x = t
    · subst hx
      simp [setTimers, decRefs, setRefs, World.logObs, World.setTimer, hactive]
    · simp [setTimers, decRefs, setRefs, World.logObs, World.setTimer, hx, hmem]

theorem TimersValid.stopped (hv : TimersValid w) (h : pdTimerStop w t = some w') :
    TimersValid w' := by
  obtain ⟨w2, hw2, hv2⟩ := pdTimerStop_valid (t := t) hv
  obtain rfl : w' = w2 := Option.some.inj (h.symm.trans hw2)
  exact hv2

/-- The root of the heap is an earliest active timer; without one there is none. -/
theorem TimersValid.peek (hv : TimersValid w) (st : List Item) :
    (∀ t, heapPeek w.timers = some t → (w.timerView st).Earliest t) ∧
      (heapPeek w.timers = none → ∀ t, (w.timer t).active = false) := by
  obtain ⟨⟨a, ha, hmem⟩, -⟩ := hv
  refine ⟨fun t ht => ?_, fun hn t => ?_⟩
  · obtain ⟨h1, hmin⟩ := ha.peek.2 t ht
    refine ⟨(hmem t).mpr ⟨1, h1⟩, fun t' h' => ?_⟩
    obtain ⟨i, hi⟩ := (hmem t').mp h'
    exact hmin i t' hi
  · have hnone := ha.peek.1.mp hn
    by_contra hact
    obtain ⟨i, hi⟩ := (hmem t).mp (by simpa using hact)
    rw [hnone] at hi
    cases hi

end

/-! ## Steps of the machine -/

theorem rearms_append (l1 l2 : List Item) : rearms (l1 ++ l2) = rearms l1 ++ rearms l2 :=
  List.filterMap_append ..

theorem Frame.Pushes.rearms {f : Frame} {l : List Item} (h : f.Pushes l) (hf : f ≠ .timersRun) :
    rearms l = [] := by
  cases h with
  | timer t | timerCalled t d => exact absurd rfl hf
  | poll timeout events =>
    apply List.filterMap_eq_nil_iff.mpr
    intro i hi
    simp only [List.mem_append, List.mem_map] at hi
    rcases hi with ⟨e, _, rfl⟩ | hi
    · rfl
    · fin_cases hi <;> rfl
  | _ => rfl

theorem Call.Pushes.rearms {c : Call} {l : List Item} (h : c.Pushes l) : rearms l = [] := by
  cases h <;> rfl

theorem timerView_eq {w w' : World} {st st' : List Item} (h : w'.timerBase = w.timerBase)
    (hr : rearms st' = rearms st) : w'.timerView st' = w.timerView st := by
  simp only [timerBase, timerView, Prod.mk.injEq, TimerView.mk.injEq] at h
  obtain ⟨-, h1, h2, h3, h4, -⟩ := h
  simp only [timerView, h1, h2, h3, h4, hr]

/-- The timer that the step starts again because its callback has returned. -/
def rearmed (c : Cfg) (x : Act) : Option Tid :=
  match x, c.stack with
  | .lib _, .lib (.timersRearm t) :: _ => if (c.world.timer t).interval ≠ 0 then some t else none
  | _, _ => none

/-- The timer that the step starts, with the delay, if it was not active. -/
def started (c : Cfg) (x : Act) : Option (Tid × Nat) :=
  match x with
  | .api (.timerStart t _ d) _ | .api (.timerRepeat t _ d) _ =>
    if (c.world.timer t).active then none else some (t, d % 2 ^ 64)
  | x =>
    (rearmed c x).bind fun t =>
      if (c.world.timer t).active then none else some (t, (c.world.timer t).interval)

/-- No timer is started while 2^32 - 1 are active. -/
def TimersFit (c : Cfg) (x : Act) : Prop := ∀ p ∈ started c x, c.world.timers.size + 1 < 2 ^ 32

instance (c : Cfg) (x : Act) : Decidable (TimersFit c x) :=
  inferInstanceAs (Decidable (∀ p ∈ started c x, _))

/-- What a step may do to the timers. -/
structure TimerStep (P : Tid → Nat → Prop) (Q : Tid → Prop) (w : World) (st : List Item) (w' : World)
    (st' : List Item) : Prop where
  valid : TimersValid w'
  move : w'.timerView st' = w.timerView st ∨
    TimerMove P Q (w.timerView st) (w'.timerView st')

section
variable {w w' : World} {st : List Item} {a : Answer} {r : World × List Item}
  {P : Tid → Nat → Prop} {Q : Tid → Prop}

theorem TimerStep.idle {st' : List Item} (hv : TimersValid w) (h : w'.timerBase = w.timerBase)
    (hr : rearms st' = rearms st) : TimerStep P Q w st w' st' :=
  ⟨hv.congr (congrArg Prod.fst h) (congrArg (·.2.timer) h), .inl (timerView_eq h hr)⟩

theorem pdTimersRun_step (hv : TimersValid w) (h : pdTimersRun w = some r) :
    TimerStep P Q w (.lib .timersRun :: st) r.1 (r.2 ++ st) := by
  unfold pdTimersRun at h
  split at h
  · cases h
    exact .idle hv rfl rfl
  · rename_i min hpeek
    split at h
    · cases h
      exact .idle hv rfl rfl
    · rename_i hdue
      obtain ⟨w1, hstop, h⟩ := Option.bind_eq_some_iff.mp h
      have hv2 := hv.stopped hstop
      have hmove : TimerMove P Q (w.timerView (.lib .timersRun :: st)) _ :=
        .fire ((hv.peek (.lib .timersRun :: st)).1 min hpeek) (by simpa [timerView] using hdue)
      rw [← pdTimerStop_timerView _ hstop] at hmove
      split at h
      · rename_i hcb
        cases h
        refine ⟨hv2.congr rfl rfl, .inr ?_⟩
        simpa [TimerView.fire, timerView, hcb, World.call, World.logObs, List.filter_cons,
          isTimerObs, rearms] using hmove
      · rename_i hcb
        cases h
        refine ⟨hv2, .inr ?_⟩
        simpa [TimerView.fire, timerView, hcb, goOn, rearms] using hmove

theorem pdTimersRearm_step {t : Tid} (hv : TimersValid w)
    (hsize : (w.timer t).active = false → (w.timer t).interval ≠ 0 → w.timers.size + 1 < 2 ^ 32)
    (hP : (w.timer t).active = false → (w.timer t).interval ≠ 0 → P t (w.timer t).interval)
    (hQ : (w.timer t).interval ≠ 0 → Q t) (h : pdTimersRearm w t = some r) :
    TimerStep P Q w (.lib (.timersRearm t) :: st) r.1 (r.2 ++ st) := by
  have htop : (w.timerView (.lib (.timersRearm t) :: st)).rearms = t :: rearms st := rfl
  unfold pdTimersRearm at h
  split at h
  · rename_i hi
    obtain ⟨w1, hstart, rfl⟩ := Option.map_eq_some_iff.mp h
    have hv2 := hv.started (fun hact => hsize hact hi) hstart
    refine ⟨hv2, .inr ?_⟩
    have hmove := TimerMove.rearm (P := P) (Q := Q) htop hi (hQ hi) fun hact => hP hact hi
    have hview := pdTimerStart_timerView st hstart
    simp only [goOn, List.map_cons, List.map_nil]
    rw [show w1.timerView ([.lib .timersRun] ++ st) = w1.timerView st from rfl, hview]
    exact hmove
  · rename_i hi
    cases h
    exact ⟨hv, .inr (.once htop (not_not.mp hi))⟩

theorem ioRun_step {timeout : Int} (hv : TimersValid w) (h : ioRun w timeout a = some r) :
    TimerStep P Q w (.lib (.ioRun timeout) :: st) r.1 (r.2 ++ st) := by
  have hrearms : rearms (r.2 ++ st) = rearms (.lib (.ioRun timeout) :: st) := by
    rw [rearms_append, (ioRun_pushes h).rearms (by simp)]
    rfl
  simp only [ioRun] at h
  split at h
  · cases h
    exact .idle hv rfl rfl
  · split at h
    · split at h <;> cases h
      exact .idle hv rfl rfl
    · cases h
      refine ⟨hv.congr rfl rfl, .inr ?_⟩
      have hmove := TimerMove.poll (P := P) (Q := Q) (v := w.timerView (.lib (.ioRun timeout) :: st))
      simp only [timerView] at hmove ⊢
      rw [hrearms]
      exact hmove

theorem exec_timerStep {f : Frame} (hv : TimersValid w)
    (hsize : ∀ t, f = .timersRearm t → (w.timer t).active = false → (w.timer t).interval ≠ 0 →
      w.timers.size + 1 < 2 ^ 32)
    (hP : ∀ t, f = .timersRearm t → (w.timer t).active = false → (w.timer t).interval ≠ 0 →
      P t (w.timer t).interval)
    (hQ : ∀ t, f = .timersRearm t → (w.timer t).interval ≠ 0 → Q t)
    (h : exec w f a = some r) : TimerStep P Q w (.lib f :: st) r.1 (r.2 ++ st) := by
  by_cases hf : f.timing = false
  · refine .idle hv (exec_timerBase hf h) ?_
    have hne : f ≠ .timersRun := by
      rintro rfl
      cases hf
    rw [rearms_append, (exec_pushes h).rearms hne]
    cases f <;> first | rfl | cases hf
  · cases f with
    | timersRun => exact pdTimersRun_step hv h
    | timersRearm t => exact pdTimersRearm_step hv (hsize t rfl) (hP t rfl) (hQ t rfl) h
    | ioRun timeout => exact ioRun_step hv h
    | _ => exact absurd rfl hf

theorem api_timerStep {c : Call} {cb : Cb} (hv : TimersValid w)
    (hsize : ∀ t k d, c = .timerStart t k d ∨ c = .timerRepeat t k d →
      (w.timer t).active = false → w.timers.size + 1 < 2 ^ 32)
    (hP : ∀ t k d, c = .timerStart t k d ∨ c = .timerRepeat t k d →
      (w.timer t).active = false → P t (d % 2 ^ 64))
    (h : api w c a = some r) : TimerStep P Q w (.app cb :: st) r.1 (r.2 ++ .app cb :: st) := by
  by_cases hc : c.timing = false
  · refine .idle hv (api_timerBase hc h) ?_
    rw [rearms_append, (api_pushes h).rearms]
    rfl
  · cases c with
    | timerStart t k d =>
      obtain ⟨w1, hstart, rfl⟩ := Option.map_eq_some_iff.mp h
      have hv0 : TimersValid (w.logObs (.timerStart t)) := hv.congr rfl rfl
      have hv2 := hv0.started (hsize t k d (.inl rfl)) hstart
      refine ⟨hv2, .inr ?_⟩
      have hmove : TimerMove P Q (w.timerView (.app cb :: st))
          (((w.timerView (.app cb :: st)).logObs (.timerStart t)).start t k (d % 2 ^ 64)) :=
        .start (hP t k d (.inl rfl))
      have hview := pdTimerStart_timerView (.app cb :: st) hstart
      have hlog : (w.logObs (.timerStart t)).timerView (.app cb :: st) =
          (w.timerView (.app cb :: st)).logObs (.timerStart t) := by
        simp [timerView, TimerView.logObs, World.logObs, isTimerObs]
      rw [hlog] at hview
      rw [show (w1.goOn []).1.timerView ((w1.goOn []).2 ++ .app cb :: st) =
        w1.timerView (.app cb :: st) from rfl, hview]
      exact hmove
    | timerRepeat t k d =>
      obtain ⟨w1, hstart, rfl⟩ := Option.map_eq_some_iff.mp h
      unfold pdTimerRepeat at hstart
      generalize hr : ({ (w.logObs (.timerStart t)).timer t with
        interval := d % 2 ^ 64 } : Timer) = r at hstart
      have hr1 : r.timeout = (w.timer t).timeout ∧ r.active = (w.timer t).active := by
        rw [← hr]
        exact ⟨rfl, rfl⟩
      have hv1 : TimersValid ((w.logObs (.timerStart t)).setTimer t r) :=
        TimersValid.setTimer (hv.congr rfl rfl) hr1.1 hr1.2
      have hact1 : (((w.logObs (.timerStart t)).setTimer t r).timer t).active =
          (w.timer t).active := by simp [World.setTimer, hr1.2]
      have hv2 := hv1.started
        (fun hact => hsize t k d (.inr rfl) (by rw [← hact1]; exact hact)) hstart
      refine ⟨hv2, .inr ?_⟩
      have hmove : TimerMove P Q (w.timerView (.app cb :: st))
          ((((w.timerView (.app cb :: st)).logObs (.timerStart t)).setInterval t
            (d % 2 ^ 64)).start t k (d % 2 ^ 64)) := .repeating (hP t k d (.inr rfl))
      have hview := pdTimerStart_timerView (.app cb :: st) hstart
      have hlog : ((w.logObs (.timerStart t)).setTimer t r).timerView (.app cb :: st) =
          ((w.timerView (.app cb :: st)).logObs (.timerStart t)).setInterval t (d % 2 ^ 64) := by
        simp [timerView, TimerView.logObs, TimerView.setInterval, World.logObs, World.setTimer,
          isTimerObs, ← hr]
      rw [hlog] at hview
      rw [show (w1.goOn []).1.timerView ((w1.goOn []).2 ++ .app cb :: st) =
        w1.timerView (.app cb :: st) from rfl, hview]
      exact hmove
    | timerStop t =>
      obtain ⟨w1, hstop, rfl⟩ := Option.map_eq_some_iff.mp h
      have hv2 := hv.stopped hstop
      refine ⟨hv2.congr rfl rfl, .inr ?_⟩
      have hmove := TimerMove.stop (P := P) (Q := Q) (v := w.timerView (.app cb :: st)) t
      rw [← pdTimerStop_timerView _ hstop] at hmove
      simpa [timerView, TimerView.logObs, World.logObs, goOn, List.filter_cons, isTimerObs]
        using hmove
    | _ => exact absurd rfl hc

theorem env_timerStep {e : Env} (hv : TimersValid w) (h : env w e = some w') :
    TimerStep P Q w st w' st := by
  cases e with
  | tick n =>
    simp only [env] at h
    split at h <;> cases h
    exact ⟨hv.congr rfl rfl, .inr (.tick n)⟩
  | arrive fd bytes | peerFin fd | workDone t =>
    simp only [env] at h
    split at h <;> cases h
    exact .idle hv rfl rfl
  | openFd fd =>
    simp only [env] at h
    split at h <;> cases h
    exact .idle hv (setKernel_timerBase (Kernel.newSocket_clock ..)) rfl
  | closeFd fd =>
    cases h
    exact .idle hv (setKernel_timerBase (Kernel.close_clock ..)) rfl

end

/-- **What any step does to the timers**, if it does not start one too many. -/
theorem step_timers {c c' : Cfg} {x : Act} (hv : TimersValid c.world) (hfit : TimersFit c x)
    (hs : step c x = some c') :
    TimersValid c'.world ∧ (c'.timerView = c.timerView ∨
      TimerMove (fun t d => (t, d) ∈ started c x) (· ∈ rearmed c x) c.timerView c'.timerView) := by
  have done : ∀ {w' st'},
      TimerStep (fun t d => (t, d) ∈ started c x) (· ∈ rearmed c x) c.world c.stack w' st' →
      TimersValid w' ∧ (w'.timerView st' = c.timerView ∨ TimerMove (fun t d => (t, d) ∈ started c x)
        (· ∈ rearmed c x) c.timerView (w'.timerView st')) :=
    fun h => ⟨h.valid, h.move⟩
  rcases step_cases hs with ⟨a, f, rest, r, rfl, hst, hr, rfl⟩ |
    ⟨k, a, cb, rest, r, rfl, hst, hr, rfl⟩ | ⟨p, cb, rest, rfl, hst, hcb, rfl⟩ |
    ⟨e, w', rfl, he, rfl⟩
  · have hrearmed : ∀ t, f = .timersRearm t → (c.world.timer t).interval ≠ 0 →
        t ∈ rearmed c (.lib a) := by
      rintro t rfl hi
      simp [rearmed, hst, hi]
    have hstarted : ∀ t, f = .timersRearm t → (c.world.timer t).active = false →
        (c.world.timer t).interval ≠ 0 →
        (t, (c.world.timer t).interval) ∈ started c (.lib a) := by
      rintro t rfl hact hi
      simp [started, rearmed, hst, hi, hact]
    apply done
    rw [hst]
    exact exec_timerStep hv (fun t hf h1 h2 => hfit _ (hstarted t hf h1 h2)) hstarted hrearmed hr
  · have hstarted : ∀ t b d, k = .timerStart t b d ∨ k = .timerRepeat t b d →
        (c.world.timer t).active = false → (t, d % 2 ^ 64) ∈ started c (.api k a) := by
      rintro t b d (rfl | rfl) hact <;> simp [started, hact]
    apply done
    rw [hst]
    exact api_timerStep hv (fun t b d hk h => hfit _ (hstarted t b d hk h)) hstarted hr
  · apply done
    exact .idle hv rfl (by rw [hst]; rfl)
  · exact done (env_timerStep hv he)

end Pandio
