import Pandio.Unix.Forgotten
import Pandio.Unix.WriteOrder

/- When a write operation may be freed. `pd_tcp_write`, `pd__tcp_write` and `pd_tcp_close` take
   an operation out of `stream->writes` before they call it back, and do not look at it after:
   in its callback the application may free it, with its buffer, or pass the memory on. Nothing
   is asked of the application for that, and nothing of the poller. -/
namespace Pandio
open World

/-! ## Finished operations -/

/-- The operation was called back, or finished without a callback. -/
def Spent (s : Sid) (o : Op) (log : List Obs) : Prop := o ∈ callbacks s log ∨ .uncalled s o ∈ log

instance (s : Sid) (o : Op) (log : List Obs) : Decidable (Spent s o log) :=
  inferInstanceAs (Decidable (_ ∨ _))

/-- The operation was passed, and the library has it no more. -/
def WriteView.Gone (v : WriteView) (o : Op) : Prop := v.op o ≠ none ∧ o ∉ v.flight ++ v.writes

section
variable {s : Sid} {o : Op} {P : WriteOp → Prop} {v v' : WriteView}

theorem spent_filter (log : List Obs) : Spent s o (log.filter (isWriteObs s)) ↔ Spent s o log := by
  rw [Spent, callbacks_filter, List.mem_filter, Spent]
  simp [isWriteObs]

theorem spent_append (l m : List Obs) : Spent s o (l ++ m) ↔ Spent s o l ∨ Spent s o m := by
  simp only [Spent, callbacks_append, List.mem_append]
  tauto

/-- What the library has no more it does not get back. -/
theorem WriteMove.gone (m : WriteMove s P v v') (h : v.Gone o) : v'.Gone o := by
  obtain ⟨hop, hout⟩ := h
  have hop' : v'.op o ≠ none := by
    obtain ⟨r, hr⟩ := Option.ne_none_iff_exists'.mp hop
    obtain ⟨r', hr', -⟩ := m.op_fixed hr
    simp [hr']
  refine ⟨hop', ?_⟩
  cases m with
  | @acceptTry x _ _ hnew | @acceptQueue x _ _ hnew =>
    have hne : o ≠ x := by
      rintro rfl
      exact hop hnew
    simp_all
  | _ => simp_all

/-- What is finished leaves the queue. -/
theorem WriteMove.spends (m : WriteMove s P v v') (i : WriteInv s v) (h : Spent s o v'.log) :
    Spent s o v.log ∨ v'.Gone o := by
  have hnodup := i.nodup
  -- the one operation that the step finishes
  have one : ∀ (x : Op) {l : List Obs}, Spent s o (v.log ++ l) → (Spent s o l → o = x) →
      v'.Gone x → Spent s o v.log ∨ v'.Gone o := by
    intro x l hspent hx hgone
    refine ((spent_append _ _).mp hspent).imp id fun hl => ?_
    rw [hx hl]
    exact hgone
  cases m with
  | @refuse x r hr hnew hcb =>
    refine one x h (by simp [Spent, callbacks]) ⟨by simp, fun hm => ?_⟩
    have hnot := (i.known x hnew).1
    rw [acceptedOps, i.trace.split] at hnot
    exact hnot (List.mem_append_right _ hm)
  | @tryDone x d r n t hflight hop =>
    refine one x h (by simp [Spent, callbacks]) ⟨by simp [hop], ?_⟩
    simp [i.alone (by simp [hflight])]
  | @loopDone x p d r n hwrites hflight hop =>
    rw [hflight, hwrites, List.nil_append, List.nodup_cons] at hnodup
    refine one x h (fun hs => ?_) ⟨by simp, by simpa [hflight] using hnodup.1⟩
    by_cases hcb : r.cb = true <;> simpa [Spent, callbacks, hcb] using hs
  | @loopFail x p d r t hwrites hflight hop =>
    rw [hflight, hwrites, List.nil_append, List.nodup_cons] at hnodup
    exact one x h (by simp [Spent, callbacks]) ⟨by simp [hop], by simpa [hflight] using hnodup.1⟩
  | @cancel x p r hwrites hflight hop =>
    rw [hflight, hwrites, List.nil_append, List.nodup_cons] at hnodup
    exact one x h (by simp [Spent, callbacks]) ⟨by simp [hop], by simpa [hflight] using hnodup.1⟩
  | _ =>
    left
    simpa [spent_append, Spent, callbacks] using h

/-- What was finished stays finished. -/
theorem WriteMove.spent (m : WriteMove s P v v') (h : Spent s o v.log) : Spent s o v'.log := by
  have grow : ∀ l, Spent s o (v.log ++ l) := fun l => (spent_append _ _).mpr (.inl h)
  cases m <;> exact grow _

end

/-! ## Runs of the loop -/

section
variable {ok : Cfg → LoopAct → Prop} {c c' : Cfg} {x : LoopAct} {s : Sid} {o : Op}

/-- A poll does not change a stream's writes. -/
theorem Polls.writes {timeout : Int} {events : List (Handle × Events)} {rest : List Item}
    (h : Polls c.world timeout events rest c') (ht : TryTop c)
    (hst : c.stack = .lib (.ioRun timeout) :: rest) :
    TryTop c' ∧ ∀ s, c'.writeView s = c.writeView s := by
  have hrest : ∀ i ∈ rest, isTry i = false := by simpa [hst] using ht.below
  have hbelow : ∀ i ∈ c'.stack, isTry i = false := by
    cases h with
    | ends => exact hrest
    | again => simpa [isTry] using hrest
    | reports =>
      intro i hi
      simp only [List.mem_append, List.mem_map, List.mem_cons, List.not_mem_nil, or_false] at hi
      rcases hi with (⟨e, -, rfl⟩ | rfl | rfl | rfl | rfl) | hi
      · rfl
      · rfl
      · rfl
      · rfl
      · rfl
      · exact hrest i hi
  constructor
  · refine ⟨fun i hi => hbelow i (List.mem_of_mem_tail hi), fun s op hm => ?_⟩
    have hnot := hbelow _ hm
    simp [isTry] at hnot
  · intro s
    have hflight : inFlight s c'.stack = inFlight s c.stack := by
      rw [inFlight_nil hbelow, hst]
      rfl
    have hworld : c'.world.log = c.world.log ∧ c'.world.tcp = c.world.tcp ∧
        c'.world.op = c.world.op := by
      cases h <;> exact ⟨rfl, rfl, rfl⟩
    simp only [Cfg.writeView, World.writeView, hflight, hworld]

/-- In every run of the loop, what was finished is gone. -/
structure OpsGone (c : Cfg) : Prop where
  tries : TryTop c
  writes : ∀ s, WriteInv s (c.writeView s)
  gone : ∀ s o, Spent s o c.world.log → (c.writeView s).Gone o

theorem OpsGone.step (h : OpsGone c) (hs : loopStep c x = some c') :
    OpsGone c' ∧ ∀ s o, Spent s o c.world.log → Spent s o c'.world.log := by
  have view : ∀ {c : Cfg} {s : Sid} {o : Op},
      Spent s o (c.writeView s).log ↔ Spent s o c.world.log := spent_filter _
  have move : ∃ P : Sid → WriteOp → Prop, TryTop c' ∧ ∀ s, c'.writeView s = c.writeView s ∨
      WriteMove s (P s) (c.writeView s) (c'.writeView s) := by
    rcases loopStep_cases hs with ⟨d, y, hx, hy, -⟩ | ⟨r, events, timeout, rest, -, hst, hp⟩
    · cases hx with
      | step => exact ⟨_, step_write h.tries hy⟩
      | serverClose l a =>
        have hl : TryTop (c.listens l) := ⟨h.tries.below, h.tries.active⟩
        have hmove := step_write hl hy
        exact ⟨_, hmove⟩
    · obtain ⟨ht, hv⟩ := hp.writes h.tries hst
      exact ⟨fun _ _ => False, ht, fun s => .inl (hv s)⟩
  obtain ⟨P, ht, hmove⟩ := move
  refine ⟨⟨ht, fun s => ?_, fun s o hspent => ?_⟩, fun s o hspent => ?_⟩
  · rcases hmove s with he | hm
    · rw [he]
      exact h.writes s
    · exact hm.inv (h.writes s)
  · rcases hmove s with he | hm
    · rw [he]
      rw [← view, he, view] at hspent
      exact h.gone s o hspent
    · rcases hm.spends (h.writes s) (view.mpr hspent) with hold | hgone
      · exact hm.gone (h.gone s o (view.mp hold))
      · exact hgone
  · rcases hmove s with he | hm
    · rw [← view, he, view]
      exact hspent
    · exact view.mp (hm.spent (view.mpr hspent))

theorem LoopRun.opsGone (r : LoopRun ok c) : OpsGone c := by
  refine r.invariant (P := OpsGone) ?_ fun c x c' _ h _ hs => (h.step hs).1
  intro c h
  refine ⟨h.tryTop, h.writeInv, fun s o hspent => ?_⟩
  obtain ⟨k, fd, -, -, rfl⟩ := h
  simp [Spent, callbacks, World.init] at hspent

/-! ## Freeing operations -/

/-- Only the memory of finished operations is written over. -/
def Scrap.OfSpent (m : Scrap) (log : List Obs) : Prop :=
  (∀ s, m.tcp s = none) ∧ ∀ s o, m.op s o ≠ none → Spent s o log

/-- An operation that is prepared again has a new name. -/
def NamedAnew (m : Scrap) (_ : Cfg) : LoopAct → Prop
  | .step (.api (.tcpWrite s o _) _) => (m.op s o).isNone = true
  | _ => True

instance (m : Scrap) (c : Cfg) : (x : LoopAct) → Decidable (NamedAnew m c x)
  | .poll _ _ | .serverClose _ _ => .isTrue trivial
  | .step (.lib _) | .step (.ret _) | .step (.env _) => .isTrue trivial
  | .step (.api k _) =>
    match k with
    | .tcpWrite s o _ => inferInstanceAs (Decidable ((m.op s o).isNone = true))
    | .tcpAccept .. | .tcpConnect .. | .tcpClose _ | .tcpShutdown _ | .tcpPause _ | .tcpResume _
    | .tcpListen .. | .tcpServerClose _ | .timerStart .. | .timerRepeat .. | .timerStop _
    | .timersRun | .timersNext | .taskSubmit .. | .ioRun | .setOnData .. | .setOnClose ..
    | .setAfterTick _ | .setErrno _ => .isTrue trivial

/-- No function has an operation that was finished. -/
theorem OpsGone.holds (h : OpsGone c) (hspent : Spent s o c.world.log) :
    o ∉ (c.world.tcp s).writes ∧ .lib (.writeTry s o) ∉ c.stack := by
  have hgone := (h.gone s o hspent).2
  refine ⟨fun hm => hgone (List.mem_append_right _ hm), fun hm => ?_⟩
  cases hst : c.stack with
  | nil => simp [hst] at hm
  | cons i rest =>
    rw [hst] at hm
    rcases List.mem_cons.mp hm with hm | hm
    · refine hgone (List.mem_append_left _ ?_)
      simp [Cfg.writeView, World.writeView, inFlight, hst, ← hm]
    · have hnot := h.tries.below _ (by rw [hst]; exact hm)
      simp [isTry] at hnot

/-- A step looks at no operation that was finished. -/
theorem spares_of_spent {m : Scrap} (h : OpsGone c) (hm : m.OfSpent c.world.log)
    (hok : NamedAnew m c x) : x.Spares m c := by
  have hop : ∀ s o, o ∈ (c.world.tcp s).writes ∨ .lib (.writeTry s o) ∈ c.stack →
      m.op s o = none := by
    intro s o hin
    by_contra hne
    obtain ⟨h1, h2⟩ := h.holds (hm.2 s o hne)
    exact hin.elim h1 h2
  cases x with
  | poll r events | serverClose l a => trivial
  | step y =>
    cases y with
    | lib a =>
      intro f hst
      have hf := List.mem_of_mem_head? hst
      cases f with
      | closeDrain s | writeLoop s =>
        exact ⟨hm.1 s, fun o ho => hop s o (.inl (List.mem_of_mem_head? ho))⟩
      | writeTry s o => exact ⟨hm.1 s, hop s o (.inr hf)⟩
      | close s | readAlloc s | readTry s buf | clientIoRest s ev => exact hm.1 s
      | dispatch hd ev =>
        cases hd with
        | tcp s => exact hm.1 s
        | _ => trivial
      | pendingClose => exact fun s _ => hm.1 s
      | _ => trivial
    | api k a =>
      cases k with
      | tcpWrite s o r => exact ⟨hm.1 s, Option.isNone_iff_eq_none.mp hok⟩
      | _ => exact fun s _ => hm.1 s
    | _ => trivial

/-- **A write operation may be freed in its callback.** In every run of the loop with any poller, an
operation that was called back is in no queue and in no function that is under way; and whatever is
written over such operations, the same things can happen as would have happened without, step by
step, and with the same outcome but for what was written. -/
theorem free_in_callback {m : Scrap} (r : LoopRun ok c) (hm : m.OfSpent c.world.log) :
    (∀ s o, m.op s o ≠ none → o ∉ (c.world.tcp s).writes ∧ .lib (.writeTry s o) ∉ c.stack) ∧
    ∀ l : List LoopAct, Machine.play loopStep (NamedAnew m) (c.overwrite m) l =
      (Machine.play loopStep (NamedAnew m) c l).map (·.overwrite m) := by
  have h := LoopRun.opsGone r
  refine ⟨fun s o hne => h.holds (hm.2 s o hne), fun l => ?_⟩
  refine play_overwrite (fun c => OpsGone c ∧ m.OfSpent c.world.log) (fun c x => Iff.rfl) ?_ ?_
    ⟨h, hm⟩ l
  · rintro c x ⟨h, hm⟩ hok
    exact spares_of_spent h hm hok
  · rintro c x c' ⟨h, hm⟩ - hs
    obtain ⟨h', hkept⟩ := h.step hs
    exact ⟨h', hm.1, fun s o hne => hkept s o (hm.2 s o hne)⟩

end

/-- The memory of one operation, which is zeroed. -/
def Scrap.ofOp (s : Sid) (o : Op) : Scrap where
  tcp := fun _ => none
  op := fun s' o' => if s' = s ∧ o' = o then some none else none

/-- Two operations are queued; in the callback of the first it is wiped. -/
theorem free_in_callback_wiped : ∃ c, LoopRun (fun _ _ => True) c ∧
    c.stack.head? = some (.app (.write 0 0 0)) ∧ (c.world.tcp 0).writes = [1] ∧
    ∀ l : List LoopAct, Machine.play loopStep (NamedAnew (.ofOp 0 0)) (c.overwrite (.ofOp 0 0)) l =
      (Machine.play loopStep (NamedAnew (.ofOp 0 0)) c l).map (·.overwrite (.ofOp 0 0)) := by
  have r : LoopRun (fun _ _ => True) _ := Machine.Reach.play (.init (Cfg.start_init [5])) (l := [
    .step (.api (.tcpAccept 0 5) (.ok 0 [])),
    .step (.api (.tcpWrite 0 0 (pdWriteInit [1, 2] true (by decide))) (.ok 0 [])),
    .step (.lib (.ok 1 [])),
    .step (.api (.tcpWrite 0 1 (pdWriteInit [3] true (by decide))) (.ok 0 [])),
    .step (.api .ioRun (.ok 0 [])), .poll (.ok 1) [(.tcp 0, ⟨false, true, false⟩)],
    .step (.lib (.ok 0 [])), .step (.lib (.ok 0 [])), .step (.lib (.ok 1 []))]) rfl
  refine ⟨_, r, rfl, rfl, (free_in_callback r ⟨fun _ => rfl, fun s o hne => ?_⟩).2⟩
  have hso : s = 0 ∧ o = 0 := by
    by_contra hn
    exact hne (if_neg hn)
  rw [hso.1, hso.2]
  decide

end Pandio
