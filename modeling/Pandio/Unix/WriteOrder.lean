import Pandio.Lib.Past
import Pandio.Unix.WriteSide

/- The order of a stream's bytes and of the callbacks of its write operations. A
   stream is a sender with a queue: what it does with its writes is a trace of
   `Fifo.Trace`, whose queue is the operation on its way to `write` and then
   `stream->writes`. -/
namespace Pandio
open World

/-! ## The log of a stream's writes -/

/-- An entry of the log as what a sender does. -/
def fifoEvent (s : Sid) : Obs → Option (Fifo.Event Op UInt8 (Option Int))
  | .accepted s' o => if s' = s then some (.accept o) else none
  | .write s' _ o bytes => if s' = s then some (.send o bytes) else none
  | .called s' o st => if s' = s then some (.finish o (some st)) else none
  | .uncalled s' o => if s' = s then some (.finish o none) else none
  | _ => none

def writeEvents (s : Sid) (log : List Obs) : List (Fifo.Event Op UInt8 (Option Int)) :=
  log.filterMap (fifoEvent s)

/-- The operations that `pd_tcp_write` accepted, in the order of the calls. -/
def acceptedOps (s : Sid) (log : List Obs) : List Op := Fifo.accepted (writeEvents s log)

/-- The bytes handed to the kernel for the stream, in order. -/
def sentBytes (s : Sid) (log : List Obs) : List UInt8 := Fifo.sent (writeEvents s log)

/-- The bytes handed to the kernel for one operation, in order. -/
def sentOf (s : Sid) (op : Op) (log : List Obs) : List UInt8 := Fifo.sentOf op (writeEvents s log)

/-- The operations whose callbacks were called, in that order, refused ones included. -/
def callbacks (s : Sid) (log : List Obs) : List Op :=
  log.filterMap fun
    | .called s' o _ => if s' = s then some o else none
    | .refused s' o => if s' = s then some o else none
    | _ => none

/-- The accepted operations whose callbacks were called, in that order. -/
def calledOps (s : Sid) (log : List Obs) : List Op :=
  log.filterMap fun
    | .called s' o _ => if s' = s then some o else none
    | _ => none

variable {s : Sid}

@[simp] theorem writeEvents_append (l m : List Obs) :
    writeEvents s (l ++ m) = writeEvents s l ++ writeEvents s m := List.filterMap_append ..

@[simp] theorem callbacks_append (l m : List Obs) :
    callbacks s (l ++ m) = callbacks s l ++ callbacks s m := List.filterMap_append ..

/-- Only the entries about the stream's writes count. -/
theorem writeEvents_filter (log : List Obs) :
    writeEvents s (log.filter (isWriteObs s)) = writeEvents s log := by
  rw [writeEvents, List.filterMap_filter, writeEvents]
  refine List.filterMap_congr fun o _ => ?_
  cases o <;> simp [isWriteObs, fifoEvent]

theorem callbacks_filter (log : List Obs) :
    callbacks s (log.filter (isWriteObs s)) = callbacks s log := by
  rw [callbacks, List.filterMap_filter, callbacks]
  refine List.filterMap_congr fun o _ => ?_
  cases o <;> simp [isWriteObs]

/-! ## A stream is a sender with a queue -/

variable {new : WriteOp → Prop} {v v' : WriteView}

/-- What every step keeps of a stream's writes. -/
structure WriteInv (s : Sid) (v : WriteView) : Prop where
  /-- The log is a trace of a sender, with the queue that the state holds. -/
  trace : Fifo.Trace (writeEvents s v.log) (v.flight ++ v.writes)
  /-- An operation is written at once only when none is queued. -/
  alone : v.flight ≠ [] → v.writes = []
  /-- The log is about operations that were passed. -/
  known : ∀ o, v.op o = none → o ∉ acceptedOps s v.log ∧ o ∉ callbacks s v.log
  /-- The callback of an operation is called when it leaves the queue, and then only. -/
  once : ∀ o r, v.op o = some r → r.cb = true →
    (callbacks s v.log).count o = if o ∈ v.flight ++ v.writes then 0 else 1
  /-- An operation finished without a callback has none. -/
  uncalled : ∀ o r, v.op o = some r → .uncalled s o ∈ v.log → r.cb = false
  /-- When `pd_tcp_close` returns every operation is finished. -/
  drained : Past (fun l x => x = .closeQueued s →
    acceptedOps s l = Fifo.finished (writeEvents s l)) v.log

/-- The buffer and the callback of an operation are fixed when it is passed. -/
theorem WriteMove.op_fixed (m : WriteMove s new v v') {o : Op} {r : WriteOp}
    (h : v.op o = some r) : ∃ r', v'.op o = some r' ∧ r'.data = r.data ∧ r'.cb = r.cb := by
  have upd : ∀ {x : Op} {r1 : WriteOp}, (v.op x = none ∨ ∃ r2, v.op x = some r2 ∧
      r1.data = r2.data ∧ r1.cb = r2.cb) →
      ∃ r', Function.update v.op x (some r1) o = some r' ∧ r'.data = r.data ∧ r'.cb = r.cb := by
    intro x r1 hx
    by_cases hox : o = x
    · subst hox
      rcases hx with hx | ⟨r2, hx, hd, hc⟩
      · rw [h] at hx
        cases hx
      · rw [h] at hx
        cases hx
        exact ⟨r1, by simp, hd, hc⟩
    · exact ⟨r, by simpa [hox] using h, rfl, rfl⟩
  cases m with
  | acceptTry _ hx => exact upd (.inl hx)
  | acceptQueue _ hx => exact upd (.inl hx)
  | refuse _ hx => exact upd (.inl hx)
  | tryPart _ hx => exact upd (.inr ⟨_, hx, rfl, rfl⟩)
  | loopPart _ _ hx => exact upd (.inr ⟨_, hx, rfl, rfl⟩)
  | loopDone _ _ hx => exact upd (.inr ⟨_, hx, rfl, rfl⟩)
  | _ => exact ⟨r, h, rfl, rfl⟩

/-! Each entry as an event and as a callback. -/

section
variable (o : Op) (fd : Fd) (bytes : List UInt8) (st : Int) (l : List Obs)

@[simp] theorem writeEvents_nil : writeEvents s [] = [] := rfl

@[simp] theorem writeEvents_accepted :
    writeEvents s (.accepted s o :: l) = .accept o :: writeEvents s l := by
  simp [writeEvents, fifoEvent]

@[simp] theorem writeEvents_refused : writeEvents s (.refused s o :: l) = writeEvents s l := rfl

@[simp] theorem writeEvents_write :
    writeEvents s (.write s fd o bytes :: l) = .send o bytes :: writeEvents s l := by
  simp [writeEvents, fifoEvent]

@[simp] theorem writeEvents_called :
    writeEvents s (.called s o st :: l) = .finish o (some st) :: writeEvents s l := by
  simp [writeEvents, fifoEvent]

@[simp] theorem writeEvents_uncalled :
    writeEvents s (.uncalled s o :: l) = .finish o none :: writeEvents s l := by
  simp [writeEvents, fifoEvent]

@[simp] theorem writeEvents_closeQueued :
    writeEvents s (.closeQueued s :: l) = writeEvents s l := rfl

@[simp] theorem callbacks_nil : callbacks s [] = [] := rfl

@[simp] theorem callbacks_accepted : callbacks s (.accepted s o :: l) = callbacks s l := by
  simp [callbacks]

@[simp] theorem callbacks_refused : callbacks s (.refused s o :: l) = o :: callbacks s l := by
  simp [callbacks]

@[simp] theorem callbacks_write : callbacks s (.write s fd o bytes :: l) = callbacks s l := by
  simp [callbacks]

@[simp] theorem callbacks_called : callbacks s (.called s o st :: l) = o :: callbacks s l := by
  simp [callbacks]

@[simp] theorem callbacks_uncalled : callbacks s (.uncalled s o :: l) = callbacks s l := by
  simp [callbacks]

@[simp] theorem callbacks_closeQueued : callbacks s (.closeQueued s :: l) = callbacks s l := by
  simp [callbacks]

end

theorem WriteInv.init : WriteInv s { log := [], flight := [], writes := [], op := fun _ => none } where
  trace := .nil
  alone := fun h => absurd rfl h
  known := fun o _ => by simp [acceptedOps, writeEvents, callbacks]
  once := fun o r h => by cases h
  uncalled := fun o r h => by cases h
  drained := Past.nil

/-- What is queued was accepted, and so was passed. -/
theorem WriteInv.passed (i : WriteInv s v) {o : Op} (h : o ∈ v.flight ++ v.writes) :
    v.op o ≠ none := by
  intro hn
  refine (i.known o hn).1 ?_
  rw [acceptedOps, i.trace.split]
  exact List.mem_append_right _ h

/-- The head of the queue is not queued twice. -/
theorem WriteInv.nodup (i : WriteInv s v) : (v.flight ++ v.writes).Nodup := by
  have h := i.trace.nodup
  rw [i.trace.split] at h
  exact (List.nodup_append.mp h).2.1

theorem finished_of_mem {log : List Obs} {o : Op} {e : Obs} {t : Option Int} (h : e ∈ log)
    (he : fifoEvent s e = some (.finish o t)) : o ∈ Fifo.finished (writeEvents s log) :=
  List.mem_filterMap.mpr ⟨.finish o t, List.mem_filterMap.mpr ⟨e, h, he⟩, rfl⟩

/-- What is finished was accepted. -/
theorem WriteInv.finished_passed (i : WriteInv s v) {o : Op}
    (h : o ∈ Fifo.finished (writeEvents s v.log)) : v.op o ≠ none := by
  intro hn
  refine (i.known o hn).1 ?_
  rw [acceptedOps, i.trace.split]
  exact List.mem_append_left _ h

section
variable (i : WriteInv s v) (m : WriteMove s new v v')
include i m

theorem WriteMove.trace : Fifo.Trace (writeEvents s v'.log) (v'.flight ++ v'.writes) := by
  have t := i.trace
  have fresh : ∀ {o}, v.op o = none → o ∉ Fifo.accepted (writeEvents s v.log) :=
    fun h => (i.known _ h).1
  cases m with
  | acceptTry _ hn hf hw =>
    rw [hf, hw] at t
    simpa [hw] using t.accept (fresh hn)
  | acceptQueue _ hn hf =>
    rw [hf] at t
    simpa [hf] using t.accept (fresh hn)
  | refuse => simpa using t
  | tryAgain hf =>
    rw [hf] at t
    simpa [hf] using t.send []
  | tryBlock hf =>
    rw [hf, i.alone (by rw [hf]; simp)] at t
    simpa [i.alone (by rw [hf]; simp)] using t.send []
  | tryPart hf =>
    rw [hf, i.alone (by rw [hf]; simp)] at t
    simpa [i.alone (by rw [hf]; simp)] using t.send _
  | @tryDone _ _ r n st hf =>
    rw [hf] at t
    simpa using (t.send (r.data.take n)).finish (some st)
  | loopWait hw hf =>
    rw [hf, hw] at t
    simpa [hf, hw] using t.send []
  | loopPart hw hf =>
    rw [hf, hw] at t
    simpa [hf, hw] using t.send _
  | @loopDone o p fd r n hw hf =>
    rw [hf, hw] at t
    have t := t.send ((r.data.drop r.written).take n)
    split
    · simpa [hf] using t.finish (some 0)
    · simpa [hf] using t.finish none
  | @loopFail o p fd r st hw hf =>
    rw [hf, hw] at t
    simpa [hf] using (t.send []).finish (some st)
  | cancel hw hf =>
    rw [hf, hw] at t
    simpa [hf] using t.finish (some PD_ECANCELED)
  | closeQueued => simpa using t

theorem WriteMove.alone : v'.flight ≠ [] → v'.writes = [] := by
  have h := i.alone
  cases m with
  | acceptTry _ _ _ hw => intro _; exact hw
  | acceptQueue _ _ hf => intro hne; exact absurd hf hne
  | loopDone _ hf => intro hne; exact absurd hf hne
  | loopFail _ hf => intro hne; exact absurd hf hne
  | cancel _ hf => intro hne; exact absurd hf hne
  | tryBlock => intro hne; exact absurd rfl hne
  | tryPart => intro hne; exact absurd rfl hne
  | tryDone => intro hne; exact absurd rfl hne
  | _ => exact h

theorem WriteMove.known (x : Op) (hx : v'.op x = none) :
    x ∉ acceptedOps s v'.log ∧ x ∉ callbacks s v'.log := by
  -- a name that is not passed yet is not the one the step is about
  have old : v.op x = none := by
    by_contra hne
    obtain ⟨r, hr⟩ := Option.ne_none_iff_exists'.mp hne
    obtain ⟨r', hr', _⟩ := m.op_fixed hr
    rw [hx] at hr'
    cases hr'
  have hk := i.known x old
  have hne : ∀ {o}, v.op o ≠ none → x ≠ o := fun h e => h (e ▸ old)
  have hp : ∀ {o}, o ∈ v.flight ++ v.writes → x ≠ o := fun h => hne (i.passed h)
  rw [acceptedOps] at hk ⊢
  cases m with
  | @acceptTry o r =>
    have hxo : x ≠ o := by rintro rfl; simp at hx
    simpa [hxo] using hk
  | @acceptQueue o r =>
    have hxo : x ≠ o := by rintro rfl; simp at hx
    simpa [hxo] using hk
  | @refuse o r =>
    have hxo : x ≠ o := by rintro rfl; simp at hx
    simpa [hxo] using hk
  | @tryDone o fd r n st hf =>
    simpa [hp (show o ∈ v.flight ++ v.writes by rw [hf]; simp)] using hk
  | @loopDone o p fd r n hw =>
    have hxo := hp (show o ∈ v.flight ++ v.writes by rw [hw]; simp)
    split <;> simpa [hxo] using hk
  | @loopFail o p fd r st hw =>
    simpa [hp (show o ∈ v.flight ++ v.writes by rw [hw]; simp)] using hk
  | @cancel o p r hw => simpa [hp (show o ∈ v.flight ++ v.writes by rw [hw]; simp)] using hk
  | _ => simpa using hk

theorem WriteMove.once (x : Op) (r' : WriteOp) (hx : v'.op x = some r') (hcb : r'.cb = true) :
    (callbacks s v'.log).count x = if x ∈ v'.flight ++ v'.writes then 0 else 1 := by
  have hnd := i.nodup
  -- an operation passed before keeps its callback
  have old : v.op x ≠ none →
      (callbacks s v.log).count x = if x ∈ v.flight ++ v.writes then 0 else 1 := by
    intro hne
    obtain ⟨r, hr⟩ := Option.ne_none_iff_exists'.mp hne
    obtain ⟨r1, h1, _, h2⟩ := m.op_fixed hr
    rw [hx] at h1
    cases h1
    exact i.once x r hr (by rw [← h2, hcb])
  -- and a new one has not been called
  have unknown : v.op x = none → (callbacks s v.log).count x = 0 ∧ x ∉ v.flight ++ v.writes :=
    fun h => ⟨List.count_eq_zero.mpr (i.known x h).2, fun hm => i.passed hm h⟩
  have other : ∀ {o r1}, x ≠ o → Function.update v.op o (some r1) x = some r' → v.op x ≠ none := by
    intro o r1 hxo h
    rw [Function.update_of_ne hxo] at h
    rw [h]
    simp
  cases m with
  | @acceptTry o r _ hn hf hw =>
    by_cases hxo : x = o
    · subst hxo
      simpa using (unknown hn).1
    · simpa [hf, hw, hxo] using old (other hxo hx)
  | @acceptQueue o r _ hn hf =>
    by_cases hxo : x = o
    · subst hxo
      simpa using (unknown hn).1
    · simpa [hf, hxo] using old (other hxo hx)
  | @refuse o r _ hn _ =>
    by_cases hxo : x = o
    · subst hxo
      have := unknown hn
      rw [List.mem_append, not_or] at this
      simp [this.1, this.2.1, this.2.2]
    · simpa [List.count_singleton, Ne.symm hxo, hxo] using old (other hxo hx)
  | tryAgain => simpa using old (by rw [hx]; simp)
  | tryBlock hf =>
    have hw := i.alone (by rw [hf]; simp)
    simpa [hf, hw] using old (by rw [hx]; simp)
  | @tryPart o fd r n hf ho =>
    have hw := i.alone (by rw [hf]; simp)
    by_cases hxo : x = o
    · subst hxo
      simpa [hf, hw] using old (by rw [ho]; simp)
    · simpa [hf, hw] using old (other hxo hx)
  | @tryDone o fd r n st hf ho =>
    have hw := i.alone (by rw [hf]; simp)
    have := old (by rw [hx]; simp)
    by_cases hxo : x = o
    · subst hxo
      simpa [hf, hw] using this
    · simpa [hf, hw, List.count_cons, hxo, Ne.symm hxo] using this
  | loopWait => simpa using old (by rw [hx]; simp)
  | @loopPart o p fd r n hw hf ho =>
    have hne : v.op x ≠ none := by
      by_cases hxo : x = o
      · rw [hxo, ho]; simp
      · exact other hxo hx
    simpa using old hne
  | @loopDone o p fd r n hw hf ho =>
    rw [hf, hw, List.nil_append, List.nodup_cons] at hnd
    by_cases hxo : x = o
    · subst hxo
      simp only [Function.update_self, Option.some.injEq] at hx
      subst hx
      have hcb : r.cb = true := hcb
      have := old (by rw [ho]; simp)
      simpa [hf, hw, hcb, hnd.1] using this
    · have := old (other hxo hx)
      split <;> simpa [hf, hw, hxo, List.count_cons, Ne.symm hxo] using this
  | @loopFail o p fd r st hw hf ho =>
    rw [hf, hw, List.nil_append, List.nodup_cons] at hnd
    have := old (by rw [hx]; simp)
    by_cases hxo : x = o
    · subst hxo
      simpa [hf, hw, hnd.1] using this
    · simpa [hf, hw, hxo, List.count_cons, Ne.symm hxo] using this
  | @cancel o p r hw hf ho =>
    rw [hf, hw, List.nil_append, List.nodup_cons] at hnd
    have := old (by rw [hx]; simp)
    by_cases hxo : x = o
    · subst hxo
      simpa [hf, hw, hnd.1] using this
    · simpa [hf, hw, hxo, List.count_cons, Ne.symm hxo] using this
  | closeQueued => simpa using old (by rw [hx]; simp)

theorem WriteMove.uncalled (x : Op) (r' : WriteOp) (hx : v'.op x = some r')
    (hu : .uncalled s x ∈ v'.log) : r'.cb = false := by
  have old : .uncalled s x ∈ v.log → r'.cb = false := by
    intro h
    obtain ⟨r, hr⟩ := Option.ne_none_iff_exists'.mp
      (i.finished_passed (finished_of_mem (o := x) (t := none) h (by simp [fifoEvent])))
    obtain ⟨r1, h1, _, h2⟩ := m.op_fixed hr
    rw [hx] at h1
    cases h1
    rw [h2]
    exact i.uncalled x r hr h
  cases m with
  | @loopDone o p fd r n hw hf ho =>
    by_cases hcb : r.cb = true
    · exact old (by simpa [hcb] using hu)
    · simp only [hcb, List.mem_append, List.mem_cons, List.not_mem_nil, or_false] at hu
      rcases hu with hu | hu
      · exact old hu
      · have hxo : x = o := by simpa using hu
        subst hxo
        simp only [Function.update_self, Option.some.injEq] at hx
        subst hx
        simpa using hcb
  | _ => exact old (by simpa using hu)

theorem WriteMove.drained : Past (fun l x => x = .closeQueued s →
    acceptedOps s l = Fifo.finished (writeEvents s l)) v'.log := by
  have p := i.drained
  cases m with
  | @loopDone o p' fd r n =>
    refine p.snoc₂ (by simp) ?_
    split <;> simp
  | tryDone => exact p.snoc₂ (by simp) (by simp)
  | loopFail => exact p.snoc₂ (by simp) (by simp)
  | closeQueued hw hf =>
    refine p.snoc fun _ => ?_
    have := i.trace.split
    rwa [hf, hw, List.append_nil, List.append_nil] at this
  | _ => exact p.snoc (by simp)

/-- Every change of a stream's writes keeps them in order. -/
theorem WriteMove.inv : WriteInv s v' where
  trace := m.trace i
  alone := m.alone i
  known := m.known i
  once := m.once i
  uncalled := m.uncalled i
  drained := m.drained i

end

theorem Cfg.Init.tryTop {c : Cfg} (h : c.Init) : TryTop c := by
  obtain ⟨k, fd, _, _, rfl⟩ := h
  exact ⟨by simp, by simp⟩

theorem Cfg.Init.writeInv {c : Cfg} (h : c.Init) (s : Sid) : WriteInv s (c.writeView s) := by
  obtain ⟨k, fd, _, _, rfl⟩ := h
  exact WriteInv.init

/-- In every run the writes of every stream are in order. -/
theorem Run.writeInv {ok : Cfg → Act → Prop} {c : Cfg} (r : Run ok c) :
    TryTop c ∧ ∀ s, WriteInv s (c.writeView s) := by
  refine Machine.Reach.invariant (P := fun c => TryTop c ∧ ∀ s, WriteInv s (c.writeView s))
    (fun c h => ⟨h.tryTop, h.writeInv⟩) ?_ r
  intro c x c' _ ih _ hs
  obtain ⟨ht, hm⟩ := step_write ih.1 hs
  refine ⟨ht, fun s => ?_⟩
  rcases hm s with he | hm
  · rw [he]
    exact ih.2 s
  · exact hm.inv (ih.2 s)

/-! ## Callbacks -/

/-- The callbacks of accepted operations are called as the operations are finished. -/
theorem calledOps_sublist (log : List Obs) :
    (calledOps s log).Sublist (Fifo.finished (writeEvents s log)) := by
  rw [calledOps, writeEvents]
  induction log with
  | nil => exact List.Sublist.slnil
  | cons e log ih =>
    cases e with
    | called s' o st =>
      by_cases hs : s' = s
      · simpa [fifoEvent, hs] using ih
      · simpa [fifoEvent, hs] using ih
    | uncalled s' o =>
      by_cases hs : s' = s
      · simpa [fifoEvent, hs] using ih.cons o
      · simpa [fifoEvent, hs] using ih
    | accepted s' o =>
      by_cases hs : s' = s
      · simpa [fifoEvent, hs] using ih
      · simpa [fifoEvent, hs] using ih
    | write s' fd o bytes =>
      by_cases hs : s' = s
      · simpa [fifoEvent, hs] using ih
      · simpa [fifoEvent, hs] using ih
    | _ => exact ih

/-- What finished an operation. -/
theorem finished_cases {log : List Obs} {o : Op} (h : o ∈ Fifo.finished (writeEvents s log)) :
    (∃ st, .called s o st ∈ log) ∨ .uncalled s o ∈ log := by
  obtain ⟨ev, hev, ho⟩ := List.mem_filterMap.mp h
  obtain ⟨e, he, hfe⟩ := List.mem_filterMap.mp hev
  cases e with
  | called s' o' st =>
    simp only [fifoEvent, Option.ite_none_right_eq_some, Option.some.injEq] at hfe
    obtain ⟨rfl, rfl⟩ := hfe
    cases ho
    exact .inl ⟨st, he⟩
  | uncalled s' o' =>
    simp only [fifoEvent, Option.ite_none_right_eq_some, Option.some.injEq] at hfe
    obtain ⟨rfl, rfl⟩ := hfe
    cases ho
    exact .inr he
  | accepted s' o' =>
    simp only [fifoEvent, Option.ite_none_right_eq_some, Option.some.injEq] at hfe
    obtain ⟨rfl, rfl⟩ := hfe
    cases ho
  | write s' fd o' bytes =>
    simp only [fifoEvent, Option.ite_none_right_eq_some, Option.some.injEq] at hfe
    obtain ⟨rfl, rfl⟩ := hfe
    cases ho
  | _ => cases hfe

/-- **Every write operation is called back exactly once.** Whenever the application runs, an
operation it passed is queued and was not called back, or is not queued and was called back once.
When `pd_tcp_close` has queued the stream for `on_close`, and returns, every operation passed so
far was called back. The callbacks of accepted operations start in the order of the calls. -/
theorem write_callbacks {c : Cfg} (r : Run AnyStep c) (s : Sid) :
    (∀ k rest, c.stack = .app k :: rest → ∀ op wr, c.world.op s op = some wr → wr.cb = true →
      ((c.world.tcp s).writes.count op = 1 ∧ (callbacks s c.world.log).count op = 0) ∨
      (op ∉ (c.world.tcp s).writes ∧ (callbacks s c.world.log).count op = 1)) ∧
    (∀ l1 l2, c.world.log = l1 ++ .closeQueued s :: l2 →
      ∀ op wr, c.world.op s op = some wr → wr.cb = true →
        op ∈ acceptedOps s l1 ∨ .refused s op ∈ l1 → op ∈ callbacks s l1) ∧
    (calledOps s c.world.log).Sublist (acceptedOps s c.world.log) ∧
    (acceptedOps s c.world.log).Nodup := by
  have i := r.writeInv.2 s
  have ht := i.trace
  have honce := i.once
  have hdrained := Past.of_filter i.drained
  simp only [Cfg.writeView, writeView, callbacks_filter, writeEvents_filter] at ht honce
  refine ⟨?_, ?_, ?_, ?_⟩
  · intro k rest hst op wr hop hcb
    have hnd := i.nodup
    have := honce op wr hop hcb
    simp only [Cfg.writeView, writeView, hst, inFlight, List.nil_append] at this hnd
    by_cases hm : op ∈ (c.world.tcp s).writes
    · exact .inl ⟨List.count_eq_one_of_mem hnd hm, by rw [this, if_pos hm]⟩
    · exact .inr ⟨hm, by rw [this, if_neg hm]⟩
  · rintro l1 l2 hl op wr hop hcb (ha | hr)
    · have hd := hdrained l1 _ l2 hl (by simp [isWriteObs]) rfl
      rw [acceptedOps, writeEvents_filter] at hd
      rw [acceptedOps, hd] at ha
      rcases finished_cases ha with ⟨st, h⟩ | h
      · exact List.mem_filterMap.mpr ⟨_, h, by simp⟩
      · have := i.uncalled op wr hop (by
          simp only [Cfg.writeView, writeView, List.mem_filter]
          exact ⟨by rw [hl]; simp [h], by simp [isWriteObs]⟩)
        rw [hcb] at this
        cases this
    · exact List.mem_filterMap.mpr ⟨_, hr, by simp⟩
  · rw [acceptedOps, ht.split]
    exact (calledOps_sublist _).trans (List.sublist_append_left _ _)
  · exact ht.nodup

/-- A stream is closed with an operation sent in part and one not begun; the application is in the
callback of the first, and the second is still queued. -/
theorem write_callbacks_close : ∃ c, Run AnyStep c ∧ (c.world.tcp 0).writes = [1] ∧
    ((c.world.tcp 0).writes.count 1 = 1 ∧ (callbacks 0 c.world.log).count 1 = 0 ∨
      1 ∉ (c.world.tcp 0).writes ∧ (callbacks 0 c.world.log).count 1 = 1) := by
  have r : Run AnyStep _ := Run.play (Cfg.start_init [5])
    [.api (.tcpAccept 0 5) (.ok 0 []),
      .api (.tcpWrite 0 0 (pdWriteInit [1, 2] true (by decide))) (.ok 0 []), .lib (.ok 1 []),
      .api (.tcpWrite 0 1 (pdWriteInit [3] true (by decide))) (.ok 0 []),
      .api (.tcpClose 0) (.ok 0 []), .lib (.ok 0 [])] rfl
  exact ⟨_, r, rfl, (write_callbacks r 0).1 _ _ rfl 1 _ rfl rfl⟩

/-! ## Bytes -/

section
variable (o x : Op) (fd : Fd) (bytes : List UInt8) (st : Int) (l m : List Obs)

@[simp] theorem sentOf_append : sentOf s x (l ++ m) = sentOf s x l ++ sentOf s x m := by
  simp [sentOf]

@[simp] theorem sentOf_nil : sentOf s x [] = [] := rfl

@[simp] theorem sentOf_write : sentOf s x (.write s fd o bytes :: l) =
    (if o = x then bytes else []) ++ sentOf s x l := by simp [sentOf]

@[simp] theorem sentOf_accepted : sentOf s x (.accepted s o :: l) = sentOf s x l := by
  simp [sentOf]

@[simp] theorem sentOf_refused : sentOf s x (.refused s o :: l) = sentOf s x l := by simp [sentOf]

@[simp] theorem sentOf_called : sentOf s x (.called s o st :: l) = sentOf s x l := by
  simp [sentOf]

@[simp] theorem sentOf_uncalled : sentOf s x (.uncalled s o :: l) = sentOf s x l := by
  simp [sentOf]

@[simp] theorem sentOf_closeQueued : sentOf s x (.closeQueued s :: l) = sentOf s x l := by
  simp [sentOf]

end

/-- What every step keeps of the bytes of a stream, when its operations are passed as
`pd_write_init` left them. -/
structure BytesInv (s : Sid) (v : WriteView) : Prop where
  /-- Nothing was sent yet of an operation on its way to the first `write`. -/
  flight : ∀ o ∈ v.flight, sentOf s o v.log = [] ∧ ∃ r, v.op o = some r ∧ r.written = 0
  /-- `written` says how much of a queued operation was sent. -/
  queued : ∀ o ∈ v.writes, ∃ r, v.op o = some r ∧ r.written ≤ r.data.length ∧
    sentOf s o v.log = r.data.take r.written
  /-- Of any operation a prefix was sent. -/
  sent_prefix : ∀ o r, v.op o = some r → sentOf s o v.log <+: r.data
  /-- An operation that is finished with success was sent as a whole. -/
  full : Past (fun l x => ∀ o r, (x = .called s o 0 ∨ x = .uncalled s o) → v.op o = some r →
    sentOf s o l = r.data) v.log

theorem BytesInv.init : BytesInv s { log := [], flight := [], writes := [], op := fun _ => none } where
  flight := fun o h => by cases h
  queued := fun o h => by cases h
  sent_prefix := fun o r h => by cases h
  full := Past.nil

/-- The remainder of a buffer, in the 64-bit arithmetic of `pd__tcp_write`. -/
theorem toWrite_eq {len written : Nat} (h : len < 2 ^ 64) (hw : written ≤ len) :
    (len + (2 ^ 64 - written % 2 ^ 64)) % 2 ^ 64 = len - written := by
  omega

theorem written_eq {len written n : Nat} (h : len < 2 ^ 64) (hw : written ≤ len)
    (hn : n ≤ (len + (2 ^ 64 - written % 2 ^ 64)) % 2 ^ 64) :
    (written + n) % 2 ^ 64 = written + n ∧ written + n ≤ len := by
  rw [toWrite_eq h hw] at hn
  omega

/-- What `pd__tcp_write` sends of the head of the queue continues what was sent. -/
theorem BytesInv.more (b : BytesInv s v) {o : Op} {p : List Op} {r : WriteOp} {n : Nat}
    (hw : v.writes = o :: p) (ho : v.op o = some r)
    (hn : n ≤ (r.data.length + (2 ^ 64 - r.written % 2 ^ 64)) % 2 ^ 64) :
    (r.written + n) % 2 ^ 64 = r.written + n ∧ r.written + n ≤ r.data.length ∧
      sentOf s o v.log ++ (r.data.drop r.written).take n = r.data.take (r.written + n) := by
  obtain ⟨r0, h0, hle, hs⟩ := b.queued o (by rw [hw]; simp)
  rw [ho] at h0
  cases h0
  obtain ⟨h1, h2⟩ := written_eq r.size_lt hle hn
  exact ⟨h1, h2, by rw [hs, List.take_add]⟩

section
variable (i : WriteInv s v) (b : BytesInv s v) (m : WriteMove s new v v')
include i b m

/-- What was said of the finished operations stays true when buffers are fixed. -/
theorem WriteMove.full_old : Past (fun l x => ∀ o r, (x = .called s o 0 ∨ x = .uncalled s o) →
    v'.op o = some r → sentOf s o l = r.data) v.log := by
  rintro l1 x l2 hl o r hx hr
  have hf : o ∈ Fifo.finished (writeEvents s v.log) := by
    have hm : x ∈ v.log := by rw [hl]; simp
    rcases hx with rfl | rfl
    · exact finished_of_mem (o := o) (t := some 0) hm (by simp [fifoEvent])
    · exact finished_of_mem (o := o) (t := none) hm (by simp [fifoEvent])
  obtain ⟨r0, h0⟩ := Option.ne_none_iff_exists'.mp (i.finished_passed hf)
  obtain ⟨r1, h1, hd, _⟩ := m.op_fixed h0
  rw [hr] at h1
  cases h1
  rw [hd]
  exact b.full l1 x l2 hl o r0 hx h0

theorem WriteMove.bytes_flight (hnew : ∀ r, new r → r.written = 0) :
    ∀ o ∈ v'.flight, sentOf s o v'.log = [] ∧ ∃ r, v'.op o = some r ∧ r.written = 0 := by
  have hb := b.flight
  intro x hx
  cases m with
  | @acceptTry o r hr hn hf =>
    simp only [List.mem_singleton] at hx
    subst hx
    have : sentOf s x v.log = [] := i.trace.unsent x (.inl (i.known x hn).1)
    exact ⟨by simp [this], r, by simp, hnew r hr⟩
  | @refuse o r _ hn =>
    obtain ⟨h1, r0, h0, hz⟩ := hb x hx
    have hxo : x ≠ o := by
      rintro rfl
      rw [hn] at h0
      cases h0
    exact ⟨by simpa using h1, r0, by simpa [hxo] using h0, hz⟩
  | @tryAgain o fd hf =>
    obtain ⟨h1, hr⟩ := hb x hx
    refine ⟨?_, hr⟩
    simp only [sentOf_append, sentOf_write, h1, sentOf_nil]
    split <;> rfl
  | acceptQueue _ _ hf => rw [hf] at hx; cases hx
  | tryBlock => cases hx
  | tryPart => cases hx
  | tryDone => cases hx
  | loopWait _ hf => rw [hf] at hx; cases hx
  | loopPart _ hf => rw [hf] at hx; cases hx
  | loopDone _ hf => rw [hf] at hx; cases hx
  | loopFail _ hf => rw [hf] at hx; cases hx
  | cancel _ hf => rw [hf] at hx; cases hx
  | closeQueued _ hf => rw [hf] at hx; cases hx

theorem WriteMove.bytes_queued (hnew : ∀ r, new r → r.written = 0) :
    ∀ o ∈ v'.writes, ∃ r, v'.op o = some r ∧ r.written ≤ r.data.length ∧
      sentOf s o v'.log = r.data.take r.written := by
  have hb := b.queued
  have hnd := i.nodup
  intro x hx
  have passed : x ∈ v.writes → ∀ {o}, v.op o = none → x ≠ o := by
    rintro h o hn rfl
    exact i.passed (List.mem_append_right _ h) hn
  cases m with
  | acceptTry _ _ _ hw => rw [hw] at hx; cases hx
  | @acceptQueue o r hr hn hf =>
    rcases List.mem_append.mp hx with hx | hx
    · obtain ⟨r0, h0, hle, hs⟩ := hb x hx
      exact ⟨r0, by simpa [passed hx hn] using h0, hle, by simpa using hs⟩
    · rw [List.mem_singleton] at hx
      subst hx
      have : sentOf s x v.log = [] := i.trace.unsent x (.inl (i.known x hn).1)
      exact ⟨r, by simp, by rw [hnew r hr]; omega, by simp [this, hnew r hr]⟩
  | @refuse o r _ hn =>
    obtain ⟨r0, h0, hle, hs⟩ := hb x hx
    exact ⟨r0, by simpa [passed hx hn] using h0, hle, by simpa using hs⟩
  | tryAgain hf =>
    rw [i.alone (by rw [hf]; simp)] at hx
    cases hx
  | @tryBlock o fd hf =>
    rw [i.alone (by rw [hf]; simp), List.nil_append, List.mem_singleton] at hx
    subst hx
    obtain ⟨h1, r, hr, hz⟩ := b.flight x (by rw [hf]; simp)
    exact ⟨r, hr, by omega, by simp [h1, hz]⟩
  | @tryPart o fd r n hf ho hn =>
    rw [i.alone (by rw [hf]; simp), List.nil_append, List.mem_singleton] at hx
    subst hx
    obtain ⟨h1, r0, h0, hz⟩ := b.flight x (by rw [hf]; simp)
    rw [ho] at h0
    cases h0
    have hlt := r.size_lt
    have hmod : (r.written + n) % 2 ^ 64 = n := by omega
    exact ⟨{ r with written := n }, by simp only [Function.update_self, hmod], le_of_lt hn,
      by simp [h1]⟩
  | tryDone hf =>
    rw [i.alone (by rw [hf]; simp)] at hx
    cases hx
  | @loopWait o p fd hw hf =>
    obtain ⟨r, hr, hle, hs⟩ := hb x hx
    refine ⟨r, hr, hle, ?_⟩
    simp only [sentOf_append, sentOf_write, hs, sentOf_nil]
    split <;> simp
  | @loopPart o p fd r n hw hf ho hn =>
    obtain ⟨hmod, hle, hs⟩ := b.more hw ho hn
    by_cases hxo : x = o
    · subst hxo
      exact ⟨{ r with written := r.written + n }, by simp only [Function.update_self, hmod], hle,
        by simp [hs]⟩
    · obtain ⟨r0, h0, hle0, hs0⟩ := hb x hx
      exact ⟨r0, by simpa [hxo] using h0, hle0, by simp [hs0, Ne.symm hxo]⟩
  | @loopDone o p fd r n hw hf ho hn =>
    rw [hf, hw, List.nil_append, List.nodup_cons] at hnd
    have hxo : x ≠ o := fun h => hnd.1 (h ▸ hx)
    obtain ⟨r0, h0, hle0, hs0⟩ := hb x (by rw [hw]; exact List.mem_cons_of_mem _ hx)
    refine ⟨r0, by simpa [hxo] using h0, hle0, ?_⟩
    split <;> simp [hs0, Ne.symm hxo]
  | @loopFail o p fd r st hw hf =>
    obtain ⟨r0, h0, hle0, hs0⟩ := hb x (by rw [hw]; exact List.mem_cons_of_mem _ hx)
    refine ⟨r0, h0, hle0, ?_⟩
    simp [hs0]
  | @cancel o p r hw hf =>
    obtain ⟨r0, h0, hle0, hs0⟩ := hb x (by rw [hw]; exact List.mem_cons_of_mem _ hx)
    exact ⟨r0, h0, hle0, by simpa using hs0⟩
  | closeQueued =>
    obtain ⟨r0, h0, hle0, hs0⟩ := hb x hx
    exact ⟨r0, h0, hle0, by simpa using hs0⟩

theorem WriteMove.bytes_prefix (x : Op) (r' : WriteOp) (hx : v'.op x = some r') :
    sentOf s x v'.log <+: r'.data := by
  have old : v.op x ≠ none → sentOf s x v.log <+: r'.data := by
    intro hne
    obtain ⟨r, hr⟩ := Option.ne_none_iff_exists'.mp hne
    obtain ⟨r1, h1, hd, _⟩ := m.op_fixed hr
    rw [hx] at h1
    cases h1
    rw [hd]
    exact b.sent_prefix x r hr
  have unsent : v.op x = none → sentOf s x v.log = [] :=
    fun h => i.trace.unsent x (.inl (i.known x h).1)
  -- an entry that hands over nothing
  have same : ∀ {l}, sentOf s x (v.log ++ l) = sentOf s x v.log →
      sentOf s x (v.log ++ l) <+: r'.data := by
    intro l hl
    rw [hl]
    by_cases hn : v.op x = none
    · rw [unsent hn]
      exact List.nil_prefix
    · exact old hn
  cases m with
  | acceptTry => exact same (by simp)
  | acceptQueue => exact same (by simp)
  | refuse => exact same (by simp)
  | tryAgain => exact same (by simp)
  | tryBlock => exact same (by simp)
  | @tryPart o fd r n hf ho =>
    by_cases hxo : x = o
    · subst hxo
      obtain ⟨h1, _⟩ := b.flight x (by rw [hf]; simp)
      simp only [Function.update_self, Option.some.injEq] at hx
      subst hx
      simpa [h1] using List.take_prefix n r.data
    · exact same (by simp [Ne.symm hxo])
  | @tryDone o fd r n st hf ho =>
    by_cases hxo : x = o
    · subst hxo
      obtain ⟨h1, _⟩ := b.flight x (by rw [hf]; simp)
      rw [ho] at hx
      cases hx
      simpa [h1] using List.take_prefix n _
    · exact same (by simp [Ne.symm hxo])
  | loopWait => exact same (by simp)
  | @loopPart o p fd r n hw hf ho hn =>
    by_cases hxo : x = o
    · subst hxo
      simp only [Function.update_self, Option.some.injEq] at hx
      subst hx
      simpa [(b.more hw ho hn).2.2] using List.take_prefix (r.written + n) r.data
    · exact same (by simp [Ne.symm hxo])
  | @loopDone o p fd r n hw hf ho hn =>
    by_cases hxo : x = o
    · subst hxo
      simp only [Function.update_self, Option.some.injEq] at hx
      subst hx
      have := List.take_prefix (r.written + n) r.data
      rw [← (b.more hw ho hn).2.2] at this
      split <;> simpa using this
    · refine same ?_
      split <;> simp [Ne.symm hxo]
  | loopFail => exact same (by simp)
  | cancel => exact same (by simp)
  | closeQueued => exact same (by simp)

theorem WriteMove.bytes_full : Past (fun l x => ∀ o r, (x = .called s o 0 ∨ x = .uncalled s o) →
    v'.op o = some r → sentOf s o l = r.data) v'.log := by
  have p := m.full_old i b
  cases m with
  | @tryDone o fd r n st hf ho _ hst =>
    refine p.snoc₂ (by simp) ?_
    rintro x r' (hx | hx) hr
    · cases hx
      obtain ⟨h1, _⟩ := b.flight o (by rw [hf]; simp)
      rw [ho] at hr
      cases hr
      simpa [h1] using hst rfl
    · cases hx
  | @loopDone o p' fd r n hw hf ho hn hd =>
    refine p.snoc₂ (by simp) ?_
    intro x r' hx hr
    have hxo : o = x := by
      split at hx <;> rcases hx with hx | hx <;> cases hx <;> rfl
    subst hxo
    simp only [Function.update_self, Option.some.injEq] at hr
    subst hr
    obtain ⟨hmod, _, hs⟩ := b.more hw ho hn
    rw [hmod] at hd
    simp [hs, hd]
  | @loopFail o p' fd r st hw hf ho _ hst =>
    refine p.snoc₂ (by simp) ?_
    rintro x r' (hx | hx) hr
    · cases hx
      exact absurd rfl hst
    · cases hx
  | @cancel o p' r hw hf =>
    refine p.snoc ?_
    rintro x r' (hx | hx) hr
    · simp only [Obs.called.injEq] at hx
      exact absurd hx.2.2 (by decide)
    · cases hx
  | _ => exact p.snoc (by simp)

theorem WriteMove.bytes (hnew : ∀ r, new r → r.written = 0) : BytesInv s v' where
  flight := m.bytes_flight i b hnew
  queued := m.bytes_queued i b hnew
  sent_prefix := m.bytes_prefix i b
  full := m.bytes_full i b

end

/-- The application passes its operations as `pd_write_init` leaves them. -/
def FreshOps (_ : Cfg) (x : Act) : Prop := ∀ s r, Passes x s r → r.written = 0

/-- `written` of the operation that the application passes. -/
def Act.written : Act → Nat
  | .api (.tcpWrite _ _ r) _ => r.written
  | _ => 0

theorem freshOps_iff {c : Cfg} {x : Act} : FreshOps c x ↔ x.written = 0 := by
  unfold FreshOps Passes Act.written
  split
  · exact ⟨fun h => h _ _ ⟨_, _, rfl⟩, by rintro h _ _ ⟨op, a, he⟩; cases he; exact h⟩
  · rename_i hx
    exact ⟨fun _ => rfl, fun _ s r ⟨op, a, he⟩ => absurd he (hx s op r a)⟩

instance (c : Cfg) (x : Act) : Decidable (FreshOps c x) := decidable_of_iff' _ freshOps_iff

theorem Cfg.Init.bytesInv {c : Cfg} (h : c.Init) (s : Sid) : BytesInv s (c.writeView s) := by
  obtain ⟨k, fd, _, _, rfl⟩ := h
  exact BytesInv.init

theorem Run.bytesInv {c : Cfg} (r : Run FreshOps c) (s : Sid) : BytesInv s (c.writeView s) := by
  refine Machine.Reach.invariant (P := fun c => BytesInv s (c.writeView s))
    (fun c h => h.bytesInv s) ?_ r
  intro c x c' hr ih hok hs
  obtain ⟨ht, hi⟩ := Run.writeInv hr
  rcases (step_write ht hs).2 s with he | hm
  · rw [he]
    exact ih
  · exact hm.bytes (hi s) ih (hok s)

theorem sentOf_filter (o : Op) (log : List Obs) :
    sentOf s o (log.filter (isWriteObs s)) = sentOf s o log := by
  rw [sentOf, writeEvents_filter, sentOf]

/-- What was sent as a whole stays so. -/
theorem sentOf_full {o : Op} {data : List UInt8} {l m : List Obs} (h : sentOf s o l = data)
    (hp : sentOf s o (l ++ m) <+: data) : sentOf s o (l ++ m) = data :=
  hp.eq_of_length (le_antisymm hp.length_le (by rw [sentOf_append, h, List.length_append]; omega))

/-- **The bytes of a stream.** They are prefixes of the buffers of the accepted operations, one
after the other in the order of the calls; the prefix is the whole buffer when the callback got
status 0. When bytes of an operation are sent, every operation accepted before it was sent as a
whole or was called back with an error. -/
theorem bytes_in_order {c : Cfg} (r : Run FreshOps c) (s : Sid) :
    sentBytes s c.world.log =
      (acceptedOps s c.world.log).flatMap (fun op => sentOf s op c.world.log) ∧
    (∀ op ∈ acceptedOps s c.world.log, ∃ wr, c.world.op s op = some wr ∧
      sentOf s op c.world.log <+: wr.data ∧
      (.called s op 0 ∈ c.world.log → sentOf s op c.world.log = wr.data)) ∧
    ∀ l1 fd op bytes l2, c.world.log = l1 ++ .write s fd op bytes :: l2 →
      ∃ before rest, acceptedOps s l1 = before ++ op :: rest ∧ ∀ op' ∈ before,
        (∃ wr, c.world.op s op' = some wr ∧ sentOf s op' l1 = wr.data) ∨
          ∃ st, st ≠ 0 ∧ .called s op' st ∈ l1 := by
  have i := (Run.writeInv r).2 s
  have b := r.bytesInv s
  have ht : Fifo.Trace (writeEvents s c.world.log)
      (inFlight s c.stack ++ (c.world.tcp s).writes) := by
    rw [← writeEvents_filter]
    exact i.trace
  have hpre : ∀ o wr, c.world.op s o = some wr → sentOf s o c.world.log <+: wr.data := by
    intro o wr ho
    rw [← sentOf_filter]
    exact b.sent_prefix o wr ho
  -- an operation finished with success was sent as a whole by then
  have hfull : ∀ l1 l2 o wr, c.world.log = l1 ++ l2 → c.world.op s o = some wr →
      .called s o 0 ∈ l1 ∨ .uncalled s o ∈ l1 → sentOf s o l1 = wr.data := by
    intro l1 l2 o wr hl ho hx
    obtain ⟨e, he, hm⟩ : ∃ e, (e = .called s o 0 ∨ e = .uncalled s o) ∧ e ∈ l1 := by
      rcases hx with hx | hx
      · exact ⟨_, .inl rfl, hx⟩
      · exact ⟨_, .inr rfl, hx⟩
    obtain ⟨la, lb, rfl⟩ := List.append_of_mem hm
    have hw : isWriteObs s e = true := by rcases he with rfl | rfl <;> simp [isWriteObs]
    have hla := Past.of_filter b.full la e (lb ++ l2) (by rw [hl]; simp) hw o wr he ho
    rw [sentOf_filter] at hla
    refine sentOf_full hla (List.IsPrefix.trans ?_ (hpre o wr ho))
    rw [hl, sentOf_append o (la ++ e :: lb)]
    exact List.prefix_append _ _
  have hop : ∀ o ∈ acceptedOps s c.world.log, ∃ wr, c.world.op s o = some wr := by
    intro o ho
    refine Option.ne_none_iff_exists'.mp fun hn => (i.known o hn).1 ?_
    rw [acceptedOps] at ho ⊢
    simpa [Cfg.writeView, writeView, writeEvents_filter] using ho
  refine ⟨ht.sent_eq, ?_, ?_⟩
  · intro o ho
    obtain ⟨wr, hwr⟩ := hop o ho
    exact ⟨wr, hwr, hpre o wr hwr, fun hc => hfull _ [] o wr (by simp) hwr (.inl hc)⟩
  · intro l1 fd op bytes l2 hl
    have hsplit : writeEvents s c.world.log =
        writeEvents s l1 ++ .send op bytes :: writeEvents s l2 := by rw [hl]; simp
    obtain ⟨q, hq⟩ := ht.turn hsplit
    refine ⟨_, q, hq, fun o ho => ?_⟩
    have hacc : o ∈ acceptedOps s c.world.log := by
      rw [hl, acceptedOps, writeEvents_append, Fifo.accepted_append, hq]
      simp [ho]
    obtain ⟨wr, hwr⟩ := hop o hacc
    rcases finished_cases ho with ⟨st, hst⟩ | hu
    · by_cases h0 : st = 0
      · subst h0
        exact .inl ⟨wr, hwr, hfull l1 _ o wr hl hwr (.inl hst)⟩
      · exact .inr ⟨st, h0, hst⟩
    · exact .inl ⟨wr, hwr, hfull l1 _ o wr hl hwr (.inr hu)⟩

/-- Two operations: the first is sent in two pieces and called back, then the second is sent. -/
theorem bytes_in_order_two : ∃ c, Run FreshOps c ∧ sentBytes 0 c.world.log = [1, 2, 3] ∧
    sentBytes 0 c.world.log =
      (acceptedOps 0 c.world.log).flatMap (fun op => sentOf 0 op c.world.log) := by
  have r : Run FreshOps _ := Run.play (Cfg.start_init [5])
    [.api (.tcpAccept 0 5) (.ok 0 []),
      .api (.tcpWrite 0 0 (pdWriteInit [1, 2] true (by decide))) (.ok 0 []), .lib (.ok 1 []),
      .api (.tcpWrite 0 1 (pdWriteInit [3] true (by decide))) (.ok 0 []),
      .api .ioRun (.ok 0 []), .lib (.ok 0 [(5, ⟨false, true, false, false, false⟩)]),
      .lib (.ok 0 []), .lib (.ok 0 []), .lib (.ok 1 []), .ret none, .lib (.ok 1 [])] rfl
  exact ⟨_, r, rfl, (bytes_in_order r 0).1⟩

end Pandio
