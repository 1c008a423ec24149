import Pandio.Lib.Fifo
import Pandio.Unix.Footprint

/- What a step does to the writes of a stream. `WriteMove` lists every way in which
   a step of the machine can change them; all that is said about the order of the
   bytes and of the callbacks is derived from that list. -/
namespace Pandio
open World

/-! ## The view of one stream's writes -/

/-- A stream's writes: what happened, the operation `pd_tcp_write` is about to write, the queue,
and the operations passed so far. -/
structure WriteView where
  log : List Obs
  flight : List Op
  writes : List Op
  op : Op → Option WriteOp

/-- The operation of the stream that the top of the stack is about to write. -/
def inFlight (s : Sid) : List Item → List Op
  | .lib (.writeTry s' op) :: _ => if s' = s then [op] else []
  | _ => []

def World.writeView (w : World) (s : Sid) (stack : List Item) : WriteView :=
  { log := w.log.filter (isWriteObs s), flight := inFlight s stack
    writes := (w.tcp s).writes, op := w.op s }

/-- The ways to change a stream's writes, where `P` holds of the operation that the application
passes. Status 0 is success. -/
inductive WriteMove (s : Sid) (P : WriteOp → Prop) : WriteView → WriteView → Prop where
  | acceptTry {v : WriteView} {o : Op} {r : WriteOp} : P r → v.op o = none → v.flight = [] →
      v.writes = [] → WriteMove s P v
        { v with log := v.log ++ [.accepted s o], flight := [o]
                 op := Function.update v.op o (some r) }
  | acceptQueue {v : WriteView} {o : Op} {r : WriteOp} : P r → v.op o = none → v.flight = [] →
      WriteMove s P v
        { v with log := v.log ++ [.accepted s o], writes := v.writes ++ [o]
                 op := Function.update v.op o (some r) }
  | refuse {v : WriteView} {o : Op} {r : WriteOp} : P r → v.op o = none → r.cb = true →
      WriteMove s P v
        { v with log := v.log ++ [.refused s o], op := Function.update v.op o (some r) }
  /-- The first `write` is interrupted. -/
  | tryAgain {v : WriteView} {o : Op} {d : Fd} : v.flight = [o] →
      WriteMove s P v { v with log := v.log ++ [.write s d o []] }
  /-- The first `write` would block, or takes a part of the buffer. -/
  | tryBlock {v : WriteView} {o : Op} {d : Fd} : v.flight = [o] →
      WriteMove s P v
        { v with log := v.log ++ [.write s d o []], flight := [], writes := v.writes ++ [o] }
  | tryPart {v : WriteView} {o : Op} {d : Fd} {r : WriteOp} {n : Nat} : v.flight = [o] →
      v.op o = some r → n < r.data.length →
      WriteMove s P v
        { v with
          log := v.log ++ [.write s d o (r.data.take n)], flight := [], writes := v.writes ++ [o]
          op := Function.update v.op o (some { r with written := (r.written + n) % 2 ^ 64 }) }
  /-- The first `write` decides the operation. -/
  | tryDone {v : WriteView} {o : Op} {d : Fd} {r : WriteOp} {n : Nat} {t : Int} :
      v.flight = [o] → v.op o = some r → r.cb = true → (t = 0 → r.data.length ≤ n) →
      WriteMove s P v
        { v with log := v.log ++ [.write s d o (r.data.take n), .called s o t], flight := [] }
  /-- A later `write` is interrupted or would block. -/
  | loopWait {v : WriteView} {o : Op} {p : List Op} {d : Fd} : v.writes = o :: p →
      v.flight = [] → WriteMove s P v { v with log := v.log ++ [.write s d o []] }
  | loopPart {v : WriteView} {o : Op} {p : List Op} {d : Fd} {r : WriteOp} {n : Nat} :
      v.writes = o :: p → v.flight = [] → v.op o = some r →
      n ≤ (r.data.length + (2 ^ 64 - r.written % 2 ^ 64)) % 2 ^ 64 →
      (r.written + n) % 2 ^ 64 ≠ r.data.length →
      WriteMove s P v
        { v with
          log := v.log ++ [.write s d o ((r.data.drop r.written).take n)]
          op := Function.update v.op o (some { r with written := (r.written + n) % 2 ^ 64 }) }
  /-- A later `write` finishes the operation, whose callback may be NULL. -/
  | loopDone {v : WriteView} {o : Op} {p : List Op} {d : Fd} {r : WriteOp} {n : Nat} :
      v.writes = o :: p → v.flight = [] → v.op o = some r →
      n ≤ (r.data.length + (2 ^ 64 - r.written % 2 ^ 64)) % 2 ^ 64 →
      (r.written + n) % 2 ^ 64 = r.data.length →
      WriteMove s P v
        { v with
          log := v.log ++ [.write s d o ((r.data.drop r.written).take n),
            if r.cb then .called s o 0 else .uncalled s o]
          writes := p
          op := Function.update v.op o (some { r with written := (r.written + n) % 2 ^ 64 }) }
  | loopFail {v : WriteView} {o : Op} {p : List Op} {d : Fd} {r : WriteOp} {t : Int} :
      v.writes = o :: p → v.flight = [] → v.op o = some r → r.cb = true → t ≠ 0 →
      WriteMove s P v
        { v with log := v.log ++ [.write s d o [], .called s o t], writes := p }
  /-- `pd_tcp_close` cancels an operation. -/
  | cancel {v : WriteView} {o : Op} {p : List Op} {r : WriteOp} : v.writes = o :: p →
      v.flight = [] → v.op o = some r → r.cb = true →
      WriteMove s P v { v with log := v.log ++ [.called s o PD_ECANCELED], writes := p }
  | closeQueued {v : WriteView} : v.writes = [] → v.flight = [] →
      WriteMove s P v { v with log := v.log ++ [.closeQueued s] }

/-! ## Steps that leave the writes alone -/

/-- The item is a `write` of `pd_tcp_write`. -/
def isTry : Item → Bool
  | .lib (.writeTry _ _) => true
  | _ => false

theorem inFlight_nil {s : Sid} {l : List Item} (h : ∀ i ∈ l, isTry i = false) :
    inFlight s l = [] := by
  unfold inFlight
  split
  · rename_i s' op rest
    have := h (.lib (.writeTry s' op)) (by simp)
    simp [isTry] at this
  · rfl

/-- Only the top of what a step pushes is a `write` of `pd_tcp_write`. -/
theorem Frame.Pushes.tail_noTry {f : Frame} {l : List Item} (h : f.Pushes l) :
    ∀ i ∈ l.tail, isTry i = false := by
  cases h with
  | poll timeout events =>
    intro i hi
    have hi := List.mem_of_mem_tail hi
    simp only [List.mem_append, List.mem_map] at hi
    rcases hi with ⟨e, _, rfl⟩ | hi
    · rfl
    · fin_cases hi <;> rfl
  | _ => simp [isTry]

theorem Call.Pushes.tail_noTry {c : Call} {l : List Item} (h : c.Pushes l) :
    ∀ i ∈ l.tail, isTry i = false := by
  cases h <;> simp

theorem Frame.Pushes.try_mem {f : Frame} {l : List Item} {s : Sid} {op : Op} (h : f.Pushes l)
    (hi : .lib (.writeTry s op) ∈ l) : f = .writeTry s op := by
  cases h <;> simp_all

theorem Call.Pushes.try_mem {c : Call} {l : List Item} {s : Sid} {op : Op} (h : c.Pushes l)
    (hi : .lib (.writeTry s op) ∈ l) : ∃ wr, c = .tcpWrite s op wr := by
  cases h <;> simp_all

theorem inFlight_eq_nil {s : Sid} {l : List Item}
    (h : ∀ op, .lib (.writeTry s op) ∉ l) : inFlight s l = [] := by
  unfold inFlight
  split
  · rename_i s' op rest
    split
    · rename_i hs
      subst hs
      exact absurd List.mem_cons_self (h op)
    · rfl
  · rfl

section
variable {w w' : World} {s : Sid} {a : Answer} {r : World × List Item}

theorem Touches.writeView {F : Footprint} (t : Touches F w w') (hw : ¬ F.writes s)
    {st st' : List Item} (hf : inFlight s st' = inFlight s st) :
    w'.writeView s st' = w.writeView s st := by
  have hl : w'.log.filter (isWriteObs s) = w.log.filter (isWriteObs s) :=
    t.filter_log fun o ho => by
      by_contra h
      exact hw (ho.writes (by simpa using h))
  simp only [World.writeView, hl, t.writes s hw, t.op s hw, hf]

/-- A frame that works for another stream, or does not write, leaves the stream's writes alone. -/
theorem exec_writeView {f : Frame} (hf : ¬ (f.stream = some s ∧ f.writing = true))
    (h : exec w f a = some r) : r.1.writeView s r.2 = w.writeView s [.lib f] := by
  refine (exec_touches h).writeView hf ?_
  have none : ∀ {l : List Item}, (∀ op, .lib (.writeTry s op) ∈ l → f = .writeTry s op) →
      inFlight s l = [] := fun hl => inFlight_eq_nil fun op hi => by
    obtain rfl := hl op hi
    exact hf ⟨rfl, rfl⟩
  rw [none fun op hi => (exec_pushes h).try_mem hi, none fun op hi => by simp_all]

/-- A call that writes nothing to the stream leaves its writes alone. -/
theorem api_writeView {c : Call} (hc : ¬ (c.stream = some s ∧ c.writing = true))
    (h : api w c a = some r) : r.1.writeView s r.2 = w.writeView s [] := by
  refine (api_touches h).writeView hc (inFlight_eq_nil fun op hi => ?_)
  obtain ⟨wr, rfl⟩ := (api_pushes h).try_mem hi
  exact hc ⟨rfl, rfl⟩

theorem env_writeView {e : Env} (h : env w e = some w') (st : List Item) :
    w'.writeView s st = w.writeView s st := by
  have hu := env_keeps h
  simp only [World.writeView, hu.log, hu.tcp, hu.op]

end

/-! ## Steps that change the writes -/

section
variable {w : World} {s : Sid} {new : WriteOp → Prop} {a : Answer} {r : World × List Item}

theorem closeDrain_move (hr : closeDrain w s = some r) :
    WriteMove s new (w.writeView s [.lib (.closeDrain s)]) (r.1.writeView s r.2) := by
  have hfl : inFlight s [.lib (.closeDrain s)] = [] := rfl
  simp only [closeDrain] at hr
  split at hr
  · rename_i op rest hw
    unfold callWrite at hr
    split at hr
    · rename_i wr hop
      split at hr
      · rename_i hcb
        cases hr
        have := WriteMove.cancel (s := s) (P := new) (v := w.writeView s [.lib (.closeDrain s)])
          (o := op) (p := rest) (r := wr) hw hfl hop hcb
        simpa [writeView, logObs, setTcp, isWriteObs, inFlight] using this
      · cases hr
    · cases hr
  · rename_i hw
    cases hr
    have := WriteMove.closeQueued (s := s) (P := new)
      (v := w.writeView s [.lib (.closeDrain s)]) hw hfl
    simpa [writeView, logObs, setPendingCloses, goOn, isWriteObs, inFlight] using this

/-- `pd_tcp_write_async` of an active stream queues the operation. -/
theorem pdTcpWriteAsync_view {op : Op} (hact : (w.tcp s).status = .active)
    (hr : pdTcpWriteAsync w s op a = some r) :
    r.1.writeView s r.2 =
      { w.writeView s [] with writes := (w.tcp s).writes ++ [op] } ∧ r.2 = [] := by
  rw [pdTcpWriteAsync, if_neg (not_not_intro hact)] at hr
  simp only at hr
  split at hr
  · cases hr
    refine ⟨?_, rfl⟩
    simp [writeView, goOn, pd_eventSet, setPollout, setTcp, setKernel, setErrno, logObs, isWriteObs]
  · cases hr
    refine ⟨?_, rfl⟩
    simp [writeView, goOn, setTcp]

theorem pdTcpWrite_move {op : Op} {wr : WriteOp} (hwr : new wr) (hnew : w.op s op = none)
    (hr : pdTcpWrite w s op wr a = some r) :
    WriteMove s new (w.writeView s []) (r.1.writeView s r.2) := by
  have hfl : inFlight s [] = [] := rfl
  simp only [pdTcpWrite] at hr
  split at hr
  · split at hr
    · rename_i hcb
      cases hr
      have := WriteMove.refuse (s := s) (v := w.writeView s []) hwr hnew hcb
      simpa [writeView, logObs, setOp, isWriteObs, inFlight] using this
    · cases hr
  · rename_i hact
    have hact : (w.tcp s).status = .active := by simpa [setOp] using hact
    split at hr
    · rename_i hw
      cases hr
      have := WriteMove.acceptTry (s := s) (v := w.writeView s []) hwr hnew hfl hw
      simpa [writeView, logObs, setOp, isWriteObs, inFlight, goOn] using this
    · obtain ⟨hb, hi⟩ := pdTcpWriteAsync_view (by simpa [setOp, logObs] using hact) hr
      have := WriteMove.acceptQueue (s := s) (v := w.writeView s []) hwr hnew hfl
      rw [hb]
      simpa [writeView, logObs, setOp, isWriteObs, inFlight] using this

theorem errno_pos {k : Kernel} {fd : Fd} {size : Nat} {a : Answer} {e : Nat}
    (h : k.writeRes fd size (a.sys 0) = .err e) : pdErrmap e ≠ 0 := by
  have hpos : 0 < e := by
    rcases Kernel.writeRes_err h with rfl | h
    · decide
    · exact a.errno_pos 0 e h
  rw [pdErrmap]
  omega

theorem writeTry_move {op : Op} (hact : (w.tcp s).status = .active)
    (hr : writeTry w s op a = some r) :
    WriteMove s new (w.writeView s [.lib (.writeTry s op)]) (r.1.writeView s r.2) := by
  unfold writeTry at hr
  split at hr
  · cases hr
  rename_i wr hop
  simp only at hr
  have hfl : (w.writeView s [.lib (.writeTry s op)]).flight = [op] := by
    simp [writeView, inFlight]
  split at hr
  · rename_i e he
    split at hr
    · cases hr
      have := WriteMove.tryAgain (s := s) (P := new) (d := (w.tcp s).fd) hfl
      simpa [writeView, logObs, setErrno, isWriteObs, inFlight, goOn] using this
    · split at hr
      · obtain ⟨hb, hi⟩ := pdTcpWriteAsync_view (by simpa [setErrno, logObs] using hact) hr
        have := WriteMove.tryBlock (s := s) (P := new) (d := (w.tcp s).fd) hfl
        rw [hb]
        simpa [writeView, logObs, setErrno, isWriteObs, inFlight] using this
      · unfold callWrite at hr
        simp only [setErrno, logObs, hop] at hr
        split at hr
        · rename_i hcb
          cases hr
          have := WriteMove.tryDone (s := s) (P := new) (d := (w.tcp s).fd) (n := 0)
            (t := pdErrmap e) hfl hop hcb (fun h => absurd h (errno_pos he))
          simpa [writeView, pdErrno, isWriteObs, inFlight] using this
        · cases hr
  · rename_i n hn
    split at hr
    · rename_i hlt
      obtain ⟨hb, hi⟩ := pdTcpWriteAsync_view (by simpa [setOp, logObs] using hact) hr
      have := WriteMove.tryPart (s := s) (P := new) (d := (w.tcp s).fd) hfl hop hlt
      rw [hb]
      simpa [writeView, logObs, setOp, isWriteObs, inFlight] using this
    · rename_i hlt
      unfold callWrite at hr
      simp only [logObs, hop] at hr
      split at hr
      · rename_i hcb
        cases hr
        have := WriteMove.tryDone (s := s) (P := new) (d := (w.tcp s).fd) (n := n) (t := 0) hfl hop
          hcb (fun _ => Nat.not_lt.mp hlt)
        simpa [writeView, isWriteObs, inFlight] using this
      · cases hr

/-- The round of `pd__tcp_write` that ends its loop leaves the writes alone. -/
theorem writeLoop_move (hr : writeLoop w s a = some r) :
    r.1.writeView s r.2 = w.writeView s [.lib (.writeLoop s)] ∨
      WriteMove s new (w.writeView s [.lib (.writeLoop s)]) (r.1.writeView s r.2) := by
  have hfl : inFlight s [.lib (.writeLoop s)] = [] := rfl
  unfold writeLoop at hr
  split at hr
  · rename_i op rest hw
    refine .inr ?_
    split at hr
    · cases hr
    rename_i wr hop
    simp only at hr
    have hv : (w.writeView s [.lib (.writeLoop s)]).writes = op :: rest := hw
    split at hr
    · rename_i e he
      -- nothing was sent: a signal, a full buffer or an error
      have hwait := WriteMove.loopWait (s := s) (P := new) (d := (w.tcp s).fd) hv hfl
      split at hr
      · cases hr
        simpa [writeView, logObs, setErrno, isWriteObs, inFlight, goOn] using hwait
      · split at hr
        · cases hr
          simpa [writeView, logObs, setErrno, isWriteObs, inFlight, goOn] using hwait
        · unfold callWrite at hr
          simp only [setErrno, logObs, setTcp, hop] at hr
          split at hr
          · rename_i hcb
            cases hr
            have := WriteMove.loopFail (s := s) (P := new) (d := (w.tcp s).fd) (t := pdErrmap e) hv
              hfl hop hcb (errno_pos he)
            simpa [writeView, pdErrno, isWriteObs, inFlight] using this
          · cases hr
    · rename_i n hn
      have hle := Kernel.writeRes_le hn
      split at hr
      · rename_i hdone
        cases hr
        -- the operation is written
        have := WriteMove.loopDone (s := s) (P := new) (d := (w.tcp s).fd) hv hfl hop hle hdone
        unfold finishWrite
        by_cases hcb : wr.cb = true
        · simpa [writeView, logObs, setTcp, setOp, isWriteObs, inFlight, hcb] using this
        · simpa [writeView, logObs, setTcp, setOp, isWriteObs, inFlight, goOn, hcb] using this
      · rename_i hmore
        cases hr
        -- more of it is left
        have := WriteMove.loopPart (s := s) (P := new) (d := (w.tcp s).fd) hv hfl hop hle hmore
        simpa [writeView, logObs, setOp, isWriteObs, inFlight, goOn] using this
  · refine .inl ?_
    simp only at hr
    split at hr
    · cases hr
      simp [writeView, goOn, shutdownWr, pd_eventSet, setPollout, setTcp, setKernel, setErrno,
        logObs, isWriteObs, inFlight]
    · cases hr
      simp [writeView, goOn, pd_eventSet, setPollout, setTcp, setKernel, setErrno, logObs,
        isWriteObs, inFlight]

/-- **What the library does to a stream's writes.** The stream of an operation that is about to be
written is active. -/
theorem exec_writeMove {f : Frame}
    (hact : ∀ s' op, f = .writeTry s' op → (w.tcp s').status = .active)
    (hr : exec w f a = some r) :
    r.1.writeView s r.2 = w.writeView s [.lib f] ∨
      WriteMove s new (w.writeView s [.lib f]) (r.1.writeView s r.2) := by
  by_cases hf : f.stream = some s ∧ f.writing = true
  · obtain ⟨hs, hw⟩ := hf
    cases f with
    | closeDrain s' => cases hs; exact .inr (closeDrain_move hr)
    | writeTry s' op => cases hs; exact .inr (writeTry_move (hact s op rfl) hr)
    | writeLoop s' => cases hs; exact writeLoop_move hr
    | _ => cases hw
  · exact .inl (exec_writeView hf hr)

/-- **What a call of the application does to a stream's writes.** -/
theorem api_writeMove {c : Call} (hnew : ∀ op wr, c = .tcpWrite s op wr → new wr)
    (hr : api w c a = some r) :
    r.1.writeView s r.2 = w.writeView s [] ∨
      WriteMove s new (w.writeView s []) (r.1.writeView s r.2) := by
  by_cases hc : c.stream = some s ∧ c.writing = true
  · obtain ⟨hs, hw⟩ := hc
    cases c with
    | tcpWrite s' op wr =>
      cases hs
      simp only [api] at hr
      split at hr
      · rename_i hop
        exact .inr (pdTcpWrite_move (hnew op wr rfl) hop hr)
      · cases hr
    | _ => cases hw
  · exact .inl (api_writeView hc hr)

/-! ## Steps of the machine -/

/-- A `write` of `pd_tcp_write` is repeated without a change to the streams. -/
theorem exec_try {f : Frame} {a : Answer} {r : World × List Item} {op : Op}
    (hr : exec w f a = some r) (hi : .lib (.writeTry s op) ∈ r.2) :
    f = .writeTry s op ∧ r.1.tcp = w.tcp := by
  obtain rfl := (exec_pushes hr).try_mem hi
  refine ⟨rfl, ?_⟩
  have async : ∀ {w' : World}, pdTcpWriteAsync w' s op a = some r → False := by
    intro w' h
    rcases pdTcpWriteAsync_items h with h | ⟨st, h⟩ <;> simp [h] at hi
  simp only [exec, writeTry] at hr
  split at hr
  · cases hr
  · split at hr
    · split at hr
      · cases hr
        rfl
      · split at hr
        · exact (async hr).elim
        · simp [callWrite_items hr] at hi
    · split at hr
      · exact (async hr).elim
      · simp [callWrite_items hr] at hi

/-- A call writes at once for an active stream only. -/
theorem api_try {c : Call} {a : Answer} {r : World × List Item} {op : Op}
    (hr : api w c a = some r) (hi : .lib (.writeTry s op) ∈ r.2) :
    (r.1.tcp s).status = .active := by
  obtain ⟨wr, rfl⟩ := (api_pushes hr).try_mem hi
  simp only [api, pdTcpWrite] at hr
  split at hr
  · split at hr
    · split at hr <;> cases hr
      simp at hi
    · rename_i hact
      split at hr
      · cases hr
        exact not_not.mp hact
      · rcases pdTcpWriteAsync_items hr with h | ⟨st, h⟩ <;> simp [h] at hi
  · cases hr

end

/-- Only the top of the stack is a `write` of `pd_tcp_write`, and only for an active stream. -/
structure TryTop (c : Cfg) : Prop where
  below : ∀ i ∈ c.stack.tail, isTry i = false
  active : ∀ s op, .lib (.writeTry s op) ∈ c.stack → (c.world.tcp s).status = .active

def Cfg.writeView (c : Cfg) (s : Sid) : WriteView := c.world.writeView s c.stack

theorem inFlight_append {s : Sid} {l rest : List Item} (h : ∀ i ∈ rest, isTry i = false) :
    inFlight s (l ++ rest) = inFlight s l := by
  cases l with
  | nil =>
    rw [List.nil_append, inFlight_nil h]
    rfl
  | cons i l => cases i with
    | app k => rfl
    | lib f => cases f <;> rfl

theorem writeView_append {w : World} {s : Sid} {l rest : List Item}
    (h : ∀ i ∈ rest, isTry i = false) : w.writeView s (l ++ rest) = w.writeView s l := by
  simp only [World.writeView, inFlight_append h]

/-- A step that puts items on frames that are no `write`. -/
theorem TryTop.push {rest : List Item} {r : World × List Item}
    (hrest : ∀ i ∈ rest, isTry i = false) (htail : ∀ i ∈ r.2.tail, isTry i = false)
    (hact : ∀ s op, .lib (.writeTry s op) ∈ r.2 → (r.1.tcp s).status = .active) :
    TryTop ⟨r.1, r.2 ++ rest⟩ := by
  refine ⟨fun i hi => ?_, fun s op hi => ?_⟩
  · cases hr : r.2 with
    | nil =>
      simp only [hr, List.nil_append] at hi
      exact hrest i (List.mem_of_mem_tail hi)
    | cons j l =>
      simp only [hr, List.cons_append, List.tail_cons, List.mem_append] at hi
      rcases hi with hi | hi
      · exact htail i (by rw [hr]; exact hi)
      · exact hrest i hi
  · rcases List.mem_append.mp hi with hi | hi
    · exact hact s op hi
    · have := hrest _ hi
      simp [isTry] at this

/-- The step passes this operation to `pd_tcp_write` of the stream. -/
def Passes (x : Act) (s : Sid) (r : WriteOp) : Prop := ∃ op a, x = .api (.tcpWrite s op r) a

/-- **What any step does to a stream's writes.** -/
theorem step_write {c c' : Cfg} {x : Act} (ht : TryTop c) (hs : step c x = some c') :
    TryTop c' ∧ ∀ s, c'.writeView s = c.writeView s ∨
      WriteMove s (Passes x s) (c.writeView s) (c'.writeView s) := by
  have hbelow := ht.below
  have hactive := ht.active
  simp only [Cfg.writeView]
  rcases step_cases hs with ⟨a, f, rest, r, rfl, hst, hr, rfl⟩ | ⟨k, a, cb, rest, r, rfl, hst, hr, rfl⟩ |
    ⟨p, cb, rest, rfl, hst, hcb, rfl⟩ | ⟨e, w', rfl, he, rfl⟩
  · have hrest : ∀ i ∈ rest, isTry i = false := by simpa [hst] using hbelow
    rw [hst, show .lib f :: rest = [.lib f] ++ rest from rfl]
    simp only [writeView_append hrest]
    have hact : ∀ s' op, f = .writeTry s' op → (c.world.tcp s').status = .active := by
      rintro s' op rfl
      exact hactive s' op (by simp [hst])
    refine ⟨TryTop.push hrest (exec_pushes hr).tail_noTry ?_, fun s => exec_writeMove hact hr⟩
    intro s op hi
    obtain ⟨rfl, htcp⟩ := exec_try hr hi
    rw [htcp]
    exact hactive s op (by simp [hst])
  · have hrest : ∀ i ∈ .app cb :: rest, isTry i = false := by
      intro i hi
      rcases List.mem_cons.mp hi with rfl | hi
      · rfl
      · exact hbelow i (by simpa [hst] using hi)
    have htop : ∀ s, c.world.writeView s c.stack = c.world.writeView s [] := fun s => by
      rw [hst, ← List.nil_append (.app cb :: rest), writeView_append hrest]
    simp only [htop, writeView_append hrest]
    refine ⟨TryTop.push hrest (api_pushes hr).tail_noTry fun s op hi => api_try hr hi,
      fun s => api_writeMove ?_ hr⟩
    rintro op wr rfl
    exact ⟨op, a, rfl⟩
  · have hrest : ∀ i ∈ rest, isTry i = false := by simpa [hst] using hbelow
    refine ⟨⟨fun i hi => hrest i (List.mem_of_mem_tail hi), fun s op hi => ?_⟩, fun s => .inl ?_⟩
    · have := hrest _ hi
      simp [isTry] at this
    · simp only [World.writeView, hst, inFlight_nil hrest]
      rfl
  · refine ⟨⟨hbelow, fun s op hi => ?_⟩, fun s => .inl (env_writeView he _)⟩
    rw [(env_keeps he).tcp]
    exact hactive s op hi

end Pandio
