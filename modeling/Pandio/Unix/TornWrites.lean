import Pandio.Lib.Stack
import Pandio.Unix.StreamSteps
import Pandio.Unix.WriteOrder

/- Operations that fail half-sent. When `write` fails in `pd__tcp_write`, the operation
   leaves the queue and is called back with the error; the stream stays active, with
   the rest of the queue, and the next writable event sends what comes after the gap.
   The peer is spared that only by the application, which can close the stream in the
   callback that reports the error.

   A connection begins when the stream is given a descriptor. What was sent on it, and
   whether an operation has failed half-sent, is read off the log. -/
namespace Pandio
open World

/-! ## Gaps -/

/-- What the log says of a stream's connection. -/
structure Conn where
  /-- The operations of which bytes were sent. -/
  sent : List Op
  /-- One of them was called back with an error. -/
  torn : Bool

def connStep (s : Sid) (k : Conn) : Obs → Conn
  | .opened s' _ => if s' = s then { sent := [], torn := false } else k
  | .write s' _ op bytes => if s' = s ∧ bytes ≠ [] then { k with sent := op :: k.sent } else k
  | .called s' op st => if s' = s ∧ st ≠ 0 ∧ op ∈ k.sent then { k with torn := true } else k
  | _ => k

/-- The connection after these entries. -/
def conn (s : Sid) (log : List Obs) : Conn := log.foldl (connStep s) { sent := [], torn := false }

/-- After an operation has failed half-sent, no byte is sent on the connection. -/
def NoGap (s : Sid) : List Obs → Prop :=
  Past fun past o => (conn s past).torn = true →
    ∀ fd op bytes, o = .write s fd op bytes → bytes = []

/-- The step makes the library send what the stream has queued, or gives it an operation to send. -/
def resumes (s : Sid) (c : Cfg) (x : Act) : Bool :=
  match x, c.stack with
  | .api (.tcpWrite s' _ _) _, _ => s' = s
  | .lib _, .lib (.clientIoRest s' ev) :: _ =>
    s' = s && ev.pollout && !ev.close && (c.world.tcp s).writes ≠ []
  | .ret _, .app _ :: .lib (.writeLoop s') :: _ => s' = s && (c.world.tcp s).writes ≠ []
  | _, _ => false

/-- A connection with a gap sends no more, up to the close of the stream: it is passed no operation,
and while it has operations queued it is not found writable, and no callback returns into a
`pd__tcp_write` of the stream that runs. -/
def StopsTorn (s : Sid) (c : Cfg) (x : Act) : Prop :=
  (conn s c.world.log).torn = true → (c.world.tcp s).status ≠ .closed → resumes s c x = false

instance (s : Sid) (c : Cfg) (x : Act) : Decidable (StopsTorn s c x) :=
  inferInstanceAs (Decidable (_ → _ → _))

section
variable {s : Sid}

theorem conn_append (l m : List Obs) : conn s (l ++ m) = m.foldl (connStep s) (conn s l) :=
  List.foldl_append

/-- What is sent leaves no gap. -/
theorem connStep_write {k : Conn} {s' : Sid} {fd : Fd} {op : Op} {bytes : List UInt8} :
    (connStep s k (.write s' fd op bytes)).torn = k.torn := by
  rw [connStep]
  split <;> rfl

theorem connStep_other {k : Conn} {o : Obs} (h : isStreamObs s o = false) : connStep s k o = k := by
  cases o with
  | opened s' fd | write s' fd op bytes | called s' op st =>
    have hs : s' ≠ s := by simpa [isStreamObs] using h
    simp [connStep, hs]
  | _ => rfl

/-- Only the entries about the stream count. -/
theorem conn_filter (log : List Obs) : conn s (log.filter (isStreamObs s)) = conn s log := by
  exact foldl_filter_idle (fun _ _ => connStep_other) _ log

theorem conn_streamView (w : World) : conn s (w.streamView s).log = conn s w.log := conn_filter _

end

/-! ## The invariant -/

/-- On the stack the rest of `pd_tcp_close` comes before any `pd__tcp_write` of the stream. -/
def DrainsFirst (s : Sid) (stack : List Item) : Prop :=
  ∃ l rest, stack = l ++ .lib (.closeDrain s) :: rest ∧ .lib (.writeLoop s) ∉ l

/-- A `pd__tcp_write` of the stream that waits for a return waits for a callback. -/
def OverLoop (s : Sid) (i j : Item) : Prop := j = .lib (.writeLoop s) → ∀ f, i ≠ .lib f

structure TornInv (s : Sid) (v : StreamView) (stack : List Item) : Prop where
  noGap : NoGap s v.log
  order : stack.IsChain (OverLoop s)
  /-- A stream that `pd_tcp_write` writes to has no gap. -/
  flight : ∀ op, .lib (.writeTry s op) ∈ stack → (conn s v.log).torn = false
  /-- The queue of a closed stream is emptied before anything is sent from it. -/
  drains : v.tcp.status = .closed → v.tcp.writes ≠ [] → DrainsFirst s stack
  /-- The queue of an open one is not sent from once there is a gap. -/
  gap : (conn s v.log).torn = true → v.tcp.status ≠ .closed → v.tcp.writes ≠ [] →
    stack.head? ≠ some (.lib (.writeLoop s))

section
variable {s : Sid} {i : Item} {l rest : List Item}

theorem DrainsFirst.tail (h : DrainsFirst s (i :: rest)) (hi : i ≠ .lib (.closeDrain s)) :
    i ≠ .lib (.writeLoop s) ∧ DrainsFirst s rest := by
  obtain ⟨m, tail, hst, hm⟩ := h
  cases m with
  | nil =>
    cases hst
    exact absurd rfl hi
  | cons j m =>
    obtain ⟨rfl, rfl⟩ := List.cons.inj hst
    exact ⟨fun h => hm (h ▸ List.mem_cons_self), m, tail, rfl,
      fun h => hm (List.mem_cons_of_mem _ h)⟩

theorem DrainsFirst.append (h : DrainsFirst s rest) (hl : .lib (.writeLoop s) ∉ l) :
    DrainsFirst s (l ++ rest) := by
  obtain ⟨m, tail, rfl, hm⟩ := h
  refine ⟨l ++ m, tail, by rw [List.append_assoc], ?_⟩
  rw [List.mem_append]
  exact fun h => h.elim hl hm

/-- Where no loop of the stream stands right below, items can be put on. -/
theorem overLoop_append (hrest : rest.IsChain (OverLoop s))
    (htop : rest.head? ≠ some (.lib (.writeLoop s))) (hl : l.IsChain (OverLoop s)) :
    (l ++ rest).IsChain (OverLoop s) := by
  rw [List.isChain_append]
  refine ⟨hl, hrest, ?_⟩
  intro i _ j hj hloop
  rw [Option.mem_def, hloop] at hj
  exact absurd hj htop

theorem Frame.Pushes.overLoop {f : Frame} (h : f.Pushes l) : l.IsChain (OverLoop s) := by
  cases h with
  | poll timeout events =>
    rw [List.isChain_append]
    refine ⟨?_, by simp [OverLoop], by simp [OverLoop]⟩
    rw [List.isChain_map]
    exact (List.pairwise_of_forall fun _ _ => by simp [OverLoop]).isChain
  | _ => simp [OverLoop]

theorem Call.Pushes.overLoop {c : Call} (h : c.Pushes l) : l.IsChain (OverLoop s) := by
  cases h <;> simp

/-- Only what works for the stream puts a loop of it on the stack. -/
theorem Frame.Pushes.writeLoop {f : Frame} (h : f.Pushes l) (hl : .lib (.writeLoop s) ∈ l) :
    f = .writeLoop s ∨ ∃ ev, f = .clientIoRest s ev := by
  cases h <;> simp_all

theorem Call.Pushes.tries {c : Call} {op : Op} (h : c.Pushes l)
    (hl : .lib (.writeTry s op) ∈ l) : c.stream = some s := by
  cases h with
  | writeTry s' op' r =>
    simp only [List.mem_singleton, Item.lib.injEq, Frame.writeTry.injEq] at hl
    rw [hl.1]
    rfl
  | _ => simp at hl

theorem Call.Pushes.writeLoop {c : Call} (h : c.Pushes l) : .lib (.writeLoop s) ∉ l := by
  cases h <;> simp

end

/-! ## The steps -/

section
variable {s : Sid} {v v' : StreamView} {f : Frame} {l rest : List Item} {now : Nat}

/-- Nothing is sent by these entries. -/
theorem NoGap.append {log m : List Obs} (h : NoGap s log)
    (hm : ∀ fd op bytes, .write s fd op bytes ∈ m → bytes = []) : NoGap s (log ++ m) := by
  refine Past.append h ?_
  rintro l1 x l2 rfl _ fd op bytes rfl
  exact hm fd op bytes (by simp)

/-- Something is, while there is no gap. -/
theorem NoGap.write {log m : List Obs} {fd : Fd} {op : Op} {bytes : List UInt8} (h : NoGap s log)
    (htorn : (conn s log).torn = false) (hm : ∀ fd op bytes, .write s fd op bytes ∉ m) :
    NoGap s (log ++ .write s fd op bytes :: m) := by
  rw [List.append_cons]
  refine NoGap.append (Past.snoc h fun ht => ?_) fun fd op bytes hw => absurd hw (hm fd op bytes)
  rw [htorn] at ht
  cases ht

/-- A loop about to send finds an open stream without a gap. -/
theorem TornInv.sends (h : TornInv s v (.lib (.writeLoop s) :: rest)) (hw : v.tcp.writes ≠ []) :
    v.tcp.status ≠ .closed ∧ (conn s v.log).torn = false := by
  have hopen : v.tcp.status ≠ .closed := fun hc =>
    ((h.drains hc hw).tail (by simp)).1 rfl
  refine ⟨hopen, ?_⟩
  by_contra ht
  exact h.gap (by simpa using ht) hopen hw rfl

/-- What a frame that works for the stream does. -/
theorem StreamExec.torn (h : StreamExec s now v f v' l) (inv : TornInv s v (.lib f :: rest))
    (halone : ∀ op, f = .writeTry s op → v.tcp.writes = [])
    (hstop : ∀ ev, f = .clientIoRest s ev → ev.close = false → ev.pollout = true →
      (conn s v.log).torn = true → v.tcp.status ≠ .closed → v.tcp.writes = []) :
    NoGap s v'.log ∧
    (v'.tcp.status = .closed → v'.tcp.writes ≠ [] → DrainsFirst s (l ++ rest)) ∧
    ((conn s v'.log).torn = true → v'.tcp.status ≠ .closed → v'.tcp.writes ≠ [] →
      l.head? ≠ some (.lib (.writeLoop s))) := by
  have hflight : ∀ op, f = .writeTry s op → (conn s v.log).torn = false := fun op hf =>
    inv.flight op (by rw [hf]; exact List.mem_cons_self)
  -- a frame that neither writes nor ends the close leaves a closed stream to the frames below
  have hdrains : v.tcp.status = .closed → v.tcp.writes ≠ [] → f ≠ .closeDrain s →
      .lib (.writeLoop s) ∉ l → DrainsFirst s (l ++ rest) := fun hc hw hf hl =>
    ((inv.drains hc hw).tail (by simpa using hf)).2.append hl
  cases h with
  | cancel hw => exact ⟨inv.noGap.append (by simp), fun _ _ => ⟨[_], rest, rfl, by simp⟩, by simp⟩
  | closeQueued hw => exact ⟨inv.noGap.append (by simp), fun _ h => absurd hw h, by simp⟩
  | close _ => exact ⟨inv.noGap.append (by simp), fun _ _ => ⟨[], rest, rfl, by simp⟩, by simp⟩
  | ioClose _ _ => exact ⟨inv.noGap.append (by simp), fun _ _ => ⟨[], rest, rfl, by simp⟩, by simp⟩
  | ioWrite hclose hout hopen =>
    refine ⟨inv.noGap, fun hc => absurd hc hopen, fun ht ho hw => ?_⟩
    exact absurd (hstop _ rfl hclose hout ht ho) hw
  | tryAgain =>
    exact ⟨inv.noGap.append (by simp), fun _ hw => absurd (halone _ rfl) hw, by simp⟩
  | tryQueued hact =>
    refine ⟨?_, ?_, by simp⟩
    · unfold StreamView.enqueue
      split
      · exact inv.noGap.write (hflight _ rfl) (by simp)
      · simp only [logs_log, StreamView.setPollout, StreamView.setWrites, List.append_assoc,
          List.singleton_append]
        exact inv.noGap.write (hflight _ rfl) (by simp)
    · intro hc
      unfold StreamView.enqueue at hc
      split at hc <;> simp [StreamView.setPollout, StreamView.setWrites, hact] at hc
  | tryCalled =>
    exact ⟨inv.noGap.write (hflight _ rfl) (by simp), fun _ hw => absurd (halone _ rfl) hw, by simp⟩
  | loopAgain hw =>
    obtain ⟨hopen, ht⟩ := inv.sends (by rw [hw]; simp)
    refine ⟨inv.noGap.write ht (by simp), fun hc => absurd hc hopen, fun ht' => ?_⟩
    rw [logs_log, conn_append, List.foldl_cons, List.foldl_nil, connStep_write, ht] at ht'
    cases ht'
  | loopWait hw =>
    obtain ⟨hopen, ht⟩ := inv.sends (by rw [hw]; simp)
    exact ⟨inv.noGap.write ht (by simp), fun hc => absurd hc hopen, by simp⟩
  | loopFailed hw =>
    obtain ⟨hopen, ht⟩ := inv.sends (by rw [hw]; simp)
    exact ⟨inv.noGap.write ht (by simp), fun hc => absurd hc hopen, by simp⟩
  | loopCalled hw =>
    obtain ⟨hopen, ht⟩ := inv.sends (by rw [hw]; simp)
    exact ⟨inv.noGap.write ht (by simp), fun hc => absurd hc hopen, by simp⟩
  | @loopUncalled op queue bytes hw =>
    obtain ⟨hopen, ht⟩ := inv.sends (by rw [hw]; simp)
    refine ⟨inv.noGap.write ht (by simp), fun hc => absurd hc hopen, fun ht' => ?_⟩
    have hkeep : conn s (v.log ++ [.write s v.tcp.fd op bytes, .uncalled s op]) =
        connStep s (conn s v.log) (.write s v.tcp.fd op bytes) := conn_append ..
    have hlog : (conn s (v.log ++ [.write s v.tcp.fd op bytes, .uncalled s op])).torn = true := ht'
    rw [hkeep, connStep_write, ht] at hlog
    cases hlog
  | loopEnd hw _ => exact ⟨inv.noGap.append (by simp), fun _ h => absurd hw h, by simp⟩
  | loopShut hw _ => exact ⟨inv.noGap.append (by simp), fun _ h => absurd hw h, by simp⟩
  | connected _ hopen =>
    exact ⟨inv.noGap.append (by simp), fun hc => by simp [StreamView.connected] at hc, by simp⟩
  | connectedCalled _ hopen =>
    refine ⟨?_, fun hc => by simp [StreamView.connected] at hc, by simp⟩
    simp only [StreamView.connected, logs_log, List.append_assoc]
    exact inv.noGap.append (by simp)
  | closeAgain | buffer | ioClosed | ioStale | ioNothing | client | connectNothing =>
    exact ⟨inv.noGap, fun hc hw => hdrains hc hw (by simp) (by simp), by simp⟩
  | _ => exact ⟨inv.noGap.append (by simp), fun hc hw => hdrains hc hw (by simp) (by simp), by simp⟩

/-- A `write` that is repeated has sent nothing. -/
theorem StreamExec.retry {op : Op} (h : StreamExec s now v f v' l)
    (hi : .lib (.writeTry s op) ∈ l) : conn s v'.log = conn s v.log := by
  cases h with
  | tryAgain => simp [conn_append, connStep]
  | _ => simp at hi

/-- What a call that works for the stream does. -/
theorem StreamApi.torn {k : Call} (h : StreamApi s v k v' l)
    (inv : TornInv s v rest)
    (hstop : ∀ op r, k = .tcpWrite s op r → v.tcp.status = .active → (conn s v.log).torn = false) :
    NoGap s v'.log ∧ ((conn s v'.log).torn = true → (conn s v.log).torn = true) ∧
    (v'.tcp.status = .closed → v'.tcp.writes ≠ [] → DrainsFirst s (l ++ rest)) ∧
    (∀ op, .lib (.writeTry s op) ∈ l → (conn s v'.log).torn = false) := by
  cases h with
  | accept =>
    refine ⟨inv.noGap.append (by simp), ?_, by simp, by simp⟩
    simp [conn_append, connStep]
  | connectNothing => exact ⟨inv.noGap, id, inv.drains, by simp⟩
  | connectRefused =>
    refine ⟨inv.noGap.append (by simp), ?_, inv.drains, by simp⟩
    simp [conn_append, connStep, StreamView.connecting]
  | connect =>
    refine ⟨inv.noGap.append (by simp), ?_, inv.drains, by simp⟩
    simp [conn_append, connStep]
  | writeRefused hact =>
    refine ⟨inv.noGap.append (by simp), ?_, fun hc hw => (inv.drains hc hw).append (by simp), by simp⟩
    simp [conn_append, connStep]
  | write hact hw =>
    have ht := hstop _ _ rfl hact
    refine ⟨inv.noGap.append (by simp), ?_, fun _ h => absurd hw h, ?_⟩
    · simp [conn_append, connStep]
    · simp [conn_append, connStep, ht]
  | writeQueued hact hw =>
    have ht := hstop _ _ rfl hact
    unfold StreamView.enqueue
    split
    · refine ⟨inv.noGap.append (by simp), ?_, fun hc => ?_, by simp⟩
      · simp [StreamView.setWrites, conn_append, connStep]
      · simp [StreamView.setWrites, hact] at hc
    · refine ⟨(inv.noGap.append (by simp)).append (by simp), ?_, fun hc => ?_, by simp⟩
      · simp [StreamView.setPollout, StreamView.setWrites, conn_append, connStep]
      · simp [StreamView.setPollout, StreamView.setWrites, hact] at hc
  | close _ =>
    refine ⟨inv.noGap.append (by simp), ?_, fun _ _ => ⟨[], rest, rfl, by simp⟩, by simp⟩
    simp [StreamView.close, StreamView.setStatus, conn_append, connStep]
  | closeAgain _ => exact ⟨inv.noGap, id, inv.drains, by simp⟩
  | shutNothing _ => exact ⟨inv.noGap, id, inv.drains, by simp⟩
  | shut _ _ =>
    refine ⟨inv.noGap.append (by simp), ?_, by simp [StreamView.setStatus], by simp⟩
    simp [StreamView.setStatus, conn_append, connStep]
  | shutLater _ _ =>
    refine ⟨inv.noGap.append (by simp), ?_, by simp [StreamView.setPollout, StreamView.setStatus],
      by simp⟩
    simp [StreamView.setPollout, StreamView.setStatus, conn_append, connStep]
  | pause =>
    refine ⟨inv.noGap.append (by simp), ?_, inv.drains, by simp⟩
    simp [StreamView.setPollin, conn_append, connStep]
  | resume =>
    refine ⟨inv.noGap.append (by simp), ?_, inv.drains, by simp⟩
    simp [StreamView.setPollin, conn_append, connStep]
  | setOnData => exact ⟨inv.noGap, id, inv.drains, by simp⟩
  | setOnClose => exact ⟨inv.noGap, id, inv.drains, by simp⟩

end

section
variable {s : Sid} {c c' : Cfg} {x : Act}

/-- A step of a frame of the library. -/
theorem TornInv.exec {f : Frame} {a : Answer} {rest : List Item} {r : World × List Item}
    (hv : TornInv s (c.world.streamView s) c.stack) (htry : TryTop c)
    (halone : (c.writeView s).flight ≠ [] → (c.world.tcp s).writes = [])
    (hok : StopsTorn s c (.lib a)) (hst : c.stack = .lib f :: rest)
    (hr : exec c.world f a = some r) : TornInv s (r.1.streamView s) (r.2 ++ rest) := by
  rw [hst] at hv
  have hbelow : rest.head? ≠ some (.lib (.writeLoop s)) := by
    intro h
    obtain ⟨tail, rfl⟩ : ∃ tail, rest = .lib (.writeLoop s) :: tail := by
      cases rest with
      | nil => cases h
      | cons j tail =>
        obtain rfl := Option.some.inj h
        exact ⟨tail, rfl⟩
    exact (List.isChain_cons_cons.mp hv.order).1 rfl f rfl
  have hp := exec_pushes hr
  have horder := overLoop_append hv.order.tail hbelow (hp.overLoop (s := s))
  have hrest : ∀ op, .lib (.writeTry s op) ∉ rest := fun op hi => by
    have := htry.below _ (by rw [hst]; exact hi)
    simp [isTry] at this
  by_cases hf : f.stream = some s
  · have hexec := exec_stream hf hr
    obtain ⟨hgap, hdrains, htop⟩ := hexec.torn hv
      (fun op hop => halone (by simp [Cfg.writeView, World.writeView, hst, hop, inFlight]))
      (by
        rintro ev rfl hclose hout ht hopen
        rw [conn_streamView] at ht
        have hquiet := hok ht hopen
        by_contra hw
        rw [← tcp_eq] at hw
        simp [resumes, hst, hclose, hout, hw] at hquiet)
    refine ⟨hgap, horder, ?_, hdrains, fun ht hopen hw => Stack.top_append (htop ht hopen hw) hbelow⟩
    intro op hi
    rcases List.mem_append.mp hi with hi | hi
    · obtain rfl := hp.try_mem hi
      rw [hexec.retry hi]
      exact hv.flight op List.mem_cons_self
    · exact absurd hi (hrest op)
  · have hview : r.1.streamView s = c.world.streamView s := exec_streamView hf hr
    have hloop : .lib (.writeLoop s) ∉ r.2 := by
      intro hi
      rcases hp.writeLoop hi with rfl | ⟨ev, rfl⟩ <;> exact hf rfl
    rw [hview]
    refine ⟨hv.noGap, horder, ?_, ?_, fun _ _ _ => Stack.top_append (mt List.mem_of_head? hloop) hbelow⟩
    · intro op hi
      rcases List.mem_append.mp hi with hi | hi
      · obtain rfl := hp.try_mem hi
        exact absurd rfl hf
      · exact absurd hi (hrest op)
    · intro hc hw
      refine ((hv.drains hc hw).tail ?_).2.append hloop
      intro h
      obtain rfl := Item.lib.inj h
      exact hf rfl

/-- A call of the application. -/
theorem TornInv.api {k : Call} {a : Answer} {cb : Cb} {rest : List Item} {r : World × List Item}
    (hv : TornInv s (c.world.streamView s) c.stack) (hok : StopsTorn s c (.api k a))
    (hst : c.stack = .app cb :: rest) (hr : api c.world k a = some r) :
    TornInv s (r.1.streamView s) (r.2 ++ .app cb :: rest) := by
  rw [hst] at hv
  have hp := api_pushes hr
  have htop : (.app cb :: rest : List Item).head? ≠ some (.lib (.writeLoop s)) := by simp
  have horder := overLoop_append hv.order htop (hp.overLoop (s := s))
  have hhead : (r.2 ++ .app cb :: rest).head? ≠ some (.lib (.writeLoop s)) :=
    Stack.top_append (mt List.mem_of_head? hp.writeLoop) htop
  by_cases hk : k.stream = some s
  · obtain ⟨hgap, hmono, hdrains, hflight⟩ := (api_stream hk hr).torn hv (by
      rintro op wr rfl hact
      have := mt (hok · (by rw [tcp_eq, hact]; simp)) (by simp [resumes])
      rw [conn_streamView]
      simpa using this)
    refine ⟨hgap, horder, ?_, hdrains, fun _ _ _ => hhead⟩
    intro op hi
    rcases List.mem_append.mp hi with hi | hi
    · exact hflight op hi
    · have h := hv.flight op hi
      by_contra ht
      rw [hmono (by simpa using ht)] at h
      cases h
  · have hview : r.1.streamView s = c.world.streamView s := api_streamView hk hr
    rw [hview]
    refine ⟨hv.noGap, horder, ?_, fun hc hw => (hv.drains hc hw).append hp.writeLoop,
      fun _ _ _ => hhead⟩
    intro op hi
    rcases List.mem_append.mp hi with hi | hi
    · exact absurd (hp.tries hi) hk
    · exact hv.flight op hi

/-- A callback returns. -/
theorem TornInv.ret {p : Option Nat} {cb : Cb} {rest : List Item}
    (hv : TornInv s (c.world.streamView s) c.stack) (hok : StopsTorn s c (.ret p))
    (hst : c.stack = .app cb :: rest) : TornInv s (c.world.streamView s) rest := by
  rw [hst] at hv
  refine ⟨hv.noGap, hv.order.tail, fun op hi => hv.flight op (List.mem_cons_of_mem _ hi),
    fun hc hw => ((hv.drains hc hw).tail (by simp)).2, ?_⟩
  intro ht hopen hw h
  cases rest with
  | nil => cases h
  | cons j tail =>
    obtain rfl := Option.some.inj h
    rw [conn_streamView] at ht
    have := hok ht hopen
    simp [resumes, hst] at this
    exact hw this

theorem TornInv.step (hv : TornInv s (c.world.streamView s) c.stack) (htry : TryTop c)
    (halone : (c.writeView s).flight ≠ [] → (c.world.tcp s).writes = []) (hok : StopsTorn s c x)
    (hs : step c x = some c') : TornInv s (c'.world.streamView s) c'.stack := by
  rcases step_cases hs with ⟨a, f, rest, r, rfl, hst, hr, rfl⟩ |
    ⟨k, a, cb, rest, r, rfl, hst, hr, rfl⟩ | ⟨p, cb, rest, rfl, hst, hcb, rfl⟩ |
    ⟨e, w', rfl, he, rfl⟩
  · exact hv.exec htry halone hok hst hr
  · exact hv.api hok hst hr
  · exact hv.ret hok hst
  · show TornInv s (w'.streamView s) c.stack
    rw [env_streamView he]
    exact hv

end

/-! ## Runs -/

theorem Run.tornInv {s : Sid} {c : Cfg} (r : Run (StopsTorn s) c) :
    TornInv s (c.world.streamView s) c.stack := by
  -- `pd_tcp_write` writes at once only for an empty queue
  have hrun : ∀ {c}, Run (StopsTorn s) c →
      TryTop c ∧ ((c.writeView s).flight ≠ [] → (c.world.tcp s).writes = []) := fun r =>
    ⟨r.writeInv.1, (r.writeInv.2 s).alone⟩
  refine Machine.Reach.invariant (P := fun c => TornInv s (c.world.streamView s) c.stack) ?_ ?_ r
  · rintro c ⟨k, fd, _, _, rfl⟩
    exact ⟨Past.nil, by simp, by simp, by simp [World.streamView, World.init, pdTcpInit],
      by simp [World.streamView, World.init, pdTcpInit]⟩
  · intro c x c' r hinv hok hs
    exact hinv.step (hrun r).1 (hrun r).2 hok hs

/-- **No byte follows an operation that failed half-sent**, as long as the stream is left alone until
it is closed. -/
theorem no_gap {s : Sid} {c : Cfg} (r : Run (StopsTorn s) c) : NoGap s c.world.log := by
  have h := Past.of_filter r.tornInv.noGap
  refine h.mono fun l x hx ht fd op bytes hw => ?_
  rw [conn_filter] at hx
  refine hx ?_ ht fd op bytes hw
  simp [hw, isStreamObs]

/-- Of three bytes one is sent, a second operation is queued, and the rest of the first fails with
`ENOBUFS`. -/
def failsHalfSent : List Act :=
  [.api (.tcpAccept 0 5) (.ok 0 []),
    .api (.tcpWrite 0 0 (pdWriteInit [1, 2, 3] true (by decide))) (.ok 0 []), .lib (.ok 1 []),
    .api (.tcpWrite 0 1 (pdWriteInit [4, 5] true (by decide))) (.ok 0 []),
    .api .ioRun (.ok 0 []), .lib (.ok 0 [(5, ⟨false, true, false, false, false⟩)]),
    .lib (.ok 0 []), .lib (.ok 0 []), .lib (.fails 105 (by decide))]

/-- The stream is closed in the callback. -/
theorem no_gap_closed : ∃ c, Run (StopsTorn 0) c ∧ (conn 0 c.world.log).torn = true ∧
    calledOps 0 c.world.log = [0, 1] ∧ NoGap 0 c.world.log := by
  have hplay : (Machine.play step (StopsTorn 0) (Cfg.start [5]) (failsHalfSent ++
      [.api (.tcpClose 0) (.ok 0 []), .lib (.ok 0 []), .ret none, .lib (.ok 0 [])])).map
        (fun c => ((conn 0 c.world.log).torn, calledOps 0 c.world.log)) = some (true, [0, 1]) := by
    decide +kernel
  obtain ⟨c, hc, hlog⟩ := Option.map_eq_some_iff.mp hplay
  rw [Prod.mk.injEq] at hlog
  have r : Run (StopsTorn 0) c := Run.play (Cfg.start_init [5]) _ hc
  exact ⟨c, r, hlog.1, hlog.2, no_gap r⟩

/-- It is not: the next writable event sends the first byte of the second operation. -/
theorem not_no_gap : ∃ c, Run AnyStep c ∧ ¬ NoGap 0 c.world.log := by
  have hplay : (Machine.play step AnyStep (Cfg.start [5]) (failsHalfSent ++
      [.ret none, .lib (.ok 0 []), .lib (.ok 0 []), .lib (.ok 0 []), .lib (.ok 0 []),
        .lib (.ok 0 [(5, ⟨false, true, false, false, false⟩)]), .lib (.ok 0 []), .lib (.ok 0 []),
        .lib (.ok 1 [])])).map
        (fun c => ((conn 0 c.world.log.dropLast).torn, c.world.log.getLast?)) =
      some (true, some (.write 0 5 1 [4])) := by
    decide +kernel
  obtain ⟨c, hc, hlog⟩ := Option.map_eq_some_iff.mp hplay
  rw [Prod.mk.injEq] at hlog
  obtain ⟨htorn, hlast⟩ := hlog
  refine ⟨c, Run.play (Cfg.start_init [5]) _ hc, fun h => ?_⟩
  have hlog : c.world.log = c.world.log.dropLast ++ [.write 0 5 1 [4]] :=
    (List.dropLast_append_getLast? _ hlast).symm
  have := h _ _ _ hlog htorn 5 1 [4] rfl
  cases this

end Pandio
