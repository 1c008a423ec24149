import Pandio.Iocp.Steps

/- The closing of a stream as a ledger: what is outstanding for the stream, which of
   its handlers are under way, and how often it was closed and queued. The ledger
   knows what `pd__tcp_try_close` looks at and what it should have looked at. A run
   keeps to the ledger as long as it meets `CloseOk`. -/
namespace Pandio.Iocp
open Pandio.Iocp.World

/-! ## The ledger -/

structure Ledger where
  status : TcpStatus
  writesSize : Nat
  pendingRead : Bool
  isOpen : Bool
  /-- Receives that are outstanding, or whose packet is not handled. -/
  recvs : Nat
  /-- Sends that are outstanding, or whose handler has not ended. -/
  sends : Nat
  /-- Handlers of a receive that are in `on_data`. -/
  reads : Nat
  /-- The application has called `pd_tcp_close`. -/
  called : Prop
  closes : Nat
  pushes : Nat

namespace Ledger

variable (l : Ledger)

/-- `pd__tcp_try_close` goes on. -/
def Idle : Prop := l.writesSize = 0 ∧ l.pendingRead = false

instance : Decidable l.Idle := inferInstanceAs (Decidable (_ ∧ _))

/-- `pd__tcp_try_close`. -/
def tryClose : Ledger :=
  if l.Idle then { l with isOpen := false, closes := l.closes + 1, pushes := l.pushes + 1 } else l

/-- What a step may do. The stream is finished only when no handler of a receive is under way, and
a receive that ends with nothing does not end last. -/
inductive Step : Ledger → Prop where
  | same : Step l
  | post : l.isOpen = true → l.pendingRead = false →
      Step { l with recvs := l.recvs + 1, pendingRead := true }
  | data {n : Nat} : l.recvs = n + 1 →
      Step { l with recvs := n, pendingRead := false, reads := l.reads + 1 }
  | nothing {n : Nat} : l.recvs = n + 1 → l.status = .closed → 0 < l.writesSize ∨ 0 < l.reads →
      Step { l with recvs := n, pendingRead := false }
  | peerClosed {n : Nat} : l.recvs = n + 1 → l.status ≠ .closed →
      (l.writesSize = 0 → l.reads = 0) →
      Step { l with recvs := n, pendingRead := false, status := .closed }.tryClose
  | read {n : Nat} : l.reads = n + 1 → l.status ≠ .closed → Step { l with reads := n }
  | readClosed {n : Nat} : l.reads = n + 1 → l.status = .closed → (l.Idle → n = 0) →
      Step { l with reads := n }.tryClose
  | send : l.isOpen = true → l.status = .active →
      Step { l with sends := l.sends + 1, writesSize := l.writesSize + 1 }
  | sent {n : Nat} : l.sends = n + 1 → l.status ≠ .closed →
      Step { l with sends := n, writesSize := l.writesSize - 1 }
  | sentClosed {n : Nat} : l.sends = n + 1 → l.status = .closed →
      (l.writesSize ≤ 1 → l.pendingRead = false → l.reads = 0) →
      Step { l with sends := n, writesSize := l.writesSize - 1 }.tryClose
  | close : l.status ≠ .closed → (l.Idle → l.reads = 0) →
      Step { l with status := .closed, called := True }.tryClose
  | closeAgain : l.status = .closed → Step { l with called := True }
  | setStatus {st : TcpStatus} : l.status ≠ .closed → st ≠ .closed → Step { l with status := st }
  | opened {st : TcpStatus} {b : Bool} : l.status ≠ .closed → st ≠ .closed →
      Step { l with status := st, isOpen := b }

/-- The socket is closed and the stream queued when nothing is outstanding, once. -/
structure Inv : Prop where
  recvs : l.recvs = if l.pendingRead then 1 else 0
  sends : l.sends = l.writesSize
  closes : l.closes = l.pushes
  called : l.called → l.status = .closed
  fresh : l.status ≠ .closed → l.pushes = 0
  closed : l.status = .closed →
    l.pushes = 1 ∧ l.recvs = 0 ∧ l.sends = 0 ∧ l.isOpen = false ∧ l.reads = 0 ∨
    l.pushes = 0 ∧ (0 < l.sends ∨ 0 < l.recvs ∨ 0 < l.reads)

variable {l} {l' : Ledger}

/-- `pd__tcp_try_close` of a closed stream that was not queued. -/
theorem Inv.tryClose (recvs : l.recvs = if l.pendingRead then 1 else 0)
    (sends : l.sends = l.writesSize) (closes : l.closes = l.pushes) (hst : l.status = .closed)
    (hp : l.pushes = 0) (hreads : l.Idle → l.reads = 0) : l.tryClose.Inv := by
  unfold Ledger.tryClose
  split
  · rename_i hidle
    have hr : l.recvs = 0 := by rw [recvs, hidle.2]; rfl
    have hs : l.sends = 0 := sends.trans hidle.1
    refine ⟨recvs, sends, by simp [closes], fun _ => hst, fun h => absurd hst h, fun _ => .inl ?_⟩
    exact ⟨by simp [hp], hr, hs, rfl, hreads hidle⟩
  · rename_i hidle
    refine ⟨recvs, sends, closes, fun _ => hst, fun h => absurd hst h, fun _ => .inr ⟨hp, ?_⟩⟩
    by_cases hw : l.writesSize = 0
    · right
      left
      have hpending : l.pendingRead = true :=
        Bool.eq_true_of_not_eq_false fun hr => hidle ⟨hw, hr⟩
      rw [recvs, hpending]
      exact Nat.one_pos
    · left
      rw [sends]
      exact Nat.pos_of_ne_zero hw

/-- A closed stream with something outstanding has not been queued. -/
theorem Inv.pushes_eq (h : l.Inv) (hst : l.status = .closed)
    (hb : 0 < l.sends ∨ 0 < l.recvs ∨ 0 < l.reads) : l.pushes = 0 := by
  rcases h.closed hst with ⟨_, hr, hs, _, hd⟩ | ⟨hp, _⟩
  · omega
  · exact hp

/-- A receive that is taken was the only one. -/
theorem Inv.recvs_pred {n : Nat} (h : l.Inv) (hn : l.recvs = n + 1) :
    l.pendingRead = true ∧ n = 0 := by
  have hr := h.recvs
  cases hp : l.pendingRead with
  | false =>
    rw [hp, hn] at hr
    cases hr
  | true =>
    rw [hp, hn] at hr
    exact ⟨rfl, Nat.succ.inj hr⟩

/-- **Every step keeps the invariant.** -/
theorem Step.inv (hs : l.Step l') (h : l.Inv) : l'.Inv := by
  cases hs with
  | same => exact h
  | post ho hp =>
    have h0 : l.recvs = 0 := by rw [h.recvs, hp]; rfl
    refine ⟨by simp [h0], h.sends, h.closes, h.called, h.fresh, fun hst => .inr ?_⟩
    rcases h.closed hst with ⟨_, _, _, hno, _⟩ | ⟨hpush, _⟩
    · rw [hno] at ho
      cases ho
    · exact ⟨hpush, .inr (.inl (Nat.succ_pos _))⟩
  | data hn =>
    obtain ⟨_, rfl⟩ := h.recvs_pred hn
    refine ⟨rfl, h.sends, h.closes, h.called, h.fresh, fun hst => .inr ?_⟩
    exact ⟨h.pushes_eq hst (by omega), .inr (.inr (Nat.succ_pos _))⟩
  | nothing hn hst hb =>
    obtain ⟨_, rfl⟩ := h.recvs_pred hn
    refine ⟨rfl, h.sends, h.closes, h.called, h.fresh, fun _ => .inr ?_⟩
    refine ⟨h.pushes_eq hst (by omega), ?_⟩
    rcases hb with hb | hb
    · exact .inl (h.sends ▸ hb)
    · exact .inr (.inr hb)
  | peerClosed hn hst hr =>
    obtain ⟨_, rfl⟩ := h.recvs_pred hn
    exact Inv.tryClose rfl h.sends h.closes rfl (h.fresh hst) fun hidle => hr hidle.1
  | read hn hst => exact ⟨h.recvs, h.sends, h.closes, h.called, h.fresh, fun h => absurd h hst⟩
  | readClosed hn hst hr =>
    exact Inv.tryClose h.recvs h.sends h.closes hst (h.pushes_eq hst (by omega)) hr
  | send ho hst =>
    have hne : l.status ≠ .closed := by rw [hst]; simp
    exact ⟨h.recvs, by simp [h.sends], h.closes, h.called, h.fresh, fun h => absurd h hne⟩
  | sent hn hst =>
    have hs := h.sends
    exact ⟨h.recvs, by simp only; omega, h.closes, h.called, h.fresh, fun h => absurd h hst⟩
  | sentClosed hn hst hr =>
    have hs := h.sends
    refine Inv.tryClose h.recvs (by simp only; omega) h.closes hst
      (h.pushes_eq hst (by omega)) fun hidle => ?_
    have hw : l.writesSize - 1 = 0 := hidle.1
    exact hr (by omega) hidle.2
  | close hst hr =>
    exact Inv.tryClose h.recvs h.sends h.closes rfl (h.fresh hst) hr
  | closeAgain hst => exact ⟨h.recvs, h.sends, h.closes, fun _ => hst, h.fresh, h.closed⟩
  | setStatus hst hne | opened hst hne =>
    exact ⟨h.recvs, h.sends, h.closes, fun hc => absurd (h.called hc) hst, fun _ => h.fresh hst,
      fun h => absurd h hne⟩

end Ledger

/-! ## The ledger of a stream -/

def Packet.isRecv : Packet → Bool
  | .recv _ _ => true
  | _ => false

def Packet.isSend : Packet → Bool
  | .send _ _ => true
  | _ => false

def Pending.isRecv : Pending → Bool
  | .recv _ => true
  | _ => false

def Pending.isSend : Pending → Bool
  | .send _ => true
  | _ => false

/-- The receives that the kernel holds for the stream. -/
def Sock.recvCount (k : Sock) : Nat := k.recvs.length + k.left.countP Pending.isRecv

/-- The sends that it holds. -/
def Sock.sendCount (k : Sock) : Nat := k.sends.length + k.left.countP Pending.isSend

/-- Receives of the stream that are outstanding, or whose packet is not handled. -/
def Cfg.recvs (c : Cfg) (s : Sid) : Nat :=
  (c.world.sock s).recvCount + (c.flight s).countP Packet.isRecv

/-- Sends of the stream that are outstanding, or whose handler has not ended. -/
def Cfg.sends (c : Cfg) (s : Sid) : Nat :=
  (c.world.sock s).sendCount + (c.flight s).countP Packet.isSend +
    (framesOf s c.stack).count (.writeIoRest s)

def Cfg.ledger (c : Cfg) (s : Sid) : Ledger :=
  let v := c.world.view s
  { status := v.tcp.status, writesSize := v.tcp.writesSize, pendingRead := v.tcp.flags.pendingRead
    isOpen := v.sock.isOpen, recvs := c.recvs s, sends := c.sends s
    reads := (framesOf s c.stack).count (.readIoRest s)
    called := .close s ∈ v.log
    closes := v.log.count (.closesocket s), pushes := v.log.count (.pushed s) }

/-- The ledger of a view, with what the stack adds. -/
def View.ledger (v : View) (s : Sid) (packets : List Packet) (frames : List Frame) : Ledger :=
  { status := v.tcp.status, writesSize := v.tcp.writesSize, pendingRead := v.tcp.flags.pendingRead
    isOpen := v.sock.isOpen
    recvs := v.sock.recvCount + (packets ++ v.port).countP Packet.isRecv
    sends := v.sock.sendCount + (packets ++ v.port).countP Packet.isSend +
      frames.count (.writeIoRest s)
    reads := frames.count (.readIoRest s)
    called := .close s ∈ v.log
    closes := v.log.count (.closesocket s), pushes := v.log.count (.pushed s) }

theorem ledger_eq (c : Cfg) (s : Sid) :
    c.ledger s = (c.world.view s).ledger s (packetsOf s c.stack) (framesOf s c.stack) := rfl

section
variable {v : View} {s : Sid} {ps : List Packet} {fs : List Frame}

theorem countP_aborted (l : List Nat) :
    (View.aborted s l).countP Packet.isRecv = l.length ∧
      (View.aborted s l).countP Packet.isSend = 0 := by
  constructor
  · rw [List.countP_eq_length.mpr]
    · simp [View.aborted]
    · simp [View.aborted, Packet.isRecv]
  · rw [List.countP_eq_zero]
    simp [View.aborted, Packet.isSend]

theorem countP_send (l : List Op) :
    (l.map (Packet.send s)).countP Packet.isSend = l.length ∧
      (l.map (Packet.send s)).countP Packet.isRecv = 0 := by
  constructor
  · rw [List.countP_eq_length.mpr]
    · simp
    · simp [Packet.isSend]
  · rw [List.countP_eq_zero]
    simp [Packet.isRecv]

theorem isRecv_pending (p : Packet) : p.pending.isRecv = p.isRecv := by cases p <;> rfl

theorem isSend_pending (p : Packet) : p.pending.isSend = p.isSend := by cases p <;> rfl

/-- A socket that takes the place of another one adds what is outstanding on it. -/
theorem replaced_counts (k k' : Sock) :
    (k.replaced k').recvCount = k.recvCount + k'.recvs.length ∧
      (k.replaced k').sendCount = k.sendCount + k'.sends.length := by
  have hr : k.outstanding.countP Pending.isRecv = k.recvs.length ∧
      k.outstanding.countP Pending.isSend = k.sends.length := by
    simp [Sock.outstanding, List.countP_append, List.countP_map, Function.comp_def,
      Pending.isRecv, Pending.isSend]
  simp only [Sock.recvCount, Sock.sendCount, Sock.replaced, List.countP_append, hr.1, hr.2]
  omega

/-- A new socket has nothing outstanding. -/
theorem replaced_ledger {t : Tcp} {k : Sock} (hr : k.recvs = []) (hs : k.sends = [])
    (hw : t.writesSize = v.tcp.writesSize) (hf : t.flags = v.tcp.flags) :
    ((v.setTcp t).setSock (v.sock.replaced k)).ledger s ps fs =
      { v.ledger s ps fs with status := t.status, isOpen := k.isOpen } := by
  have hcounts := replaced_counts v.sock k
  rw [hr, hs] at hcounts
  simp only [View.ledger, View.setTcp, View.setSock, hcounts.1, hcounts.2, hw, hf]
  rfl

/-- What is cancelled is outstanding until its packet is handled. -/
@[simp] theorem cancelIoEx_ledger :
    (v.cancelIoEx s).ledger s ps fs = v.ledger s ps fs := by
  have h := countP_aborted (s := s) v.sock.recvs
  simp only [View.ledger, View.cancelIoEx, View.packets, View.setSock, Sock.recvCount,
    Sock.sendCount, List.countP_append, h.1, h.2, List.length_nil]
  congr 1
  omega

@[simp] theorem cancelIo_ledger : (v.cancelIo s).ledger s ps fs = v.ledger s ps fs := by
  have h := countP_aborted (s := s) v.sock.recvs
  have hs := countP_send (s := s) v.sock.sends
  have hc : (if v.sock.connecting then [Packet.connect s PD_EINTR] else []).countP
      Packet.isRecv = 0 ∧ (if v.sock.connecting then [Packet.connect s PD_EINTR] else []).countP
      Packet.isSend = 0 := by
    split <;> exact ⟨rfl, rfl⟩
  simp only [View.ledger, View.cancelIo, View.packets, View.setSock, Sock.recvCount,
    Sock.sendCount, List.countP_append, h.1, h.2, hs.1, hs.2, hc.1, hc.2, List.length_nil]
  congr 1
  · omega
  · omega

theorem finish_ledger : (v.finish s).ledger s ps fs =
    { v.ledger s ps fs with
      isOpen := false
      closes := (v.ledger s ps fs).closes + 1, pushes := (v.ledger s ps fs).pushes + 1 } := by
  have h : (v.cancelIo s).ledger s ps fs = v.ledger s ps fs := cancelIo_ledger
  simp only [View.ledger, Ledger.mk.injEq] at h ⊢
  obtain ⟨h1, h2, h3, h4, h5, h6, h7, h8, h9, h10⟩ := h
  simp only [View.finish, View.logs, View.setSock, List.count_append, List.mem_append]
  refine ⟨h1, h2, h3, trivial, h5, h6, trivial, ?_, ?_, ?_⟩
  · simpa using h8
  · simpa using h9
  · simpa using h10

theorem tryClose_ledger : (v.tryClose s).ledger s ps fs = (v.ledger s ps fs).tryClose := by
  unfold View.tryClose Ledger.tryClose
  by_cases hb : 0 < v.tcp.writesSize ∨ v.tcp.flags.pendingRead = true
  · have hidle : ¬ (v.ledger s ps fs).Idle := by
      rintro ⟨hw, hr⟩
      have hw : v.tcp.writesSize = 0 := hw
      have hr : v.tcp.flags.pendingRead = false := hr
      simp [hw, hr] at hb
    rw [if_pos hb, if_neg hidle]
  · rw [not_or] at hb
    have hidle : (v.ledger s ps fs).Idle :=
      ⟨Nat.eq_zero_of_not_pos hb.1, Bool.eq_false_of_not_eq_true hb.2⟩
    rw [if_neg (not_or.mpr hb), if_pos hidle, finish_ledger]

/-- The flags other than `PD_PENDING_READ` are not in the ledger. -/
theorem setFlags_ledger {f : StreamFlags} (hf : f.pendingRead = v.tcp.flags.pendingRead) :
    (v.setFlags f).ledger s ps fs = v.ledger s ps fs := by
  simp only [View.ledger, View.setFlags, View.setTcp, hf]

theorem cancel_ledger : (v.cancel s).ledger s ps fs =
    { v.ledger s ps fs with status := .closed } := by
  have hst : (v.setStatus .closed).ledger s ps fs =
      { v.ledger s ps fs with status := .closed } := rfl
  unfold View.cancel
  refine (setFlags_ledger rfl).trans ?_
  rw [← hst]
  split <;> split <;> simp

theorem close_ledger (hst : v.tcp.status ≠ .closed) : (v.close s).ledger s ps fs =
    { v.ledger s ps fs with status := .closed }.tryClose := by
  rw [View.close, if_neg hst, tryClose_ledger, cancel_ledger]

end

/-! ## Steps -/

section
variable (w : World) (rest : List Item)

/-- What a frame of the library with these under it does not do to the closing of its stream: post
a receive while one is outstanding, make a closed stream active, finish a stream while a handler
of a receive is in `on_data`, or end the last receive that a closed stream waits for with
nothing. -/
def CloseFrame : Frame → Prop
  | .postRecv s => (w.tcp s).flags.pendingRead = false
  | .connectIoRest s => (w.tcp s).status ≠ .closed
  | .dispatch (.recv s r) => r.bytes = [] →
    if (w.tcp s).status = .closed then 0 < (w.tcp s).writesSize ∨ .lib (.readIoRest s) ∈ rest
    else (w.tcp s).writesSize = 0 → .lib (.readIoRest s) ∉ rest
  | .writeIoRest s => (w.tcp s).status = .closed → (w.tcp s).writesSize ≤ 1 →
    (w.tcp s).flags.pendingRead = false → .lib (.readIoRest s) ∉ rest
  | .readIoRest s => (w.tcp s).status = .closed → (w.tcp s).writesSize = 0 →
    (w.tcp s).flags.pendingRead = false → .lib (.readIoRest s) ∉ rest
  | _ => True

/-- What a call does not do: give a socket to a stream that has one or is closed, or finish a stream
while a handler of a receive is in `on_data`. -/
def CloseCall : Call → Prop
  | .tcpAccept s | .tcpConnect s _ => (w.sock s).isOpen = false ∧ (w.tcp s).status ≠ .closed
  | .tcpClose s => (w.tcp s).status ≠ .closed → (w.tcp s).writesSize = 0 →
    (w.tcp s).flags.pendingRead = false → .lib (.readIoRest s) ∉ rest
  | _ => True

instance : (f : Frame) → Decidable (CloseFrame w rest f)
  | .postRecv _ => inferInstanceAs (Decidable (_ = _))
  | .connectIoRest _ => inferInstanceAs (Decidable (¬ _))
  | .dispatch (.recv _ _) => inferInstanceAs (Decidable (_ → ite _ _ _))
  | .dispatch (.send _ _) | .dispatch (.connect _ _) => .isTrue trivial
  | .writeIoRest _ => inferInstanceAs (Decidable (_ → _ → _ → ¬ _))
  | .readIoRest _ => inferInstanceAs (Decidable (_ → _ → _ → ¬ _))
  | .timersRun | .pendingClose | .pendingCloseDec _ | .ioRun | .ioAfterTick | .ioNext =>
    .isTrue trivial

instance : (k : Call) → Decidable (CloseCall w rest k)
  | .tcpAccept _ | .tcpConnect _ _ => inferInstanceAs (Decidable (_ ∧ ¬ _))
  | .tcpClose _ => inferInstanceAs (Decidable (_ → _ → _ → ¬ _))
  | .tcpWrite _ _ _ | .tcpShutdown _ | .tcpPause _ | .tcpResume _ | .hold | .release | .ioRun
  | .setOnData _ _ | .setOnClose _ _ | .setAfterTick _ => .isTrue trivial

end

/-- The step does nothing of this to any stream. -/
def CloseOk (c : Cfg) (x : Act) : Prop :=
  match x, c.stack with
  | .lib _, .lib f :: rest => CloseFrame c.world rest f
  | .api k _, stack => CloseCall c.world stack k
  | _, _ => True

instance : (c : Cfg) → (x : Act) → Decidable (CloseOk c x)
  | ⟨w, .lib f :: rest⟩, .lib _ => inferInstanceAs (Decidable (CloseFrame w rest f))
  | ⟨_, []⟩, .lib _ | ⟨_, .app _ :: _⟩, .lib _ => .isTrue trivial
  | ⟨w, stack⟩, .api k _ => inferInstanceAs (Decidable (CloseCall w stack k))
  | _, .ret _ | _, .env _ => .isTrue trivial

theorem mem_framesOf {s : Sid} {f : Frame} {l : List Item} (hf : f.stream = some s)
    (hd : ∀ p, f ≠ .dispatch p) : f ∈ framesOf s l ↔ .lib f ∈ l := by
  fun_induction framesOf s l with
  | case1 => simp
  | case2 p rest ih =>
    rw [ih, List.mem_cons]
    constructor
    · exact .inr
    · rintro (h | h)
      · exact absurd (Item.lib.inj h) (hd p)
      · exact h
  | case3 f' rest _ hs ih => simp [ih]
  | case4 f' rest _ hs ih =>
    rw [ih, List.mem_cons]
    constructor
    · exact .inr
    · rintro (h | h)
      · exact absurd (Item.lib.inj h ▸ hf) hs
      · exact h
  | case5 k rest ih => simp [ih]

theorem count_readIoRest {s : Sid} {l : List Item} (h : .lib (.readIoRest s) ∉ l) :
    (framesOf s l).count (.readIoRest s) = 0 :=
  List.count_eq_zero.mpr fun hm => h ((mem_framesOf rfl (by simp)).mp hm)

section
variable {s : Sid} {v v' : View} {ps : List Packet} {fs : List Frame}

/-- The entries that the ledger counts. -/
def isCloseObs (s : Sid) (o : Obs) : Bool :=
  o = .close s || o = .closesocket s || o = .pushed s

/-- Other entries are not in the ledger. -/
theorem logs_ledger {l : List Obs} (h : ∀ o ∈ l, isCloseObs s o = false) :
    (v.logs l).ledger s ps fs = v.ledger s ps fs := by
  have hc : l.count (.closesocket s) = 0 := by
    refine List.count_eq_zero.mpr fun hm => ?_
    simpa [isCloseObs] using h _ hm
  have hp : l.count (.pushed s) = 0 := by
    refine List.count_eq_zero.mpr fun hm => ?_
    simpa [isCloseObs] using h _ hm
  have hm : .close s ∉ l := by
    intro hm
    simpa [isCloseObs] using h _ hm
  simp only [View.ledger, View.logs, List.count_append, hc, hp, List.mem_append, hm, or_false,
    Nat.add_zero]

theorem setStatus_ledger {st : TcpStatus} :
    (v.setStatus st).ledger s ps fs = { v.ledger s ps fs with status := st } := rfl

theorem took_ledger {r : Recv} : (v.took s r).ledger s ps fs =
    { v.ledger s ps fs with pendingRead := false } := by
  rw [View.took, logs_ledger (by simp [isCloseObs])]
  rfl

theorem sent_ledger : (v.sent s).ledger s ps fs =
    { v.ledger s ps fs with writesSize := v.tcp.writesSize - 1 } := by
  have hshut : ∀ v : View, (v.logs [.shutdown s]).ledger s ps fs = v.ledger s ps fs :=
    fun v => logs_ledger (by simp [isCloseObs])
  simp only [View.sent]
  split
  · split
    · rw [hshut]
      exact setFlags_ledger rfl
    · exact setFlags_ledger rfl
  · rfl

theorem post_ledger {buf : Nat} : (v.post s buf).ledger s ps fs =
    { v.ledger s ps fs with recvs := (v.ledger s ps fs).recvs + 1, pendingRead := true } := by
  rw [View.post, logs_ledger (by simp [isCloseObs])]
  simp only [View.ledger, View.setTcp, View.setSock, Sock.recvCount, List.length_append,
    List.length_singleton]
  congr 1
  omega

section
variable (v s ps fs)

@[simp] theorem ledger_postRecv : v.ledger s ps (.postRecv s :: fs) = v.ledger s ps fs := by
  simp [View.ledger]

@[simp] theorem ledger_connectIoRest :
    v.ledger s ps (.connectIoRest s :: fs) = v.ledger s ps fs := by simp [View.ledger]

@[simp] theorem ledger_readIoRest : v.ledger s ps (.readIoRest s :: fs) =
    { v.ledger s ps fs with reads := (v.ledger s ps fs).reads + 1 } := by simp [View.ledger]

@[simp] theorem ledger_writeIoRest : v.ledger s ps (.writeIoRest s :: fs) =
    { v.ledger s ps fs with sends := (v.ledger s ps fs).sends + 1 } := by
  simp [View.ledger, Nat.add_assoc]

@[simp] theorem ledger_recv (r : Recv) : v.ledger s (.recv s r :: ps) fs =
    { v.ledger s ps fs with recvs := (v.ledger s ps fs).recvs + 1 } := by
  simp only [View.ledger, Packet.isRecv, Packet.isSend, List.cons_append, List.countP_cons]
  congr 1

@[simp] theorem ledger_send (op : Op) : v.ledger s (.send s op :: ps) fs =
    { v.ledger s ps fs with sends := (v.ledger s ps fs).sends + 1 } := by
  simp only [View.ledger, Packet.isRecv, Packet.isSend, List.cons_append, List.countP_cons]
  congr 1
  simp only [if_true]
  omega

@[simp] theorem ledger_connect (st : Int) :
    v.ledger s (.connect s st :: ps) fs = v.ledger s ps fs := by
  simp [View.ledger, Packet.isRecv, Packet.isSend]

end

/-- **What a frame that works for the stream does to its ledger.** -/
theorem LibStep.ledger {c c' : Cfg} {f : Frame} {rest l : List Item}
    (hok : CloseFrame c.world rest f) (hst : c.stack = .lib f :: rest)
    (hst' : c'.stack = l ++ rest) (h : LibStep s (c.world.view s) f (c'.world.view s) l) :
    (c.ledger s).Step (c'.ledger s) := by
  have hreads : .lib (.readIoRest s) ∈ rest →
      0 < ((c.world.view s).ledger s (packetsOf s rest) (framesOf s rest)).reads :=
    fun hm => List.count_pos_iff.mpr ((mem_framesOf rfl (by simp)).mpr hm)
  have hnoreads : .lib (.readIoRest s) ∉ rest →
      ((c.world.view s).ledger s (packetsOf s rest) (framesOf s rest)).reads = 0 :=
    count_readIoRest
  rw [ledger_eq, ledger_eq, hst, hst']
  generalize c'.world.view s = v' at *
  have hsame : ∀ {x y : Ledger}, y = x → x.Step y := fun h => h ▸ .same
  cases h with
  | noBuffer _ | recvAtOnce _ _ _ _ | recvError _ =>
    apply hsame
    rw [logs_ledger (by simp [isCloseObs])]
    simp only [framesOf, packetsOf, Frame.stream, if_true, ledger_postRecv]
    rfl
  | wrote | connected | connectFailed _ =>
    apply hsame
    rw [logs_ledger (by simp [isCloseObs])]
    simp [framesOf, packetsOf, Frame.stream, Packet.stream]
  | readAgain hc _ =>
    rw [logs_ledger (by simp [isCloseObs])]
    simp only [framesOf, packetsOf, Frame.stream, if_true, ledger_readIoRest, List.cons_append,
      List.nil_append, ledger_postRecv]
    exact .read rfl hc
  | posted ho _ =>
    simp only [framesOf, packetsOf, Frame.stream, if_true, ledger_postRecv, List.nil_append,
      post_ledger]
    exact .post ho hok
  | readData hb _ =>
    rw [logs_ledger (by simp [isCloseObs]), took_ledger]
    simp only [framesOf, packetsOf, Frame.stream, Packet.stream, if_true, ledger_recv,
      List.cons_append, List.nil_append, ledger_readIoRest]
    exact .data rfl
  | @readNothing r hb =>
    simp only [framesOf, packetsOf, Packet.stream, if_true, ledger_recv, List.nil_append]
    have hok := hok hb
    -- nothing was received: the stream is closed, if it was not before
    by_cases hc : (c.world.view s).tcp.status = .closed
    · rw [View.close, if_pos (show (View.took _ s r).tcp.status = .closed from hc), took_ledger]
      refine .nothing rfl hc ?_
      rw [if_pos (show (c.world.tcp s).status = .closed from hc)] at hok
      rcases hok with hw | hr
      · exact .inl hw
      · exact .inr (hreads hr)
    · rw [close_ledger (show (View.took _ s r).tcp.status ≠ .closed from hc), took_ledger]
      rw [if_neg (show ¬ (c.world.tcp s).status = .closed from hc)] at hok
      exact .peerClosed rfl hc fun hw => hnoreads (hok hw)
  | readClosed hc =>
    simp only [framesOf, packetsOf, Frame.stream, if_true, ledger_readIoRest, List.nil_append,
      tryClose_ledger]
    exact .readClosed rfl hc fun hidle => hnoreads (hok hc hidle.1 hidle.2)
  | readPaused hc _ =>
    simp only [framesOf, packetsOf, Frame.stream, if_true, ledger_readIoRest, List.nil_append]
    exact .read rfl hc
  | wroteUncalled =>
    apply hsame
    simp [framesOf, packetsOf, Frame.stream, Packet.stream]
  | writeClosed hc =>
    simp only [framesOf, packetsOf, Frame.stream, if_true, ledger_writeIoRest, List.nil_append,
      tryClose_ledger, sent_ledger]
    exact .sentClosed rfl hc fun hw hp => hnoreads (hok hc hw hp)
  | writeRest hc =>
    simp only [framesOf, packetsOf, Frame.stream, if_true, ledger_writeIoRest, List.nil_append,
      sent_ledger]
    exact .sent rfl hc
  | connectFailedUncalled _ =>
    apply hsame
    simp [framesOf, packetsOf, Packet.stream]
  | connectRest =>
    rw [logs_ledger (by simp [isCloseObs]), setStatus_ledger]
    simp only [framesOf, packetsOf, Frame.stream, if_true, ledger_connectIoRest, List.cons_append,
      List.nil_append]
    exact .setStatus hok (by simp)
  | connectRestUncalled =>
    rw [setStatus_ledger]
    simp only [framesOf, packetsOf, Frame.stream, if_true, ledger_connectIoRest, List.nil_append]
    exact .setStatus hok (by simp)

theorem log_close_ledger : (v.logs [.close s]).ledger s ps fs =
    { v.ledger s ps fs with called := True } := by
  simp [View.ledger, View.logs]

/-- **What a call does to the ledger.** -/
theorem ApiStep.ledger {c c' : Cfg} {a : Answer} {k : Call} {l : List Item}
    (hok : CloseCall c.world c.stack k) (hst' : c'.stack = l ++ c.stack)
    (h : ApiStep s (c.world.view s) a k (c'.world.view s) l) :
    (c.ledger s).Step (c'.ledger s) := by
  have hcopen : (k = .tcpAccept s ∨ ∃ b, k = .tcpConnect s b) →
      (c.world.view s).tcp.status ≠ .closed := by
    rintro (rfl | ⟨b, rfl⟩)
    · exact hok.2
    · exact hok.2
  have hcclose : k = .tcpClose s → (c.world.view s).tcp.status ≠ .closed →
      (c.world.view s).tcp.writesSize = 0 → (c.world.view s).tcp.flags.pendingRead = false →
      .lib (.readIoRest s) ∉ c.stack := by
    rintro rfl
    exact hok
  have hnoreads : .lib (.readIoRest s) ∉ c.stack →
      ((c.world.view s).ledger s (packetsOf s c.stack) (framesOf s c.stack)).reads = 0 :=
    count_readIoRest
  rw [ledger_eq, ledger_eq, hst']
  generalize c.world.view s = v at *
  generalize c'.world.view s = v' at *
  have hsame : ∀ {x y : Ledger}, y = x → x.Step y := fun h => h ▸ .same
  cases h with
  | accept =>
    rw [logs_ledger (by simp [isCloseObs])]
    simp only [framesOf, packetsOf, Frame.stream, if_true, List.cons_append, List.nil_append,
      ledger_postRecv]
    rw [replaced_ledger (v := v) (t := { v.tcp with status := .active, hasFd := true })
      (k := .opened true) rfl rfl rfl rfl]
    exact .opened (hcopen (.inl rfl)) (by simp)
  | connectNothing => exact hsame rfl
  | @connect b k hkind =>
    have hempty : k.recvs = [] ∧ k.sends = [] := by
      rcases hkind with ⟨_, rfl⟩ | ⟨x, rfl⟩
      · exact ⟨rfl, rfl⟩
      · unfold connectSock
        split <;> exact ⟨rfl, rfl⟩
    have hc := hcopen (.inr ⟨b, rfl⟩)
    rw [List.nil_append, replaced_ledger (v := v)
      (t := { v.tcp with hasFd := true, onConnect := b }) hempty.1 hempty.2 rfl rfl]
    exact .opened hc hc
  | writeRefused _ | write _ _ =>
    apply hsame
    rw [logs_ledger (by simp [isCloseObs])]
    rfl
  | @writePending op _ hst ho =>
    rw [logs_ledger (by simp [isCloseObs]), List.nil_append]
    -- one more send, and `writes_size` with it
    have hv := Ledger.Step.send (l := v.ledger s (packetsOf s c.stack) (framesOf s c.stack)) ho hst
    have heq : ((v.setTcp
        { v.tcp with
          writesSize := v.tcp.writesSize + 1, flags := { v.tcp.flags with writing := true } }).setSock
        { v.sock with sends := v.sock.sends ++ [op] }).ledger s (packetsOf s c.stack)
          (framesOf s c.stack) =
        { v.ledger s (packetsOf s c.stack) (framesOf s c.stack) with
          sends := (v.ledger s (packetsOf s c.stack) (framesOf s c.stack)).sends + 1
          writesSize := v.tcp.writesSize + 1 } := by
      simp only [View.ledger, View.setTcp, View.setSock, Sock.sendCount, List.length_append,
        List.length_singleton]
      congr 1
      omega
    rw [heq]
    exact hv
  | close =>
    -- closing again does nothing
    by_cases hc : v.tcp.status = .closed
    · rw [View.close, if_pos (show (v.logs [.close s]).tcp.status = .closed from hc),
        List.nil_append, log_close_ledger]
      exact .closeAgain hc
    · rw [close_ledger (show (v.logs [.close s]).tcp.status ≠ .closed from hc), List.nil_append,
        log_close_ledger]
      exact .close hc fun hidle => hnoreads (hcclose rfl hc hidle.1 hidle.2)
  | shutNothing _ => exact hsame rfl
  | shut hst hl =>
    rw [logs_ledger (by rcases hl with rfl | rfl <;> simp [isCloseObs]), List.nil_append,
      setStatus_ledger]
    exact .setStatus (by rw [show (v.ledger s _ _).status = .active from hst]; simp) (by simp)
  | pause _ =>
    apply hsame
    rw [logs_ledger (by simp [isCloseObs])]
    exact setFlags_ledger rfl
  | pauseCancel _ =>
    apply hsame
    rw [cancelIoEx_ledger, logs_ledger (by simp [isCloseObs])]
    exact setFlags_ledger rfl
  | resume _ =>
    apply hsame
    rw [logs_ledger (by simp [isCloseObs])]
    exact setFlags_ledger rfl
  | resumePost _ =>
    apply hsame
    rw [logs_ledger (by simp [isCloseObs])]
    simp only [framesOf, packetsOf, Frame.stream, if_true, List.cons_append, List.nil_append,
      ledger_postRecv]
    exact setFlags_ledger rfl
  | setOnData | setOnClose => exact hsame rfl

/-- A packet comes to the port for what is outstanding no more. -/
theorem EnvStep.ledger (h : EnvStep s v v') : v'.ledger s ps fs = v.ledger s ps fs := by
  cases h with
  | arrive _ _ | peerFin _ => rfl
  | recvData hr _ _ =>
    simp only [View.ledger, View.packets, View.setSock, Sock.recvCount, Sock.sendCount,
      List.countP_append, hr, List.length_cons, List.countP_singleton, Packet.isRecv,
      Packet.isSend, if_true]
    congr 1
    omega
  | recvEnd hr _ =>
    simp only [View.ledger, View.packets, View.setSock, Sock.recvCount, Sock.sendCount,
      List.countP_append, hr, List.length_cons, List.countP_singleton, Packet.isRecv,
      Packet.isSend, if_true]
    congr 1
    omega
  | sendDone hop =>
    have hpos := List.length_pos_of_mem hop
    simp only [View.ledger, View.packets, View.setSock, Sock.recvCount, Sock.sendCount,
      List.countP_append, List.length_erase_of_mem hop, List.countP_singleton, Packet.isRecv,
      Packet.isSend, if_true]
    congr 1
    simp
    omega
  | connectDone _ =>
    simp only [View.ledger, View.packets, View.setSock, List.countP_append,
      List.countP_singleton, Packet.isRecv, Packet.isSend]
    rfl
  | @leftDone p _ hp =>
    have hcount : ∀ q : Pending → Bool, (v.sock.left.erase p.pending).countP q +
        (if q p.pending then 1 else 0) = v.sock.left.countP q := by
      intro q
      rw [(List.perm_cons_erase hp).countP_eq q, List.countP_cons]
    have hr := hcount Pending.isRecv
    have hs := hcount Pending.isSend
    rw [isRecv_pending] at hr
    rw [isSend_pending] at hs
    simp only [View.ledger, View.packets, View.setSock, Sock.recvCount, Sock.sendCount,
      List.countP_append, List.countP_singleton]
    congr 1
    · omega
    · omega

theorem Quiet.ledger {c c' : Cfg} (h : Quiet s c c') : c'.ledger s = c.ledger s := by
  simp only [Cfg.ledger, Cfg.recvs, Cfg.sends, ← sock_view, h.tcp, h.sock, h.log, h.frames,
    h.flight.countP_eq]

end

/-! ## Runs -/

section
variable {c c' : Cfg} {x : Act} {s : Sid}

/-- **A step that meets `CloseOk` keeps to the ledger.** -/
theorem step_ledger (hok : CloseOk c x) (hs : step c x = some c') :
    (c.ledger s).Step (c'.ledger s) := by
  rcases step_view (s := s) hs with hq | ⟨a, f, rest, l, rfl, hst, _, hst', hl⟩ |
    ⟨k, a, cb, rest, l, rfl, _, hst', ha⟩ | ⟨e, rfl, hst', he⟩
  · rw [hq.ledger]
    exact .same
  · have hok : CloseFrame c.world rest f := by
      simpa only [CloseOk, hst] using hok
    exact hl.ledger hok hst hst'
  · have hok : CloseCall c.world c.stack k := by
      simpa only [CloseOk] using hok
    exact ha.ledger hok hst'
  · rw [ledger_eq, ledger_eq, hst', he.ledger]
    exact .same

theorem Run.ledger (r : Run CloseOk c) (s : Sid) : (c.ledger s).Inv := by
  induction r with
  | init hi =>
    rw [hi]
    refine ⟨rfl, rfl, rfl, fun h => ?_, fun _ => rfl, fun h => ?_⟩
    · cases h
    · cases h
  | step r hx hs ih => exact (step_ledger hx hs).inv ih

end

end Pandio.Iocp
