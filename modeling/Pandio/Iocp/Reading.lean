import Pandio.Iocp.Outstanding

/- Pausing and resuming. In runs that keep to `ReadOk`, what a stream has received is
   what has arrived, in order, and the stream is closed by its application, its peer or
   an error. A receive that is cancelled by `pd_tcp_pause` ends with no bytes, and
   `pd__tcp_read_io` takes that for the end of the stream. -/
namespace Pandio.Iocp
open Pandio.Iocp.World

/-! ## What is delivered -/

/-- The bytes that an entry of the log gives to `on_data` of the stream. -/
def deliveredBy (s : Sid) : Obs → List UInt8
  | .cb (.onData s' _ _ bytes) => if s' = s then bytes else []
  | _ => []

/-- What `on_data` of the stream was given so far. -/
def World.delivered (w : World) (s : Sid) : List UInt8 := w.log.flatMap (deliveredBy s)

def View.delivered (v : View) (s : Sid) : List UInt8 := v.log.flatMap (deliveredBy s)

section
variable {s : Sid} {v : View}

theorem view_delivered (w : World) : (w.view s).delivered s = w.delivered s := by
  show (w.log.filter (isObs s)).flatMap (deliveredBy s) = w.log.flatMap (deliveredBy s)
  induction w.log with
  | nil => rfl
  | cons o l ih =>
    cases ho : isObs s o with
    | true => simp [ho, ih]
    | false =>
      have hnone : deliveredBy s o = [] := by
        unfold deliveredBy
        split
        · rw [if_neg]
          rintro rfl
          simp [isObs] at ho
        · rfl
      simp [ho, ih, hnone]

theorem logs_delivered (l : List Obs) :
    (v.logs l).delivered s = v.delivered s ++ l.flatMap (deliveredBy s) := by
  simp [View.delivered, View.logs]

/-- Entries that deliver nothing. -/
theorem logs_delivered_nil {l : List Obs} (h : ∀ o ∈ l, deliveredBy s o = []) :
    (v.logs l).delivered s = v.delivered s := by
  rw [logs_delivered, List.flatMap_eq_nil_iff.mpr h, List.append_nil]

theorem tryClose_delivered : (v.tryClose s).delivered s = v.delivered s := by
  unfold View.tryClose
  split
  · rfl
  · exact logs_delivered_nil (by simp [deliveredBy])

theorem close_delivered : (v.close s).delivered s = v.delivered s := by
  unfold View.close
  split
  · rfl
  · rw [tryClose_delivered]
    show (ite _ _ _ : View).delivered s = _
    split <;> split <;> rfl

theorem sent_delivered : (v.sent s).delivered s = v.delivered s := by
  simp only [View.sent]
  split
  · split
    · exact logs_delivered_nil (by simp [deliveredBy])
    · rfl
  · rfl

end

/-! ## The condition -/

section
variable (s : Sid) (w : World)

/-- What a frame of the library does not do to reading from the stream: post a receive while
another is outstanding, or take a cancelled receive while the stream is open. -/
def ReadFrame : Frame → Prop
  | .postRecv s' => s' = s → (w.tcp s).flags.pendingRead = false
  | .dispatch (.recv s' r) => s' = s → r.status = .aborted → (w.tcp s).status = .closed
  | _ => True

/-- A stream that had a connection is not opened. -/
def ReadCall : Call → Prop
  | .tcpAccept s' | .tcpConnect s' _ => s' = s → (w.sock s).connected = false
  | _ => True

instance : (f : Frame) → Decidable (ReadFrame s w f)
  | .postRecv _ => inferInstanceAs (Decidable (_ → _))
  | .dispatch (.recv _ _) => inferInstanceAs (Decidable (_ → _ → _))
  | .dispatch (.send _ _) | .dispatch (.connect _ _) | .readIoRest _ | .writeIoRest _
  | .connectIoRest _ | .timersRun | .pendingClose | .pendingCloseDec _ | .ioRun | .ioAfterTick
  | .ioNext => .isTrue trivial

instance : (k : Call) → Decidable (ReadCall s w k)
  | .tcpAccept _ | .tcpConnect _ _ => inferInstanceAs (Decidable (_ → _))
  | .tcpClose _ | .tcpWrite _ _ _ | .tcpShutdown _ | .tcpPause _ | .tcpResume _ | .hold | .release
  | .ioRun | .setOnData _ _ | .setOnClose _ _ | .setAfterTick _ => .isTrue trivial

end

/-- The step does nothing of this to the stream. -/
def ReadsSafely (s : Sid) (c : Cfg) (x : Act) : Prop :=
  match x, c.stack with
  | .lib _, .lib f :: _ => ReadFrame s c.world f
  | .api k _, _ => ReadCall s c.world k
  | _, _ => True

instance (s : Sid) : (c : Cfg) → (x : Act) → Decidable (ReadsSafely s c x)
  | ⟨w, .lib f :: _⟩, .lib _ => inferInstanceAs (Decidable (ReadFrame s w f))
  | ⟨_, []⟩, .lib _ | ⟨_, .app _ :: _⟩, .lib _ => .isTrue trivial
  | ⟨w, _⟩, .api k _ => inferInstanceAs (Decidable (ReadCall s w k))
  | _, .ret _ | _, .env _ => .isTrue trivial

def ReadOk (s : Sid) (c : Cfg) (x : Act) : Prop := RecvPosted s c x ∧ ReadsSafely s c x

instance (s : Sid) (c : Cfg) (x : Act) : Decidable (ReadOk s c x) :=
  inferInstanceAs (Decidable (_ ∧ _))

/-! ## The flow of data -/

/-- What was received is what has arrived, in order. One receive may be outstanding; what it brings
comes after everything that was delivered. -/
structure View.Flow (v : View) (s : Sid) (ps : List Packet) : Prop where
  recvs : v.recvs ps = if v.tcp.flags.pendingRead then 1 else 0
  buf : ∀ b ∈ v.sock.recvs, v.tcp.readBuf = some b
  flight : ∀ r, .recv s r ∈ ps ++ v.port → v.tcp.readBuf = some r.buf ∧
    v.delivered s ++ r.bytes = v.sock.arrived.take v.sock.taken
  idle : (∀ r, .recv s r ∉ ps ++ v.port) → v.delivered s = v.sock.arrived.take v.sock.taken
  taken : v.sock.taken ≤ v.sock.arrived.length
  fresh : v.sock.connected = false →
    v.sock.arrived = [] ∧ v.sock.fin = false ∧ v.sock.recvs = []
  connecting : v.sock.connecting = true → v.sock.connected = false
  ended : ∀ r, .recv s r ∈ ps ++ v.port → r.bytes = [] → r.status = .success →
    v.sock.fin = true ∧ v.sock.taken = v.sock.arrived.length
  /-- No receive was outstanding on a socket that was replaced. -/
  left : ∀ p ∈ v.sock.left, p.isRecv = false

section
variable {v v' : View} {s : Sid} {ps ps' : List Packet}

theorem countP_isRecv_eq_zero {l : List Packet} (h : l.countP Packet.isRecv = 0) (r : Recv) :
    .recv s r ∉ l := by
  rw [List.countP_eq_zero] at h
  exact fun hm => h _ hm rfl

/-- No packet of a receive is there while the kernel holds one. -/
theorem View.Flow.no_flight (h : v.Flow s ps) {b : Nat} (hb : b ∈ v.sock.recvs) (r : Recv) :
    .recv s r ∉ ps ++ v.port := by
  apply countP_isRecv_eq_zero
  have hn := h.recvs
  have hpos := List.length_pos_of_mem hb
  unfold View.recvs Sock.recvCount at hn
  split at hn <;> omega

/-- Nothing is outstanding. -/
theorem View.Flow.nothing (h : v.Flow s ps) (hp : v.tcp.flags.pendingRead = false) :
    v.sock.recvs = [] ∧ ∀ r, .recv s r ∉ ps ++ v.port := by
  have hn := h.recvs
  rw [hp] at hn
  simp only [View.recvs, Sock.recvCount, Bool.false_eq_true, if_false] at hn
  exact ⟨List.length_eq_zero_iff.mp (by omega), countP_isRecv_eq_zero (by omega)⟩

/-- Receives that are outstanding may be cancelled; nothing else changes. -/
theorem View.Flow.congr (h : v.Flow s ps) (hb : v'.tcp.readBuf = v.tcp.readBuf)
    (hp : v'.tcp.flags.pendingRead = v.tcp.flags.pendingRead)
    (hd : v'.delivered s = v.delivered s)
    (hsock : v'.sock.arrived = v.sock.arrived ∧ v'.sock.taken = v.sock.taken ∧
      v'.sock.connected = v.sock.connected ∧ v'.sock.fin = v.sock.fin)
    (hc : v'.sock.connecting = true → v.sock.connecting = true)
    (hl : v'.sock.left = v.sock.left) (hn : v'.recvs ps' = v.recvs ps)
    (hk : v'.sock.recvs ⊆ v.sock.recvs)
    (hf : ∀ r, .recv s r ∈ ps' ++ v'.port → .recv s r ∈ ps ++ v.port ∨
      r.buf ∈ v.sock.recvs ∧ r.bytes = [] ∧ r.status ≠ .success)
    (hi : ∀ r, .recv s r ∈ ps ++ v.port → .recv s r ∈ ps' ++ v'.port) : v'.Flow s ps' := by
  obtain ⟨ha, ht, hcn, hfin⟩ := hsock
  refine ⟨?_, ?_, ?_, ?_, ?_, ?_, ?_, ?_, ?_⟩
  · rw [hn, hp]
    exact h.recvs
  · rw [hb]
    exact fun b hm => h.buf b (hk hm)
  · intro r hr
    rw [hb, hd, ha, ht]
    rcases hf r hr with hr | ⟨hm, hnil, _⟩
    · exact h.flight r hr
    · rw [hnil, List.append_nil]
      exact ⟨h.buf _ hm, h.idle (h.no_flight hm)⟩
  · intro hno
    rw [hd, ha, ht]
    exact h.idle fun r hr => hno r (hi r hr)
  · rw [ha, ht]
    exact h.taken
  · rw [hcn, ha, hfin]
    intro hno
    obtain ⟨harr, hf, hr⟩ := h.fresh hno
    exact ⟨harr, hf, List.subset_nil.mp (hr ▸ hk)⟩
  · rw [hcn]
    exact fun hcon => h.connecting (hc hcon)
  · intro r hr hnil hs
    rw [hfin, ha, ht]
    rcases hf r hr with hr | ⟨_, _, hne⟩
    · exact h.ended r hr hnil hs
    · exact absurd hs hne
  · rw [hl]
    exact h.left

/-- The kernel's side and the packets stay. -/
theorem View.Flow.same (h : v.Flow s ps) (hb : v'.tcp.readBuf = v.tcp.readBuf)
    (hp : v'.tcp.flags.pendingRead = v.tcp.flags.pendingRead)
    (hd : v'.delivered s = v.delivered s) (hk : v'.sock = v.sock) (hpt : v'.port = v.port) :
    v'.Flow s ps := by
  refine h.congr hb hp hd ?_ ?_ (by rw [hk]) ?_ ?_ ?_ ?_
  · rw [hk]
    exact ⟨rfl, rfl, rfl, rfl⟩
  · rw [hk]
    exact id
  · rw [View.recvs, hk, hpt]
    rfl
  · rw [hk]
    exact fun _ => id
  · rw [hpt]
    exact fun _ => .inl
  · rw [hpt]
    exact fun _ => id

theorem mem_aborted {r : Recv} {l : List Nat} (h : .recv s r ∈ View.aborted s l) :
    r.buf ∈ l ∧ r.bytes = [] ∧ r.status ≠ .success := by
  obtain ⟨buf, hbuf, he⟩ := List.mem_map.mp h
  cases he
  exact ⟨hbuf, rfl, by simp⟩

theorem View.Flow.cancelIoEx (h : v.Flow s ps) : (v.cancelIoEx s).Flow s ps := by
  refine h.congr rfl rfl rfl ⟨rfl, rfl, rfl, rfl⟩ id rfl cancelIoEx_recvs ?_ ?_ ?_
  · exact fun b hb => by cases hb
  · intro r hr
    rcases List.mem_append.mp hr with hr | hr
    · exact .inl (List.mem_append_left _ hr)
    · rcases List.mem_append.mp hr with hr | hr
      · exact .inl (List.mem_append_right _ hr)
      · exact .inr (mem_aborted hr)
  · intro r hr
    rcases List.mem_append.mp hr with hr | hr
    · exact List.mem_append_left _ hr
    · exact List.mem_append_right _ (List.mem_append_left _ hr)

theorem View.Flow.cancelIo (h : v.Flow s ps) : (v.cancelIo s).Flow s ps := by
  refine h.congr rfl rfl rfl ⟨rfl, rfl, rfl, rfl⟩ (fun hc => by cases hc) rfl cancelIo_recvs
    ?_ ?_ ?_
  · exact fun b hb => by cases hb
  · intro r hr
    rcases List.mem_append.mp hr with hr | hr
    · exact .inl (List.mem_append_left _ hr)
    · rcases List.mem_append.mp hr with hr | hr
      · exact .inl (List.mem_append_right _ hr)
      · right
        -- the sends and the connection that are cancelled are no receives
        rcases List.mem_append.mp hr with hr | hr
        · rcases List.mem_append.mp hr with hr | hr
          · exact mem_aborted hr
          · obtain ⟨_, _, he⟩ := List.mem_map.mp hr
            cases he
        · split at hr
          · cases List.mem_singleton.mp hr
          · cases hr
  · intro r hr
    rcases List.mem_append.mp hr with hr | hr
    · exact List.mem_append_left _ hr
    · exact List.mem_append_right _ (List.mem_append_left _ hr)

theorem View.Flow.tryClose (h : v.Flow s ps) : (v.tryClose s).Flow s ps := by
  unfold View.tryClose
  split
  · exact h
  · have hd : (v.finish s).delivered s = (v.cancelIo s).delivered s :=
      logs_delivered_nil (by simp [deliveredBy])
    exact h.cancelIo.congr rfl rfl hd ⟨rfl, rfl, rfl, rfl⟩ id rfl rfl (fun _ => id)
      (fun _ => .inl) fun _ => id

theorem View.Flow.close (h : v.Flow s ps) : (v.close s).Flow s ps := by
  have hst : (v.setStatus .closed).Flow s ps := h.same rfl rfl rfl rfl rfl
  have hflags : ∀ {u : View} (f : StreamFlags), f.pendingRead = u.tcp.flags.pendingRead →
      u.Flow s ps → (u.setFlags f).Flow s ps := fun f hf hu => hu.same rfl hf rfl rfl rfl
  unfold View.close
  split
  · exact h
  · apply View.Flow.tryClose
    unfold View.cancel
    refine hflags _ rfl ?_
    split <;> split
    · exact hst.cancelIo.cancelIoEx
    · exact hst.cancelIo
    · exact hst.cancelIoEx
    · exact hst

theorem View.Flow.sent (h : v.Flow s ps) : (v.sent s).Flow s ps := by
  refine h.same ?_ sent_flags.2 sent_delivered (sent_sock v) ?_
  all_goals
    simp only [View.sent]
    split
    · split <;> rfl
    · rfl

/-- A packet that is no receive is handled. -/
theorem View.Flow.drop {p : Packet} (h : v.Flow s (p :: ps)) (hp : p.isRecv = false) :
    v.Flow s ps := by
  have hne : ∀ r, .recv s r ≠ p := by
    rintro r rfl
    cases hp
  refine h.congr rfl rfl rfl ⟨rfl, rfl, rfl, rfl⟩ id rfl ?_ (fun _ => id) ?_ ?_
  · simp [View.recvs, hp]
  · exact fun r hr => .inl (List.mem_cons_of_mem _ hr)
  · intro r hr
    rcases List.mem_cons.mp hr with hr | hr
    · exact absurd hr (hne r)
    · exact hr

/-- The receive that was outstanding is handled, and delivered. -/
theorem View.Flow.took {r : Recv} {l : List Obs} (h : v.Flow s (.recv s r :: ps))
    (hl : l.flatMap (deliveredBy s) = r.bytes) : ((v.took s r).logs l).Flow s ps := by
  have hn := h.recvs
  simp only [View.recvs, Sock.recvCount, List.cons_append, List.countP_cons, Packet.isRecv,
    if_true] at hn
  have hnone : v.sock.recvs = [] ∧ (ps ++ v.port).countP Packet.isRecv = 0 := by
    split at hn
    · exact ⟨List.length_eq_zero_iff.mp (by omega), by omega⟩
    · omega
  have hd : ((v.took s r).logs l).delivered s = v.sock.arrived.take v.sock.taken := by
    rw [logs_delivered, hl, View.took, logs_delivered_nil (by simp [deliveredBy])]
    exact (h.flight r (List.mem_cons_self ..)).2
  have hno : ∀ r', .recv s r' ∉ ps ++ v.port := countP_isRecv_eq_zero hnone.2
  refine ⟨?_, ?_, fun r' hr' => absurd hr' (hno r'), fun _ => hd, h.taken, h.fresh, h.connecting,
    fun r' hr' => absurd hr' (hno r'), h.left⟩
  · have hleft : v.sock.left.countP Pending.isRecv = 0 :=
      List.countP_eq_zero.mpr fun p hp => by simp [h.left p hp]
    show v.sock.recvs.length + v.sock.left.countP Pending.isRecv +
      (ps ++ v.port).countP Packet.isRecv = 0
    rw [hnone.1, hnone.2, hleft]
    rfl
  · show ∀ b ∈ v.sock.recvs, _
    rw [hnone.1]
    exact fun b hb => by cases hb

/-- The first receive is posted. -/
theorem View.Flow.post {buf : Nat} (h : v.Flow s ps) (hp : v.tcp.flags.pendingRead = false)
    (hc : v.sock.connected = true) : (v.post s buf).Flow s ps := by
  obtain ⟨hk, hno⟩ := h.nothing hp
  have hd : (v.post s buf).delivered s = v.delivered s :=
    logs_delivered_nil (by simp [deliveredBy])
  refine ⟨?_, ?_, fun r hr => absurd hr (hno r), ?_, h.taken, ?_, h.connecting,
    fun r hr => absurd hr (hno r), h.left⟩
  · have hn := h.recvs
    rw [hp] at hn
    simp only [View.recvs, Sock.recvCount, hk] at hn
    simp only [View.recvs, View.post, View.logs, View.setSock, View.setTcp, Sock.recvCount, hk,
      List.nil_append, List.length_singleton, if_true]
    simp only [List.length_nil, Bool.false_eq_true, if_false] at hn
    omega
  · show ∀ b ∈ v.sock.recvs ++ [buf], some buf = some b
    rw [hk]
    simp
  · intro _
    rw [hd]
    exact h.idle hno
  · exact fun hn => absurd (hc.symm.trans hn) (by simp)

end

section
variable {v v' : View} {s : Sid} {rest l : List Item}

/-- **What a frame that works for the stream does to its data.** -/
theorem LibStep.flow {f : Frame} (h : LibStep s v f v' l)
    (hpost : f = .postRecv s → l = [] ∧ v.tcp.flags.pendingRead = false)
    (hf : v.Flow s (packetsOf s (.lib f :: rest))) : v'.Flow s (packetsOf s (l ++ rest)) := by
  have hrecv : ∀ r, packetsOf s (.lib (.dispatch (.recv s r)) :: rest) =
      .recv s r :: packetsOf s rest := by simp [packetsOf, Packet.stream]
  have hsend : ∀ op, packetsOf s (.lib (.dispatch (.send s op)) :: rest) =
      .send s op :: packetsOf s rest := by simp [packetsOf, Packet.stream]
  have hconn : ∀ st, packetsOf s (.lib (.dispatch (.connect s st)) :: rest) =
      .connect s st :: packetsOf s rest := by simp [packetsOf, Packet.stream]
  cases h with
  | noBuffer _ | recvAtOnce _ _ _ _ | recvError _ => cases (hpost rfl).1
  | posted _ hc => exact View.Flow.post hf (hpost rfl).2 hc
  | readData _ hb =>
    rw [hrecv] at hf
    refine hf.took ?_
    rw [hb (hf.flight _ (List.mem_cons_self ..)).1]
    simp [deliveredBy]
  | @readNothing r hb =>
    rw [hrecv] at hf
    have htook := hf.took (l := []) hb.symm
    rw [logs_nil] at htook
    exact htook.close
  | readClosed _ => exact View.Flow.tryClose hf
  | readAgain _ _ =>
    exact hf.same rfl rfl (logs_delivered_nil (by simp [deliveredBy])) rfl rfl
  | readPaused _ _ => exact hf
  | wrote =>
    rw [hsend] at hf
    exact (hf.drop rfl).same rfl rfl (logs_delivered_nil (by simp [deliveredBy])) rfl rfl
  | wroteUncalled =>
    rw [hsend] at hf
    exact hf.drop rfl
  | writeClosed _ => exact (View.Flow.sent hf).tryClose
  | writeRest _ => exact View.Flow.sent hf
  | connected | connectFailed _ =>
    rw [hconn] at hf
    exact (hf.drop rfl).same rfl rfl (logs_delivered_nil (by simp [deliveredBy])) rfl rfl
  | connectFailedUncalled _ =>
    rw [hconn] at hf
    exact hf.drop rfl
  | connectRest =>
    exact hf.same rfl rfl (logs_delivered_nil (by simp [deliveredBy])) rfl rfl
  | connectRestUncalled => exact hf.same rfl rfl rfl rfl rfl

/-- A new socket for a stream that had no connection. -/
theorem View.Flow.opened {k : Sock} {t : Tcp} {obs : List Obs} {ps : List Packet}
    (h : v.Flow s ps) (hc : v.sock.connected = false)
    (hb : t.readBuf = v.tcp.readBuf) (hp : t.flags.pendingRead = v.tcp.flags.pendingRead)
    (hobs : ∀ o ∈ obs, deliveredBy s o = [])
    (hk : k.arrived = [] ∧ k.taken = 0 ∧ k.fin = false ∧ k.recvs = [] ∧
      (k.connecting = true → k.connected = false)) :
    (((v.setTcp t).setSock (v.sock.replaced k)).logs obs).Flow s ps := by
  obtain ⟨ha, hfin, hr⟩ := h.fresh hc
  obtain ⟨hka, hkt, hkf, hkr, hkc⟩ := hk
  have hd : (((v.setTcp t).setSock (v.sock.replaced k)).logs obs).delivered s = v.delivered s :=
    logs_delivered_nil hobs
  refine ⟨?_, ?_, ?_, ?_, ?_, ?_, hkc, ?_, ?_⟩
  · have hcount := (replaced_counts v.sock k).1
    rw [hkr] at hcount
    show (v.sock.replaced k).recvCount + _ = if t.flags.pendingRead then 1 else 0
    rw [hp, ← h.recvs, View.recvs, hcount]
    rfl
  · show ∀ b ∈ k.recvs, _
    rw [hkr]
    exact fun b hb => by cases hb
  · intro r hr
    obtain ⟨hbuf, heq⟩ := h.flight r hr
    rw [ha] at heq
    refine ⟨hb.trans hbuf, ?_⟩
    show _ = k.arrived.take k.taken
    rw [hd, heq, hka, List.take_nil, List.take_nil]
  · intro hno
    show _ = k.arrived.take k.taken
    rw [hd, h.idle hno, ha, hka, List.take_nil, List.take_nil]
  · show k.taken ≤ k.arrived.length
    rw [hkt]
    exact Nat.zero_le _
  · exact fun _ => ⟨hka, hkf, hkr⟩
  · intro x hx hnil hs
    have hended := (h.ended x hx hnil hs).1
    rw [hfin] at hended
    cases hended
  · show ∀ p ∈ v.sock.left ++ v.sock.outstanding, p.isRecv = false
    intro p hm
    rcases List.mem_append.mp hm with hm | hm
    · exact h.left p hm
    · simp only [Sock.outstanding, hr, List.map_nil, List.nil_append, List.mem_append,
        List.mem_map] at hm
      rcases hm with ⟨_, _, rfl⟩ | hm
      · rfl
      · split at hm
        · rw [List.mem_singleton.mp hm]
          rfl
        · cases hm

/-- **What a call does to the data of the stream.** -/
theorem ApiStep.flow {a : Answer} {k : Call} {stack : List Item}
    (hcon : (k = .tcpAccept s ∨ ∃ b, k = .tcpConnect s b) → v.sock.connected = false)
    (h : ApiStep s v a k v' l) (hf : v.Flow s (packetsOf s stack)) :
    v'.Flow s (packetsOf s (l ++ stack)) := by
  cases h with
  | accept =>
    exact hf.opened (hcon (.inl rfl)) rfl rfl (by simp [deliveredBy])
      ⟨rfl, rfl, rfl, rfl, fun h => by cases h⟩
  | connectNothing => exact hf
  | @connect b k hkind =>
    have hk : k.arrived = [] ∧ k.taken = 0 ∧ k.fin = false ∧ k.recvs = [] ∧
        (k.connecting = true → k.connected = false) := by
      rcases hkind with ⟨_, rfl⟩ | ⟨x, rfl⟩
      · exact ⟨rfl, rfl, rfl, rfl, fun _ => rfl⟩
      · unfold connectSock
        split
        · exact ⟨rfl, rfl, rfl, rfl, fun _ => rfl⟩
        · exact ⟨rfl, rfl, rfl, rfl, fun h => by cases h⟩
        · exact ⟨rfl, rfl, rfl, rfl, fun _ => rfl⟩
    have hnew : (((v.setTcp { v.tcp with hasFd := true, onConnect := b }).setSock
        (v.sock.replaced k)).logs []).Flow s (packetsOf s stack) :=
      hf.opened (hcon (.inr ⟨b, rfl⟩)) rfl rfl (by simp) hk
    rw [logs_nil] at hnew
    exact hnew
  | writeRefused _ | write _ _ | writePending _ _ =>
    refine hf.congr rfl rfl (logs_delivered_nil (by simp [deliveredBy])) ⟨rfl, rfl, rfl, rfl⟩ id
      rfl rfl (fun _ => id) (fun _ => .inl) fun _ => id
  | close =>
    have hlog : (v.logs [.close s]).Flow s (packetsOf s stack) :=
      hf.same rfl rfl (logs_delivered_nil (by simp [deliveredBy])) rfl rfl
    exact hlog.close
  | shutNothing _ => exact hf
  | shut _ hl =>
    refine hf.same rfl rfl (logs_delivered_nil ?_) rfl rfl
    rcases hl with rfl | rfl <;> simp [deliveredBy]
  | pause _ | resume _ | resumePost _ =>
    exact hf.same rfl rfl (logs_delivered_nil (by simp [deliveredBy])) rfl rfl
  | pauseCancel _ =>
    have hpause : ((v.setFlags { v.tcp.flags with reading := false }).logs [.paused s]).Flow s
        (packetsOf s stack) :=
      hf.same rfl rfl (logs_delivered_nil (by simp [deliveredBy])) rfl rfl
    exact hpause.cancelIoEx
  | setOnData | setOnClose => exact hf.same rfl rfl rfl rfl rfl

/-- The receive that is outstanding ends with the next bytes, or with none. -/
theorem View.Flow.ends {ps : List Packet} {buf : Nat} {recvs : List Nat} {bytes : List UInt8}
    {st : RecvStatus} (h : v.Flow s ps) (hr : v.sock.recvs = buf :: recvs)
    (hb : bytes <+: v.sock.rx)
    (hend : bytes = [] → st = .success → v.sock.fin = true ∧ v.sock.rx = [])
    (hn : ((v.setSock
      { v.sock with recvs := recvs, taken := v.sock.taken + bytes.length }).packets
        [.recv s ⟨buf, bytes, st⟩]).recvs ps = v.recvs ps) :
    ((v.setSock { v.sock with recvs := recvs, taken := v.sock.taken + bytes.length }).packets
      [.recv s ⟨buf, bytes, st⟩]).Flow s ps := by
  have hmem : buf ∈ v.sock.recvs := by
    rw [hr]
    exact List.mem_cons_self ..
  have hno := h.no_flight hmem
  have hnew : ∀ r, .recv s r ∈ ps ++ (v.port ++ [.recv s ⟨buf, bytes, st⟩]) →
      r = ⟨buf, bytes, st⟩ := by
    intro r hr
    rw [← List.append_assoc] at hr
    rcases List.mem_append.mp hr with hr | hr
    · exact absurd hr (hno r)
    · cases List.mem_singleton.mp hr
      rfl
  have htake : v.sock.arrived.take v.sock.taken ++ bytes =
      v.sock.arrived.take (v.sock.taken + bytes.length) := by
    rw [List.take_add, List.append_cancel_left_eq]
    exact List.prefix_iff_eq_take.mp hb
  refine ⟨?_, ?_, ?_, ?_, ?_, fun hno' => ?_, h.connecting, ?_, h.left⟩
  · rw [hn]
    exact h.recvs
  · exact fun b hb => h.buf b (hr ▸ List.mem_cons_of_mem _ hb)
  · intro r hr
    rw [hnew r hr]
    refine ⟨h.buf buf hmem, ?_⟩
    show v.delivered s ++ bytes = _
    rw [h.idle hno]
    exact htake
  · exact fun hno' => absurd (by simp [View.packets]) (hno' ⟨buf, bytes, st⟩)
  · have hlen := hb.length_le
    have htaken := h.taken
    rw [Sock.rx, List.length_drop] at hlen
    show v.sock.taken + bytes.length ≤ v.sock.arrived.length
    omega
  · have hnil := (h.fresh hno').2.2
    rw [hr] at hnil
    cases hnil
  · intro r hr
    rw [hnew r hr]
    intro hnil hs
    obtain ⟨hfin, hrx⟩ := hend hnil hs
    refine ⟨hfin, ?_⟩
    show v.sock.taken + bytes.length = v.sock.arrived.length
    have htaken := h.taken
    have hlen : v.sock.arrived.length - v.sock.taken = 0 := by
      rw [← List.length_drop]
      exact List.length_eq_zero_iff.mpr hrx
    rw [show bytes = [] from hnil]
    simp only [List.length_nil]
    omega

/-- **What the kernel does to the data of the stream.** -/
theorem EnvStep.flow {ps : List Packet} (h : EnvStep s v v') (hf : v.Flow s ps) :
    v'.Flow s ps := by
  have hn : v'.recvs ps = v.recvs ps := h.recvs
  cases h with
  | @arrive bytes hc hfin =>
    have htake : (v.sock.arrived ++ bytes).take v.sock.taken =
        v.sock.arrived.take v.sock.taken := List.take_append_of_le_length hf.taken
    refine ⟨hf.recvs, hf.buf, ?_, ?_, ?_, fun hno => ?_, hf.connecting, ?_, hf.left⟩
    · intro r hr
      show _ ∧ _ = (v.sock.arrived ++ bytes).take v.sock.taken
      rw [htake]
      exact hf.flight r hr
    · intro hno
      show _ = (v.sock.arrived ++ bytes).take v.sock.taken
      rw [htake]
      exact hf.idle hno
    · show v.sock.taken ≤ (v.sock.arrived ++ bytes).length
      rw [List.length_append]
      exact hf.taken.trans (Nat.le_add_right ..)
    · exact absurd (hc.symm.trans hno) (by simp)
    · -- nothing arrives after the FIN
      exact fun r hr hnil hs => absurd (hfin.symm.trans (hf.ended r hr hnil hs).1) (by simp)
  | peerFin hc =>
    exact ⟨hf.recvs, hf.buf, hf.flight, hf.idle, hf.taken,
      fun hno => absurd (hc.symm.trans hno) (by simp), hf.connecting,
      fun r hr hnil hs => ⟨rfl, (hf.ended r hr hnil hs).2⟩, hf.left⟩
  | recvData hr hb hpre => exact hf.ends hr hpre (fun h => absurd h hb) hn
  | recvEnd hr he =>
    refine hf.ends hr (List.nil_prefix (l := v.sock.rx)) ?_ hn
    rintro - rfl
    rcases he with ⟨_, hrx, hfin⟩ | he
    · exact ⟨hfin, hrx⟩
    · cases he
  | sendDone _ =>
    refine hf.congr rfl rfl rfl ⟨rfl, rfl, rfl, rfl⟩ id rfl hn (fun _ => id) ?_ ?_
    · intro r hr
      left
      simpa [View.packets, View.setSock] using hr
    · intro r hr
      simpa [View.packets, View.setSock] using hr
  | @connectDone st hcon =>
    have hport : ∀ r, .recv s r ∈ ps ++ (v.port ++ [.connect s st]) ↔ .recv s r ∈ ps ++ v.port := by
      simp
    have hfresh := hf.fresh (hf.connecting hcon)
    refine ⟨?_, hf.buf, ?_, ?_, hf.taken, fun _ => hfresh, fun hc => (by cases hc), ?_, hf.left⟩
    · rw [hn]
      exact hf.recvs
    · exact fun r hr => hf.flight r ((hport r).mp hr)
    · exact fun hno => hf.idle fun r hr => hno r ((hport r).mpr hr)
    · exact fun r hr => hf.ended r ((hport r).mp hr)
  | @leftDone p hps hp =>
    have hne : ∀ r, Packet.recv s r ≠ p := by
      rintro r rfl
      exact absurd (hf.left _ hp) (by simp [Packet.pending, Pending.isRecv])
    have hport : ∀ r, .recv s r ∈ ps ++ (v.port ++ [p]) ↔ .recv s r ∈ ps ++ v.port := by
      simp [hne]
    refine ⟨?_, hf.buf, ?_, ?_, hf.taken, hf.fresh, hf.connecting, ?_, ?_⟩
    · rw [hn]
      exact hf.recvs
    · exact fun r hr => hf.flight r ((hport r).mp hr)
    · exact fun hno => hf.idle fun r hr => hno r ((hport r).mpr hr)
    · exact fun r hr => hf.ended r ((hport r).mp hr)
    · exact fun q hq => hf.left q (List.mem_of_mem_erase hq)

end

/-! ## Why a stream is closed -/

/-- The application has closed the stream, its peer has and everything is delivered, or a receive
has failed. -/
def View.Ended (v : View) (s : Sid) : Prop :=
  .close s ∈ v.log ∨ (v.sock.fin = true ∧ v.delivered s = v.sock.arrived) ∨
    ∃ r, .received s r ∈ v.log ∧ r.status = .failed

section
variable {v v' : View} {s : Sid} {rest l : List Item}

theorem View.Ended.mono (h : v.Ended s) (hl : v.log ⊆ v'.log)
    (hfin : v.sock.fin = true → v.delivered s = v.sock.arrived →
      v'.sock.fin = true ∧ v'.delivered s = v'.sock.arrived) : v'.Ended s := by
  rcases h with h | ⟨h, hd⟩ | ⟨r, h, hr⟩
  · exact .inl (hl h)
  · exact .inr (.inl (hfin h hd))
  · exact .inr (.inr ⟨r, hl h, hr⟩)

/-- The socket stays, and nothing is delivered. -/
theorem View.Ended.same (h : v.Ended s) (hl : v.log ⊆ v'.log) (hk : v'.sock.fin = v.sock.fin)
    (ha : v'.sock.arrived = v.sock.arrived) (hd : v'.delivered s = v.delivered s) :
    v'.Ended s := by
  refine h.mono hl fun hfin hall => ?_
  rw [hk, ha, hd]
  exact ⟨hfin, hall⟩

theorem tryClose_log : v.log ⊆ (v.tryClose s).log := by
  unfold View.tryClose
  split
  · exact fun _ => id
  · exact List.subset_append_left ..

theorem tryClose_fin : (v.tryClose s).sock.fin = v.sock.fin ∧
    (v.tryClose s).sock.arrived = v.sock.arrived := by
  unfold View.tryClose
  split <;> exact ⟨rfl, rfl⟩

theorem close_log : v.log ⊆ (v.close s).log := by
  unfold View.close
  split
  · exact fun _ => id
  · refine List.Subset.trans ?_ tryClose_log
    show v.log ⊆ (ite _ _ _ : View).log
    split <;> split <;> exact fun _ => id

theorem close_fin : (v.close s).sock.fin = v.sock.fin ∧
    (v.close s).sock.arrived = v.sock.arrived := by
  unfold View.close
  split
  · exact ⟨rfl, rfl⟩
  · rw [tryClose_fin.1, tryClose_fin.2]
    show (ite _ _ _ : View).sock.fin = _ ∧ (ite _ _ _ : View).sock.arrived = _
    split <;> split <;> exact ⟨rfl, rfl⟩

theorem sent_log : v.log ⊆ (v.sent s).log := by
  simp only [View.sent]
  split
  · split
    · exact List.subset_append_left ..
    · exact fun _ => id
  · exact fun _ => id

/-- The receive that is handled ends the stream: everything has been delivered. -/
theorem View.Flow.drained {r : Recv} {ps : List Packet} (h : v.Flow s ps)
    (hr : .recv s r ∈ ps ++ v.port) (hb : r.bytes = []) (hs : r.status = .success) :
    v.sock.fin = true ∧ v.delivered s = v.sock.arrived := by
  obtain ⟨hfin, htaken⟩ := h.ended r hr hb hs
  have hd := (h.flight r hr).2
  rw [hb, List.append_nil, htaken, List.take_length] at hd
  exact ⟨hfin, hd⟩

/-- Nothing is left to deliver when everything is. -/
theorem View.Flow.no_data {r : Recv} {ps : List Packet} (h : v.Flow s ps)
    (hr : .recv s r ∈ ps ++ v.port) (hb : r.bytes ≠ []) : v.delivered s ≠ v.sock.arrived := by
  intro hall
  have hd := congrArg List.length (h.flight r hr).2
  have hpos := List.length_pos_iff.mpr hb
  rw [List.length_append, List.length_take, hall] at hd
  omega

/-- A frame closes the stream at its end, or when a receive has failed. -/
theorem LibStep.ended {f : Frame} (h : LibStep s v f v' l)
    (hpost : f = .postRecv s → l = [])
    (hr : ∀ r, f = .dispatch (.recv s r) → r.status = .aborted → v.tcp.status = .closed)
    (hf : v.Flow s (packetsOf s (.lib f :: rest)))
    (hk : v.tcp.status = .closed → v.Ended s) : v'.tcp.status = .closed → v'.Ended s := by
  have htook : ∀ r, v.log ⊆ (v.took s r).log := fun r => List.subset_append_left ..
  have hmem : ∀ r, .recv s r ∈ packetsOf s (.lib (.dispatch (.recv s r)) :: rest) ++ v.port := by
    simp [packetsOf, Packet.stream]
  cases h with
  | noBuffer _ | recvAtOnce _ _ _ _ | recvError _ => cases hpost rfl
  | posted _ _ =>
    exact fun h => (hk h).same (List.subset_append_left ..) rfl rfl
      (logs_delivered_nil (by simp [deliveredBy]))
  | @readData r bytes hb _ =>
    refine fun h => (hk h).mono (List.Subset.trans (htook r) (List.subset_append_left ..)) ?_
    exact fun _ hall => absurd hall (hf.no_data (hmem r) hb)
  | @readNothing r hb =>
    intro _
    have hlog : v.log ⊆ ((v.took s r).close s).log := List.Subset.trans (htook r) close_log
    have hreceived : .received s r ∈ ((v.took s r).close s).log :=
      close_log (List.mem_append_right _ (List.mem_singleton_self _))
    have hd : ((v.took s r).close s).delivered s = v.delivered s :=
      close_delivered.trans (logs_delivered_nil (by simp [deliveredBy]))
    by_cases hst : v.tcp.status = .closed
    · exact (hk hst).same hlog close_fin.1 close_fin.2 hd
    · cases hrs : r.status with
      | success =>
        obtain ⟨hfin, hall⟩ := hf.drained (hmem r) hb hrs
        refine .inr (.inl ⟨close_fin.1.trans hfin, ?_⟩)
        rw [hd, close_fin.2]
        exact hall
      | aborted => exact absurd (hr r rfl hrs) hst
      | failed => exact .inr (.inr ⟨r, hreceived, hrs⟩)
  | readClosed hst =>
    exact fun _ => (hk hst).same tryClose_log tryClose_fin.1 tryClose_fin.2 tryClose_delivered
  | writeClosed hst =>
    refine fun _ => (hk hst).same (List.Subset.trans sent_log tryClose_log) ?_ ?_
      (tryClose_delivered.trans sent_delivered)
    · rw [tryClose_fin.1, sent_sock]
    · rw [tryClose_fin.2, sent_sock]
  | writeRest hst => exact fun h => absurd ((sent_status v).symm.trans h) hst
  | readPaused hst _ => exact fun h => absurd h hst
  | connectRest | connectRestUncalled => exact fun h => by cases h
  | wroteUncalled | connectFailedUncalled _ => exact hk
  | readAgain _ _ | wrote | connected | connectFailed _ =>
    exact fun h => (hk h).same (List.subset_append_left ..) rfl rfl
      (logs_delivered_nil (by simp [deliveredBy]))

theorem ApiStep.ended {a : Answer} {k : Call} (h : ApiStep s v a k v' l)
    (hcon : (k = .tcpAccept s ∨ ∃ b, k = .tcpConnect s b) → v.sock.fin = false)
    (hk : v.tcp.status = .closed → v.Ended s) : v'.tcp.status = .closed → v'.Ended s := by
  cases h with
  | accept => exact fun h => by cases h
  | @connect b k _ =>
    have hfin := hcon (.inr ⟨b, rfl⟩)
    exact fun h => (hk h).mono (fun _ => id) fun h => absurd (hfin.symm.trans h) (by simp)
  | close => exact fun _ => .inl (close_log (List.mem_append_right _ (List.mem_singleton_self _)))
  | shut _ _ => exact fun h => by cases h
  | connectNothing | shutNothing _ | setOnData | setOnClose => exact hk
  | writeRefused _ | write _ _ | writePending _ _ | pause _ | pauseCancel _ | resume _
  | resumePost _ =>
    exact fun h => (hk h).same (List.subset_append_left ..) rfl rfl
      (logs_delivered_nil (by simp [deliveredBy]))

theorem EnvStep.ended (h : EnvStep s v v') (hk : v.tcp.status = .closed → v.Ended s) :
    v'.tcp.status = .closed → v'.Ended s := by
  have hlog : v'.log = v.log := h.log
  have hd : v'.delivered s = v.delivered s := by
    rw [View.delivered, hlog]
    rfl
  rw [h.tcp]
  refine fun hst => (hk hst).mono (by rw [hlog]; exact fun _ => id) ?_
  rw [hd]
  cases h with
  | arrive _ hfin => exact fun h => absurd (hfin.symm.trans h) (by simp)
  | peerFin _ => exact fun _ hall => ⟨rfl, hall⟩
  | _ => exact fun hfin hall => ⟨hfin, hall⟩

/-- No step takes a stream back to where it was before it was opened. -/
theorem LibStep.opened {f : Frame} (h : LibStep s v f v' l) (hst : v.tcp.status ≠ .none) :
    v'.tcp.status ≠ .none := by
  cases h with
  | readNothing _ =>
    rw [close_status]
    simp
  | readClosed _ =>
    rw [tryClose_tcp]
    exact hst
  | writeClosed _ =>
    rw [tryClose_tcp, sent_status]
    exact hst
  | writeRest _ =>
    rw [sent_status]
    exact hst
  | connectRest | connectRestUncalled => exact fun h => by cases h
  | _ => exact hst

theorem ApiStep.opened {a : Answer} {k : Call} (h : ApiStep s v a k v' l) (hst : v.tcp.status ≠ .none) :
    v'.tcp.status ≠ .none := by
  cases h with
  | accept | shut _ _ => exact fun h => by cases h
  | close =>
    rw [close_status]
    simp
  | _ => exact hst

end

/-! ## Runs -/

section
variable {c c' : Cfg} {x : Act} {s : Sid}

/-- The data of the stream, and why it is closed. -/
structure Flows (c : Cfg) (s : Sid) : Prop where
  flow : (c.world.view s).Flow s (packetsOf s c.stack)
  ended : (c.world.view s).tcp.status = .closed → (c.world.view s).Ended s

theorem Quiet.flows (h : Quiet s c c') (hf : Flows c s) : Flows c' s := by
  have hn : c'.recvs s = c.recvs s := congrArg Ledger.recvs h.ledger
  have hflight : ∀ r, .recv s r ∈ packetsOf s c'.stack ++ (c'.world.view s).port ↔
      .recv s r ∈ packetsOf s c.stack ++ (c.world.view s).port := fun r => h.flight.mem_iff
  have hd : (c'.world.view s).delivered s = (c.world.view s).delivered s := by
    rw [View.delivered, h.log]
    rfl
  refine ⟨hf.flow.congr ?_ ?_ hd ?_ ?_ ?_ hn ?_ (fun r hr => .inl ((hflight r).mp hr))
    fun r => (hflight r).mpr, ?_⟩
  · rw [h.tcp]
  · rw [h.tcp]
  · rw [h.sock]
    exact ⟨rfl, rfl, rfl, rfl⟩
  · rw [h.sock]
    exact id
  · rw [h.sock]
  · rw [h.sock]
    exact fun _ => id
  · rw [h.tcp]
    exact fun hst => (hf.ended hst).same (by rw [h.log]; exact fun _ => id) (by rw [h.sock])
      (by rw [h.sock]) hd

theorem step_flows (hok : ReadOk s c x) (hs : step c x = some c') (h : Flows c s) :
    Flows c' s := by
  obtain ⟨hposted, hsafe⟩ := hok
  rcases step_view (s := s) hs with hq | ⟨a, f, rest, l, rfl, hst, _, hst', hl⟩ |
    ⟨k, a, cb, rest, l, rfl, _, hst', ha⟩ | ⟨e, rfl, hst', he⟩
  · exact hq.flows h
  · have hframe : ReadFrame s c.world f := by
      simpa only [ReadsSafely, hst] using hsafe
    have hflow := h.flow
    rw [hst] at hflow
    have hpost : f = .postRecv s → l = [] := by
      rintro rfl
      have hstack := step_posted hs hst hposted
      rw [hst'] at hstack
      exact List.append_left_eq_self.mp hstack
    constructor
    · rw [hst']
      refine hl.flow (fun hf => ⟨hpost hf, ?_⟩) hflow
      subst hf
      exact hframe rfl
    · refine hl.ended hpost ?_ hflow h.ended
      rintro r rfl
      exact hframe rfl
  · have hcall : ReadCall s c.world k := by
      simpa only [ReadsSafely] using hsafe
    have hnew : (k = .tcpAccept s ∨ ∃ b, k = .tcpConnect s b) →
        (c.world.view s).sock.connected = false := by
      rintro (rfl | ⟨b, rfl⟩)
      · exact hcall rfl
      · exact hcall rfl
    constructor
    · rw [hst']
      exact ha.flow hnew h.flow
    · exact ha.ended (fun hn => (h.flow.fresh (hnew hn)).2.1) h.ended
  · constructor
    · rw [hst']
      exact he.flow h.flow
    · exact he.ended h.ended

theorem Run.flows (r : Run (ReadOk s) c) : Flows c s := by
  induction r with
  | init hi =>
    rw [hi]
    refine ⟨⟨rfl, ?_, ?_, fun _ => rfl, Nat.le_refl 0, fun _ => ⟨rfl, rfl, rfl⟩, ?_, ?_, ?_⟩, ?_⟩
    · exact fun b hb => by cases hb
    · exact fun r hr => by cases hr
    · exact fun h => by cases h
    · exact fun r hr => by cases hr
    · exact fun p hp => by cases hp
    · exact fun h => by cases h
  | step _ hok hs ih => exact step_flows hok hs ih

theorem step_opened (hs : step c x = some c') (h : (c.world.tcp s).status ≠ .none) :
    (c'.world.tcp s).status ≠ .none := by
  rw [← tcp_view] at h ⊢
  rcases step_view (s := s) hs with hq | ⟨a, f, rest, l, _, _, _, _, hl⟩ |
    ⟨k, a, cb, rest, l, _, _, _, ha⟩ | ⟨e, _, _, he⟩
  · rw [hq.tcp]
    exact h
  · exact hl.opened h
  · exact ha.opened h
  · rw [he.tcp]
    exact h

/-- **What reading from an open stream comes to**, whatever the application pauses and resumes. -/
structure Reads (c : Cfg) (s : Sid) : Prop where
  /-- The stream is open, unless the application closed it, or the peer after everything it has sent
  was delivered, or a receive failed. -/
  stays : (c.world.tcp s).status = .active ∨ (c.world.tcp s).status = .shutdown ∨
    .close s ∈ c.world.log ∨
    ((c.world.sock s).fin = true ∧ c.world.delivered s = (c.world.sock s).arrived) ∨
    ∃ r, .received s r ∈ c.world.log ∧ r.status = .failed
  /-- Everything that was received is delivered, in the order in which it has arrived. -/
  delivered : (∀ r, .recv s r ∉ c.flight s) →
    c.world.delivered s = (c.world.sock s).arrived.take (c.world.sock s).taken
  /-- So is a receive whose packet is not handled yet, afterwards. -/
  next : ∀ r, .recv s r ∈ c.flight s →
    c.world.delivered s ++ r.bytes = (c.world.sock s).arrived.take (c.world.sock s).taken
  /-- The bytes that are still to come are waited for. -/
  receives : (c.world.tcp s).status ≠ .closed → c.world.wants s = true →
    framesOf s c.stack = [] → 0 < c.recvs s

/-- **Pausing and resuming an open stream neither closes it nor loses data**, in every run that
keeps to `ReadOk`. -/
theorem stream_reads (r : Run (ReadOk s) c)
    (ho : (c.world.tcp s).status = .active ∨ (c.world.tcp s).status = .shutdown)
    (r' : Machine.Reach step (ReadOk s) (· = c) c') : Reads c' s := by
  have hrun : Run (ReadOk s) c' := r.trans r'
  have hflows := Run.flows hrun
  have hopened : (c'.world.tcp s).status ≠ .none := by
    clear hrun hflows
    induction r' with
    | init hi =>
      rw [hi]
      rcases ho with ho | ho <;> simp [ho]
    | step _ _ hs ih => exact step_opened hs ih
  refine ⟨?_, fun hno => ?_, fun x hx => ?_, ?_⟩
  · cases hst : (c'.world.tcp s).status with
    | none => exact absurd hst hopened
    | active => exact .inl rfl
    | shutdown => exact .inr (.inl rfl)
    | closed =>
      rcases hflows.ended hst with h | ⟨h, hall⟩ | ⟨x, h, hx⟩
      · exact .inr (.inr (.inl (List.mem_of_mem_filter h)))
      · rw [view_delivered] at hall
        exact .inr (.inr (.inr (.inl ⟨h, hall⟩)))
      · exact .inr (.inr (.inr (.inr ⟨x, List.mem_of_mem_filter h, hx⟩)))
  · rw [← view_delivered]
    exact hflows.flow.idle hno
  · rw [← view_delivered]
    exact (hflows.flow.flight x hx).2
  · exact recv_outstanding (hrun.mono fun _ _ => And.left)

end

/-- Two receives; after the first the stream is paused in `on_data`, and a timer resumes it. -/
theorem stream_reads_resumed : ∃ c c', Run (ReadOk 0) c ∧ (c.world.tcp 0).status = .active ∧
    Machine.Reach step (ReadOk 0) (· = c) c' ∧ c'.world.delivered 0 = [1, 2] ∧ Reads c' 0 := by
  have hplay : ∃ c c', Run (ReadOk 0) c ∧ (c.world.tcp 0).status = .active ∧
      Machine.Reach step (ReadOk 0) (· = c) c' ∧ c'.world.delivered 0 = [1, 2] := by
    have r : Run (ReadOk 0) _ := Machine.Reach.play (.init rfl) (l :=
      [.api (.setOnData 0 true) .pending, .api (.tcpAccept 0) .pending, .ret (some 7),
        .lib .pending]) rfl
    exact ⟨_, _, r, rfl, Machine.Reach.play (.init rfl) (l :=
      [.env (.arrive 0 [1]), .env (.recvDone 0 1), .api .ioRun .pending, .lib .pending,
        .lib .pending, .api (.tcpPause 0) .pending, .ret none, .lib .pending,
        .lib { Answer.pending with due := true }, .api (.tcpResume 0) .pending, .ret (some 8),
        .lib .pending, .ret none, .lib .pending, .lib .pending, .lib .pending, .lib .pending,
        .env (.arrive 0 [2]), .env (.recvDone 0 1), .lib .pending, .lib .pending]) rfl, rfl⟩
  obtain ⟨c, c', r, ho, r', hd⟩ := hplay
  exact ⟨c, c', r, ho, r', hd, stream_reads r (.inl ho) r'⟩

/-- **Pausing a stream that waits for data closes it**: the receive that `pd_tcp_pause` cancels
ends with no bytes, also if the stream was resumed before that is handled. -/
theorem not_stream_reads : ∃ c c', Run (fun _ _ => True) c ∧ (c.world.tcp 0).status = .active ∧
    Machine.Reach step (fun _ _ => True) (· = c) c' ∧ (c'.world.tcp 0).status = .closed ∧
    c'.world.wants 0 = true ∧ ¬ Reads c' 0 := by
  have r : Run (fun _ _ => True) _ := Machine.Reach.play (.init rfl) (l :=
    [.api (.setOnData 0 true) .pending, .api (.tcpAccept 0) .pending, .ret (some 7),
      .lib .pending]) rfl
  refine ⟨_, _, r, rfl, Machine.Reach.play (.init rfl) (l :=
    [.api (.tcpPause 0) .pending, .api (.tcpResume 0) .pending, .api .ioRun .pending,
      .lib .pending, .lib .pending]) rfl, rfl, rfl, fun h => ?_⟩
  rcases h.stays with h | h | h | ⟨h, _⟩ | ⟨x, h, hx⟩
  · cases h
  · cases h
  · exact absurd h (by decide)
  · cases h
  · have hx' : x = ⟨7, [], .aborted⟩ := by
      simpa using show Obs.received 0 x ∈ [.accepted 0, .cb (.allocator 0), .wsaRecv 0 .pending,
        .paused 0, .resumed 0, .received 0 ⟨7, [], .aborted⟩, .closesocket 0, .pushed 0] from h
    rw [hx'] at hx
    cases hx

end Pandio.Iocp
