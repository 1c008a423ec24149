import Pandio.Iocp.Outstanding

/- The status of a stream goes from `none` over `active` and `shutdown` to `closed` in
   every run that keeps to `StatusOk`. `pd__tcp_connect_io` does not look at the status,
   so a connection that was closed before its packet is handled makes the stream active
   again, on a socket that is closed. -/
namespace Pandio.Iocp
open Pandio.Iocp.World

/-! ## The condition -/

section
variable (s : Sid) (w : World) (rest : List Item)

/-- What a frame of the library with these under it does not do: take the success of a connection
for a stream that is shut down or closed, close the stream in `pd__tcp_connect_io`, or its socket
while the allocator is called for it. -/
def StatusFrame : Frame → Prop
  | .dispatch (.connect s' st) => s' = s → st = 0 →
    (w.tcp s).status = .none ∨ (w.tcp s).status = .active
  | .dispatch (.recv s' r) => s' = s → r.bytes = [] → (w.tcp s).status ≠ .closed →
    .lib (.connectIoRest s) ∉ rest ∧
      (.lib (.postRecv s) ∈ rest → (w.sock s).isOpen = true ∧ 0 < (w.tcp s).writesSize)
  | .readIoRest s' => s' = s → (w.tcp s).status = .closed → (w.tcp s).writesSize = 0 →
    (w.tcp s).flags.pendingRead = false → .lib (.postRecv s) ∉ rest
  | .writeIoRest s' => s' = s → (w.tcp s).status = .closed → (w.tcp s).writesSize ≤ 1 →
    (w.tcp s).flags.pendingRead = false → .lib (.postRecv s) ∉ rest
  | _ => True

/-- What a call does not do: the same, accept a connection for a stream that is shut down or closed,
shut it down in `pd__tcp_connect_io`, or resume it when its socket was closed. -/
def StatusCall (a : Answer) : Call → Prop
  | .tcpAccept s' => s' = s → (w.tcp s).status = .none ∨ (w.tcp s).status = .active
  | .tcpConnect s' _ => s' = s → (w.tcp s).status = .closed → .lib (.postRecv s) ∈ rest →
    ¬ ConnectFails a
  | .tcpClose s' => s' = s → (w.tcp s).status ≠ .closed → .lib (.connectIoRest s) ∉ rest ∧
    (.lib (.postRecv s) ∈ rest → (w.sock s).isOpen = true ∧
      (0 < (w.tcp s).writesSize ∨ (w.tcp s).flags.pendingRead = true))
  | .tcpShutdown s' => s' = s → (w.tcp s).status = .active → .lib (.connectIoRest s) ∉ rest
  | .tcpResume s' => s' = s → (w.tcp s).status = .closed → (w.sock s).isOpen = true
  | _ => True

instance : (f : Frame) → Decidable (StatusFrame s w rest f)
  | .dispatch (.connect _ _) => inferInstanceAs (Decidable (_ → _ → _ ∨ _))
  | .dispatch (.recv _ _) => inferInstanceAs (Decidable (_ → _ → _ → ¬ _ ∧ (_ → _ ∧ _)))
  | .readIoRest _ => inferInstanceAs (Decidable (_ → _ → _ → _ → ¬ _))
  | .writeIoRest _ => inferInstanceAs (Decidable (_ → _ → _ → _ → ¬ _))
  | .dispatch (.send _ _) | .postRecv _ | .connectIoRest _ | .timersRun | .pendingClose
  | .pendingCloseDec _ | .ioRun | .ioAfterTick | .ioNext => .isTrue trivial

instance (a : Answer) : (k : Call) → Decidable (StatusCall s w rest a k)
  | .tcpAccept _ => inferInstanceAs (Decidable (_ → _ ∨ _))
  | .tcpConnect _ _ => inferInstanceAs (Decidable (_ → _ → _ → ¬ _))
  | .tcpClose _ => inferInstanceAs (Decidable (_ → _ → ¬ _ ∧ (_ → _ ∧ (_ ∨ _))))
  | .tcpShutdown _ => inferInstanceAs (Decidable (_ → _ → ¬ _))
  | .tcpResume _ => inferInstanceAs (Decidable (_ → _ → _))
  | .tcpWrite _ _ _ | .tcpPause _ | .hold | .release | .ioRun | .setOnData _ _ | .setOnClose _ _
  | .setAfterTick _ => .isTrue trivial

end

/-- The step does nothing of this to the stream. -/
def StatusOk (s : Sid) (c : Cfg) (x : Act) : Prop :=
  match x, c.stack with
  | .lib _, .lib f :: rest => StatusFrame s c.world rest f
  | .api k a, stack => StatusCall s c.world stack a k
  | _, _ => True

instance (s : Sid) : (c : Cfg) → (x : Act) → Decidable (StatusOk s c x)
  | ⟨w, .lib f :: rest⟩, .lib _ => inferInstanceAs (Decidable (StatusFrame s w rest f))
  | ⟨_, []⟩, .lib _ | ⟨_, .app _ :: _⟩, .lib _ => .isTrue trivial
  | ⟨w, stack⟩, .api k a => inferInstanceAs (Decidable (StatusCall s w stack a k))
  | _, .ret _ | _, .env _ => .isTrue trivial

/-! ## The functions under way -/

/-- What the functions under way find of the status of a stream, and of its socket. -/
structure View.Ordered (v : View) (s : Sid) (fs : List Frame) : Prop where
  /-- `pd__tcp_post_recv` finds the socket of a closed stream open. -/
  posting : .postRecv s ∈ fs → v.tcp.status = .closed → v.sock.isOpen = true
  /-- `pd__tcp_connect_io` finds the stream neither shut down nor closed. -/
  connecting : .connectIoRest s ∈ fs → v.tcp.status = .none ∨ v.tcp.status = .active

section
variable {v v' : View} {s : Sid} {fs fs' : List Frame}

/-- The status and the socket stay, and functions other than these come to the stack. -/
theorem View.Ordered.congr (h : v.Ordered s fs) (hst : v'.tcp.status = v.tcp.status)
    (ho : v'.sock.isOpen = v.sock.isOpen)
    (hpost : .postRecv s ∈ fs' → .postRecv s ∈ fs ∨
      (v.tcp.status = .closed → v.sock.isOpen = true))
    (hconn : .connectIoRest s ∈ fs' → .connectIoRest s ∈ fs ∨
      (v.tcp.status = .none ∨ v.tcp.status = .active)) : v'.Ordered s fs' := by
  constructor
  · rw [hst, ho]
    intro hm hc
    rcases hpost hm with hm | hopen
    · exact h.posting hm hc
    · exact hopen hc
  · rw [hst]
    intro hm
    rcases hconn hm with hm | hne
    · exact h.connecting hm
    · exact hne

/-- Nothing of this comes to the stack. -/
theorem View.Ordered.mono (h : v.Ordered s fs) (hst : v'.tcp.status = v.tcp.status)
    (ho : v'.sock.isOpen = v.sock.isOpen)
    (hfs : ∀ f ∈ fs', f = .postRecv s ∨ f = .connectIoRest s → f ∈ fs) : v'.Ordered s fs' :=
  h.congr hst ho (fun hm => .inl (hfs _ hm (.inl rfl))) fun hm => .inl (hfs _ hm (.inr rfl))

/-- The stream is active. -/
theorem View.Ordered.of_active (hst : v.tcp.status = .active) : v.Ordered s fs :=
  ⟨fun _ hc => absurd (hst.symm.trans hc) (by simp), fun _ => .inr hst⟩

theorem tryClose_isOpen (hbusy : 0 < v.tcp.writesSize ∨ v.tcp.flags.pendingRead = true) :
    (v.tryClose s).sock.isOpen = v.sock.isOpen := by
  rw [View.tryClose, if_pos hbusy]

theorem close_isOpen (hst : v.tcp.status ≠ .closed)
    (hbusy : 0 < v.tcp.writesSize ∨ v.tcp.flags.pendingRead = true) :
    (v.close s).sock.isOpen = v.sock.isOpen := by
  rw [View.close, if_neg hst]
  have hcancel : (v.cancel s).tcp.writesSize = v.tcp.writesSize ∧
      (v.cancel s).tcp.flags.pendingRead = v.tcp.flags.pendingRead ∧
      (v.cancel s).sock.isOpen = v.sock.isOpen := by
    unfold View.cancel
    show (ite _ _ _ : View).tcp.writesSize = _ ∧ (ite _ _ _ : View).tcp.flags.pendingRead = _ ∧
      (ite _ _ _ : View).sock.isOpen = _
    split <;> split <;> exact ⟨rfl, rfl, rfl⟩
  rw [tryClose_isOpen, hcancel.2.2]
  rw [hcancel.1, hcancel.2.1]
  exact hbusy

/-- **Closing keeps the order**: the socket is not closed while `pd__tcp_post_recv` is under way. -/
theorem View.Ordered.close (h : v.Ordered s fs)
    (hsafe : v.tcp.status ≠ .closed → .connectIoRest s ∉ fs ∧ (.postRecv s ∈ fs →
      v.sock.isOpen = true ∧ (0 < v.tcp.writesSize ∨ v.tcp.flags.pendingRead = true))) :
    (v.close s).Ordered s fs := by
  by_cases hst : v.tcp.status = .closed
  · rw [View.close, if_pos hst]
    exact h
  · obtain ⟨hconn, hpost⟩ := hsafe hst
    refine ⟨fun hm _ => ?_, fun hm => absurd hm hconn⟩
    obtain ⟨hk, hbusy⟩ := hpost hm
    rw [close_isOpen hst hbusy]
    exact hk

/-- So does the end of a close. -/
theorem View.Ordered.tryClose (h : v.Ordered s fs) (hst : v.tcp.status = .closed)
    (hsafe : v.tcp.writesSize = 0 → v.tcp.flags.pendingRead = false → .postRecv s ∉ fs) :
    (v.tryClose s).Ordered s fs := by
  refine ⟨fun hm _ => ?_, fun hm => ?_⟩
  · rw [tryClose_isOpen]
    · exact h.posting hm hst
    · by_contra hidle
      obtain ⟨hw, hp⟩ := not_or.mp hidle
      exact hsafe (by omega) (by simpa using hp) hm
  · rw [tryClose_tcp]
    exact h.connecting hm

end

section
variable {v v' : View} {s : Sid} {rest l : List Item}

theorem sent_writesSize : (v.sent s).tcp.writesSize = v.tcp.writesSize - 1 := by
  simp only [View.sent]
  split
  · split <;> rfl
  · rfl

/-- **What a frame that works for the stream does to the order.** -/
theorem LibStep.ordered {f : Frame} {c : World} (hv : c.view s = v)
    (hok : StatusFrame s c rest f) (h : LibStep s v f v' l)
    (ho : v.Ordered s (framesOf s (.lib f :: rest))) : v'.Ordered s (framesOf s (l ++ rest)) := by
  have hpost : .postRecv s ∈ framesOf s rest ↔ .lib (.postRecv s) ∈ rest :=
    mem_framesOf rfl (by simp)
  have hconn : .connectIoRest s ∈ framesOf s rest ↔ .lib (.connectIoRest s) ∈ rest :=
    mem_framesOf rfl (by simp)
  -- the frames that were under this one
  have hrest : ∀ u : View, u.tcp.status = v.tcp.status → u.sock.isOpen = v.sock.isOpen →
      u.Ordered s (framesOf s rest) := by
    intro u hst hk
    refine ho.mono hst hk fun g hg _ => ?_
    rw [← List.singleton_append, framesOf_append]
    exact List.mem_append_right _ hg
  -- frames other than these come to the stack
  have hsame : ∀ u : View, u.tcp.status = v.tcp.status → u.sock.isOpen = v.sock.isOpen →
      (∀ g ∈ framesOf s l, g ≠ .postRecv s ∧ g ≠ .connectIoRest s) →
      u.Ordered s (framesOf s (l ++ rest)) := by
    intro u hst hk hl
    refine (hrest u hst hk).mono rfl rfl fun g hg hkind => ?_
    rw [framesOf_append] at hg
    rcases List.mem_append.mp hg with hg | hg
    · obtain ⟨h1, h2⟩ := hl g hg
      rcases hkind with rfl | rfl
      · exact absurd rfl h1
      · exact absurd rfl h2
    · exact hg
  subst hv
  generalize hv : c.view s = v at *
  cases h with
  | noBuffer _ | recvAtOnce _ _ _ _ | recvError _ | posted _ _ | readData _ _ | readPaused _ _
  | wrote | wroteUncalled | connectFailed _ | connectFailedUncalled _ =>
    exact hsame _ rfl rfl (by simp [framesOf, Frame.stream])
  | @readNothing r hb =>
    have htook : (v.took s r).Ordered s (framesOf s rest) := hrest _ rfl rfl
    refine htook.close fun hst => ?_
    obtain ⟨hc, hp⟩ := hok rfl hb (by subst hv; exact hst)
    refine ⟨fun hm => hc (hconn.mp hm), fun hm => ?_⟩
    obtain ⟨hk, hw⟩ := hp (hpost.mp hm)
    subst hv
    exact ⟨hk, .inl hw⟩
  | readClosed hst =>
    refine (hrest v rfl rfl).tryClose hst fun hw hp hm => ?_
    subst hv
    exact hok rfl hst hw hp (hpost.mp hm)
  | readAgain hne _ =>
    refine (hrest v rfl rfl).congr rfl rfl (fun _ => .inr fun h => absurd h hne) ?_
    simp [framesOf, Frame.stream]
    exact .inl
  | writeClosed hst =>
    have hsent : (v.sent s).Ordered s (framesOf s rest) :=
      hrest _ (sent_status v) (by rw [sent_sock])
    refine hsent.tryClose (by rw [sent_status]; exact hst) fun hw hp hm => ?_
    rw [sent_writesSize] at hw
    rw [sent_flags.2] at hp
    subst hv
    refine hok rfl hst ?_ hp (hpost.mp hm)
    show (c.view s).tcp.writesSize ≤ 1
    omega
  | writeRest _ => exact hrest _ (sent_status v) (by rw [sent_sock])
  | connected =>
    have hopen : v.tcp.status = .none ∨ v.tcp.status = .active := by
      subst hv
      exact hok rfl rfl
    refine (hrest v rfl rfl).congr rfl rfl (fun _ => .inr fun h => ?_) fun _ => .inr hopen
    rcases hopen with ho | ho <;> rw [ho] at h <;> cases h
  | connectRest | connectRestUncalled => exact .of_active rfl

/-- **What a call does to the order.** -/
theorem ApiStep.ordered {a : Answer} {k : Call} {c : World} {stack : List Item}
    (hv : c.view s = v) (hok : StatusCall s c stack a k) (h : ApiStep s v a k v' l)
    (ho : v.Ordered s (framesOf s stack)) : v'.Ordered s (framesOf s (l ++ stack)) := by
  have hpost : .postRecv s ∈ framesOf s stack ↔ .lib (.postRecv s) ∈ stack :=
    mem_framesOf rfl (by simp)
  have hconn : .connectIoRest s ∈ framesOf s stack ↔ .lib (.connectIoRest s) ∈ stack :=
    mem_framesOf rfl (by simp)
  subst hv
  generalize hv : c.view s = v at *
  cases h with
  | accept => exact .of_active rfl
  | connectNothing => exact ho
  | @connect b k hkind =>
    refine ⟨fun hm hst => ?_, ho.connecting⟩
    rcases hkind with ⟨hfails, _⟩ | ⟨x, rfl⟩
    · subst hv
      exact absurd hfails (hok rfl hst (hpost.mp hm))
    · show (connectSock x).isOpen = true
      unfold connectSock
      split <;> rfl
  | writeRefused _ | write _ _ | writePending _ _ | pause _ | pauseCancel _ | resume _ | setOnData
  | setOnClose => exact ho.mono rfl rfl fun _ hg _ => hg
  | close =>
    have hlog : (v.logs [.close s]).Ordered s (framesOf s stack) :=
      ho.mono rfl rfl fun _ hg _ => hg
    refine hlog.close fun hne => ?_
    subst hv
    obtain ⟨hc, hp⟩ := hok rfl hne
    exact ⟨fun hm => hc (hconn.mp hm), fun hm => hp (hpost.mp hm)⟩
  | shutNothing _ => exact ho
  | shut hst _ =>
    refine ⟨fun _ hc => (by cases hc), fun hm => ?_⟩
    subst hv
    exact absurd (hconn.mp hm) (hok rfl hst)
  | resumePost _ =>
    refine ho.congr rfl rfl (fun _ => .inr ?_) ?_
    · subst hv
      exact hok rfl
    · simp [framesOf, Frame.stream]
      exact .inl

/-- What the kernel does keeps the order. -/
theorem EnvStep.ordered {fs : List Frame} (h : EnvStep s v v') (ho : v.Ordered s fs) :
    v'.Ordered s fs := by
  have hk : v'.sock.isOpen = v.sock.isOpen := by cases h <;> rfl
  exact ho.mono (by rw [h.tcp]) hk fun _ hg _ => hg

end

/-! ## Forward -/

/-- The order of the statuses. -/
def statusRank : TcpStatus → Nat
  | .none => 0
  | .active => 1
  | .shutdown => 2
  | .closed => 3

/-- `WSARecv` on the stream's socket. -/
def isPost (s : Sid) : Obs → Bool
  | .wsaRecv s' _ => s' = s
  | _ => false

/-- The entry is neither a success of `on_connect` nor a receive that is posted. -/
def Plain (s : Sid) (o : Obs) : Prop := o ≠ .cb (.onConnect s 0) ∧ isPost s o = false

/-- Entries of this kind are added to the log. -/
def View.Adds (v v' : View) (s : Sid) : Prop := ∃ l, v'.log = v.log ++ l ∧ ∀ o ∈ l, Plain s o

/-- What a step does to a stream: the status does not go back, and a closed stream is neither
connected nor, if its socket is closed, read from. -/
structure View.Forward (v v' : View) (s : Sid) : Prop where
  rank : statusRank v.tcp.status ≤ statusRank v'.tcp.status
  connects : v.tcp.status = .closed →
    v'.log.count (.cb (.onConnect s 0)) = v.log.count (.cb (.onConnect s 0))
  posts : v.tcp.status = .closed → v.sock.isOpen = false →
    v'.log.countP (isPost s) = v.log.countP (isPost s)

section
variable {v v' u : View} {s : Sid} {rest l : List Item}

theorem View.Adds.refl : v.Adds v s := ⟨[], by simp, by simp⟩

theorem View.Adds.trans (h : v.Adds u s) (h' : u.Adds v' s) : v.Adds v' s := by
  obtain ⟨l, hl, hp⟩ := h
  obtain ⟨l', hl', hp'⟩ := h'
  refine ⟨l ++ l', by rw [hl', hl, List.append_assoc], fun o ho => ?_⟩
  rcases List.mem_append.mp ho with ho | ho
  · exact hp o ho
  · exact hp' o ho

theorem tryClose_adds : v.Adds (v.tryClose s) s := by
  unfold View.tryClose
  split
  · exact .refl
  · exact ⟨[.closesocket s, .pushed s], rfl, by simp [Plain, isPost]⟩

theorem close_adds : v.Adds (v.close s) s := by
  unfold View.close
  split
  · exact .refl
  · have hcancel : (v.cancel s).log = v.log := by
      unfold View.cancel
      show (ite _ _ _ : View).log = _
      split <;> split <;> rfl
    obtain ⟨l, hl, hp⟩ := tryClose_adds (v := v.cancel s) (s := s)
    exact ⟨l, by rw [hl, hcancel], hp⟩

theorem sent_adds : v.Adds (v.sent s) s := by
  simp only [View.sent]
  split
  · split
    · exact ⟨[.shutdown s], rfl, by simp [Plain, isPost]⟩
    · exact .refl
  · exact .refl

theorem View.Forward.of_adds (h : v.Adds v' s)
    (hr : statusRank v.tcp.status ≤ statusRank v'.tcp.status) : v.Forward v' s := by
  obtain ⟨l, hl, hp⟩ := h
  have hcount : l.count (.cb (.onConnect s 0)) = 0 :=
    List.count_eq_zero.mpr fun hm => (hp _ hm).1 rfl
  have hpost : l.countP (isPost s) = 0 :=
    List.countP_eq_zero.mpr fun o ho => by simp [(hp o ho).2]
  refine ⟨hr, fun _ => ?_, fun _ _ => ?_⟩
  · rw [hl, List.count_append, hcount, Nat.add_zero]
  · rw [hl, List.countP_append, hpost, Nat.add_zero]

theorem le_rank_closed (st : TcpStatus) : statusRank st ≤ statusRank .closed := by
  cases st <;> simp [statusRank]

theorem active_rank {st : TcpStatus} (h : st = .none ∨ st = .active) :
    statusRank st ≤ statusRank .active := by
  rcases h with rfl | rfl <;> simp [statusRank]

/-- **A frame takes a stream forward.** -/
theorem LibStep.forward {f : Frame} (h : LibStep s v f v' l)
    (ho : v.Ordered s (framesOf s (.lib f :: rest))) : v.Forward v' s := by
  have hframe : ∀ g, f = g → g.stream = some s → (∀ p, g ≠ .dispatch p) →
      g ∈ framesOf s (.lib f :: rest) := by
    rintro g rfl hg hd
    exact (mem_framesOf hg hd).mpr (List.mem_cons_self ..)
  cases h with
  | noBuffer _ => exact .of_adds ⟨_, rfl, by simp [Plain, isPost]⟩ (Nat.le_refl _)
  | recvAtOnce _ _ _ _ | recvError _ | posted _ _ =>
    refine ⟨Nat.le_refl _, fun _ => ?_, fun hst hk => ?_⟩
    · show List.count _ (v.log ++ _) = _
      rw [List.count_append]
      simp
    · have hopen := ho.posting (hframe _ rfl rfl (by simp)) hst
      exact absurd (hopen.symm.trans hk) (by simp)
  | @readData r bytes _ _ =>
    have htook : v.Adds (v.took s r) s := ⟨_, rfl, by simp [Plain, isPost]⟩
    exact .of_adds (htook.trans ⟨_, rfl, by simp [Plain, isPost]⟩) (Nat.le_refl _)
  | @readNothing r _ =>
    have htook : v.Adds (v.took s r) s := ⟨_, rfl, by simp [Plain, isPost]⟩
    refine .of_adds (htook.trans close_adds) ?_
    rw [close_status]
    exact le_rank_closed _
  | readClosed _ => exact .of_adds tryClose_adds (by rw [tryClose_tcp])
  | writeClosed _ =>
    exact .of_adds (sent_adds.trans tryClose_adds) (by rw [tryClose_tcp, sent_status])
  | writeRest _ => exact .of_adds sent_adds (by rw [sent_status])
  | readPaused _ _ | wroteUncalled | connectFailedUncalled _ => exact .of_adds .refl (Nat.le_refl _)
  | readAgain _ _ | wrote | connected =>
    exact .of_adds ⟨_, rfl, by simp [Plain, isPost]⟩ (Nat.le_refl _)
  | connectFailed hst => exact .of_adds ⟨_, rfl, by simp [Plain, isPost, hst]⟩ (Nat.le_refl _)
  | connectRest | connectRestUncalled =>
    -- `pd__tcp_connect_io` finds the stream unopened or active
    have hopen := ho.connecting (hframe _ rfl rfl (by simp))
    refine ⟨active_rank hopen, fun hst => ?_, fun hst => ?_⟩ <;>
    · rcases hopen with h | h <;> rw [h] at hst <;> cases hst

theorem ApiStep.forward {a : Answer} {k : Call} (h : ApiStep s v a k v' l)
    (hok : k = .tcpAccept s → v.tcp.status = .none ∨ v.tcp.status = .active) :
    v.Forward v' s := by
  cases h with
  | accept => exact .of_adds ⟨_, rfl, by simp [Plain, isPost]⟩ (active_rank (hok rfl))
  | connectNothing | shutNothing _ | connect _ | setOnData | setOnClose =>
    exact .of_adds (show v.Adds _ s from .refl (v := v)) (Nat.le_refl _)
  | writeRefused _ | write _ _ | writePending _ _ | pause _ | pauseCancel _ | resume _
  | resumePost _ => exact .of_adds ⟨_, rfl, by simp [Plain, isPost]⟩ (Nat.le_refl _)
  | close =>
    have hlog : v.Adds (v.logs [.close s]) s := ⟨_, rfl, by simp [Plain, isPost]⟩
    refine .of_adds (hlog.trans close_adds) ?_
    rw [close_status]
    exact le_rank_closed _
  | shut hst hl =>
    refine .of_adds ⟨_, rfl, ?_⟩ ?_
    · rcases hl with rfl | rfl <;> simp [Plain, isPost]
    · rw [hst]
      simp [statusRank, View.logs, View.setStatus, View.setTcp]

end

/-! ## Runs -/

section
variable {c c' : Cfg} {x : Act} {s : Sid}

theorem Quiet.ordered (h : Quiet s c c')
    (ho : (c.world.view s).Ordered s (framesOf s c.stack)) :
    (c'.world.view s).Ordered s (framesOf s c'.stack) := by
  rw [h.frames]
  exact ho.mono (by rw [h.tcp]) (by rw [h.sock]) fun _ hg _ => hg

/-- **A step that meets `StatusOk` keeps the order and takes the stream forward.** -/
theorem step_ordered (hok : StatusOk s c x) (hs : step c x = some c')
    (h : (c.world.view s).Ordered s (framesOf s c.stack)) :
    (c'.world.view s).Ordered s (framesOf s c'.stack) ∧
      (c.world.view s).Forward (c'.world.view s) s := by
  rcases step_view (s := s) hs with hq | ⟨a, f, rest, l, rfl, hst, _, hst', hl⟩ |
    ⟨k, a, cb, rest, l, rfl, _, hst', ha⟩ | ⟨e, rfl, hst', he⟩
  · refine ⟨hq.ordered h, .of_adds ⟨[], by simp [hq.log], by simp⟩ ?_⟩
    rw [hq.tcp]
  · have hframe : StatusFrame s c.world rest f := by
      simpa only [StatusOk, hst] using hok
    rw [hst] at h
    rw [hst']
    exact ⟨hl.ordered rfl hframe h, hl.forward h⟩
  · have hcall : StatusCall s c.world c.stack a k := by
      simpa only [StatusOk] using hok
    rw [hst']
    refine ⟨ha.ordered rfl hcall h, ha.forward ?_⟩
    rintro rfl
    exact hcall rfl
  · rw [hst']
    refine ⟨he.ordered h, .of_adds ⟨[], by simp [he.log], by simp⟩ ?_⟩
    rw [he.tcp]

theorem Run.ordered (r : Run (StatusOk s) c) :
    (c.world.view s).Ordered s (framesOf s c.stack) := by
  induction r with
  | init hi =>
    rw [hi]
    constructor
    · exact fun hm => by cases hm
    · exact fun hm => by cases hm
  | step _ hok hs ih => exact (step_ordered hok hs ih).1

/-- **The status of a stream only goes forward**, in every run that keeps to `StatusOk`: after
`closed` it has no other, `on_connect` is not called with success, and no step posts a receive on
the closed socket. -/
theorem status_forward (r : Run (StatusOk s) c)
    (r' : Machine.Reach step (StatusOk s) (· = c) c') :
    statusRank (c.world.tcp s).status ≤ statusRank (c'.world.tcp s).status ∧
    ((c.world.tcp s).status = .closed → (c'.world.tcp s).status = .closed ∧
      c'.world.log.count (.cb (.onConnect s 0)) = c.world.log.count (.cb (.onConnect s 0))) ∧
    ∀ x c'', StatusOk s c' x → step c' x = some c'' → (c'.world.tcp s).status = .closed →
      (c'.world.sock s).isOpen = false →
      c''.world.log.countP (isPost s) = c'.world.log.countP (isPost s) := by
  have hconnects : ∀ c : Cfg, c.world.log.count (.cb (.onConnect s 0)) =
      (c.world.view s).log.count (.cb (.onConnect s 0)) :=
    fun c => (List.count_filter (by simp [isObs])).symm
  have hposts : ∀ c : Cfg, c.world.log.countP (isPost s) =
      (c.world.view s).log.countP (isPost s) := by
    intro c
    show _ = (c.world.log.filter (isObs s)).countP (isPost s)
    rw [List.countP_filter]
    apply List.countP_congr
    intro o _
    cases o <;> simp [isPost, isObs]
  have hforward : statusRank (c.world.tcp s).status ≤ statusRank (c'.world.tcp s).status ∧
      ((c.world.tcp s).status = .closed →
        c'.world.log.count (.cb (.onConnect s 0)) = c.world.log.count (.cb (.onConnect s 0))) := by
    induction r' with
    | init hi =>
      rw [hi]
      exact ⟨Nat.le_refl _, fun _ => rfl⟩
    | @step d d' a r' hok hs ih =>
      obtain ⟨hrank, hcount⟩ := ih
      have hf := (step_ordered hok hs (Run.ordered (r.trans r'))).2
      refine ⟨hrank.trans hf.rank, fun hst => ?_⟩
      have hd : (d.world.view s).tcp.status = .closed := by
        rw [hst] at hrank
        rw [tcp_view]
        cases hds : (d.world.tcp s).status <;> simp_all [statusRank]
      rw [hconnects d', hf.connects hd, ← hconnects d]
      exact hcount hst
  refine ⟨hforward.1, fun hst => ⟨?_, hforward.2 hst⟩, fun x c'' hok hs hst hk => ?_⟩
  · have hrank := hforward.1
    rw [hst] at hrank
    cases hds : (c'.world.tcp s).status <;> simp_all [statusRank]
  · rw [hposts, hposts]
    exact (step_ordered hok hs (Run.ordered (r.trans r'))).2.posts hst hk

end

/-- A connection that is established, written to, and closed. -/
theorem status_forward_connected : ∃ c c', Run (StatusOk 0) c ∧
    Machine.Reach step (StatusOk 0) (· = c) c' ∧ (c.world.tcp 0).status = .active ∧
    (c'.world.tcp 0).status = .closed ∧
    statusRank (c.world.tcp 0).status ≤ statusRank (c'.world.tcp 0).status := by
  have hplay : ∃ c c', Run (StatusOk 0) c ∧ Machine.Reach step (StatusOk 0) (· = c) c' ∧
      (c.world.tcp 0).status = .active ∧ (c'.world.tcp 0).status = .closed := by
    have r : Run (StatusOk 0) _ := Machine.Reach.play (.init rfl) (l :=
      [.api (.setOnData 0 true) .pending, .api (.tcpConnect 0 true) .pending,
        .env (.connectDone 0 0), .api .ioRun .pending, .lib .pending, .lib .pending,
        .ret (some 7), .lib .pending, .lib .pending]) rfl
    exact ⟨_, _, r, Machine.Reach.play (.init rfl) (l :=
      [.api (.tcpWrite 0 0 ⟨[1], true⟩) .pending, .api (.tcpClose 0) .pending]) rfl, rfl, rfl⟩
  obtain ⟨c, c', r, r', ha, hc⟩ := hplay
  exact ⟨c, c', r, r', ha, hc, (status_forward r r').1⟩

/-- **A connection that was closed comes back**: it was established before, and its packet is
handled afterwards. The receive is posted on the closed socket. -/
theorem not_status_forward : ∃ c c', Run (fun _ _ => True) c ∧
    Machine.Reach step (fun _ _ => True) (· = c) c' ∧ (c.world.tcp 0).status = .closed ∧
    (c.world.sock 0).isOpen = false ∧ (c'.world.tcp 0).status = .active ∧
    .wsaRecv 0 (.err PD_ENOTSOCK) ∈ c'.world.log ∧
    c'.world.log.count (.cb (.onConnect 0 0)) = 1 ∧
    c.world.log.count (.cb (.onConnect 0 0)) = 0 := by
  have r : Run (fun _ _ => True) _ := Machine.Reach.play (.init rfl) (l :=
    [.api (.setOnData 0 true) .pending, .api (.tcpConnect 0 true) .pending,
      .env (.connectDone 0 0), .api (.tcpClose 0) .pending]) rfl
  exact ⟨_, _, r, Machine.Reach.play (.init rfl) (l :=
    [.api .ioRun .pending, .lib .pending, .lib .pending, .ret (some 7), .lib .pending, .ret none,
      .lib .pending]) rfl, rfl, rfl, rfl, by decide, rfl, rfl⟩

end Pandio.Iocp
