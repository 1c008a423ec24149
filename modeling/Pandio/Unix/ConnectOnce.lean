import Pandio.Unix.Ownership

/- How often `on_connect` is called, and with which status. `pd__tcp_connect_io` hands the
   stream over to `pd__tcp_client_io` when the descriptor is writable; when it is hung
   up it calls `on_connect` with the socket's error and returns, with the handler and
   the status as they were. The poller is level-triggered, so the next round brings
   the hang-up again, and by then the error has been fetched and reads as 0.

   What becomes of a connection is the kernel's to say. `Fate` is what becomes of one,
   and `Fate.Tells` what the kernel tells of it: a connection that fails is never
   writable without being hung up, and its `SO_ERROR` is the error once.

   That `on_connect` is called once has two reasons. After a success the stream has
   another handler, which does not call it (`ConnectView.handedOver`); after a hang-up
   only the application can help, by closing the stream (`ClosesHungUp`). -/
namespace Pandio
open World

/-! ## Connections -/

/-- What an entry of the log does to the number of calls of `on_connect` for the stream's
connection. A `pd_tcp_connect` that fails leaves it without one. -/
def callsAfter (s : Sid) (k : Option Nat) : Obs → Option Nat
  | .ctl (.tcp s') _ .add => if s' = s then some 0 else k
  | .opened s' _ | .abandoned s' _ => if s' = s then none else k
  | .cb (.onConnect s' _) _ => if s' = s then k.map (· + 1) else k
  | _ => k

/-- How often `on_connect` was called for the connection that the last `pd_tcp_connect` began. -/
def connectCalls (s : Sid) (log : List Obs) : Option Nat := log.foldl (callsAfter s) none

/-- What an entry does to whether the stream's connection was found hung up: its error was
fetched. -/
def hungUpAfter (s : Sid) (b : Bool) : Obs → Bool
  | .ctl (.tcp s') _ .add | .opened s' _ | .abandoned s' _ => if s' = s then false else b
  | .sockError s' _ => if s' = s then true else b
  | _ => b

/-- The connection that the last `pd_tcp_connect` began was found hung up. -/
def hungUp (s : Sid) (log : List Obs) : Bool := log.foldl (hungUpAfter s) false

/-- `on_connect` was called for a connection that was hung up. -/
def toldHungUp (s : Sid) (log : List Obs) : Bool :=
  hungUp s log && (connectCalls s log).any (0 < ·)

/-- What becomes of a connection. -/
inductive Fate where
  | established
  | failed (e : Nat) (he : 0 < e)

/-- What the kernel tells of a connection, in an event and in the answer of `getsockopt`, when its
`on_connect` was called `k` times. -/
def Fate.Tells (ev : Events) (r : SysRes) : Fate → Option Nat → Prop
  | .failed e _, some k =>
    (ev.pollout = true → ev.close = true) ∧
      (ev.close = true → r = .ok (if k = 0 then e else 0))
  | _, _ => True

/-- The stream waits for its connection, and its application to be told. -/
def Tcp.awaits (t : Tcp) : Bool := t.handler = some .connectIo && t.status ≠ .closed && t.onConnect

/-- The event that the library dispatches to the stream next. -/
def Cfg.event (c : Cfg) (s : Sid) : Option Events :=
  match c.stack with
  | .lib (.dispatch (.tcp s') ev) :: _ => if s' = s then some ev else none
  | _ => none

/-- The step is an event that `pd__tcp_connect_io` tells the application of. -/
def Act.reports (c : Cfg) (x : Act) (s : Sid) : Bool :=
  match x with
  | .lib _ => (c.event s).any fun ev => (c.world.tcp s).awaits && (ev.close || ev.pollout)
  | _ => false

/-- What the kernel tells a stream that waits is about the connection its last `pd_tcp_connect`
began, the one of this number. -/
def KernelTells (fate : Nat → Fate) (s : Sid) (c : Cfg) : Act → Prop
  | .lib a => ∀ ev ∈ c.event s, (c.world.tcp s).awaits = true →
      (fate (c.world.log.countP (isAddOf s))).Tells ev (a.sys 0) (connectCalls s c.world.log)
  | _ => True

/-- Once `on_connect` was called for a connection that was hung up, the stream is closed before
another event with a hang-up or with `POLLOUT` is dispatched to it. -/
def ClosesHungUp (s : Sid) (c : Cfg) : Act → Prop
  | .lib _ => ∀ ev ∈ c.event s, (ev.close || ev.pollout) = true →
      toldHungUp s c.world.log = true → (c.world.tcp s).status = .closed
  | _ => True

/-- `on_connect` is called at most once for a connection, and with status 0 only if it was
established. -/
def OnConnectOnce (fate : Nat → Fate) (s : Sid) (log : List Obs) : Prop :=
  Past (fun past o => ∀ st now, o = .cb (.onConnect s st) now →
    ∀ k ∈ connectCalls s past, k = 0 ∧ (st = 0 → fate (past.countP (isAddOf s)) = .established)) log

instance (ev : Events) (r : SysRes) : (f : Fate) → (k : Option Nat) → Decidable (f.Tells ev r k)
  | .failed _ _, some _ => inferInstanceAs (Decidable (_ ∧ _))
  | .failed _ _, none => .isTrue trivial
  | .established, _ => .isTrue trivial

instance (fate : Nat → Fate) (s : Sid) (c : Cfg) : (x : Act) → Decidable (KernelTells fate s c x)
  | .lib _ => inferInstanceAs (Decidable (∀ ev ∈ c.event s, _ → _))
  | .api _ _ => .isTrue trivial
  | .ret _ => .isTrue trivial
  | .env _ => .isTrue trivial

instance (s : Sid) (c : Cfg) : (x : Act) → Decidable (ClosesHungUp s c x)
  | .lib _ => inferInstanceAs (Decidable (∀ ev ∈ c.event s, _ → _))
  | .api _ _ => .isTrue trivial
  | .ret _ => .isTrue trivial
  | .env _ => .isTrue trivial

section
variable {s : Sid} {l m : List Obs} {k : Option Nat} {o : Obs}

/-- The entries that matter for the calls of `on_connect`. -/
def isConnectObs (s : Sid) : Obs → Bool
  | .ctl (.tcp s') _ .add | .opened s' _ | .abandoned s' _ | .sockError s' _
  | .cb (.onConnect s' _) _ => s' = s
  | _ => false

theorem isConnectObs_isStreamObs (ho : isConnectObs s o = true) : isStreamObs s o = true := by
  unfold isConnectObs at ho
  split at ho <;> simp_all [isStreamObs]

theorem callsAfter_idle (ho : isConnectObs s o = false) : callsAfter s k o = k := by
  unfold callsAfter
  split <;> simp_all [isConnectObs]

theorem hungUpAfter_idle {b : Bool} (ho : isConnectObs s o = false) : hungUpAfter s b o = b := by
  unfold hungUpAfter
  split <;> simp_all [isConnectObs]

theorem hungUp_append : hungUp s (l ++ m) = m.foldl (hungUpAfter s) (hungUp s l) :=
  List.foldl_append

theorem connectCalls_append : connectCalls s (l ++ m) = m.foldl (callsAfter s) (connectCalls s l) :=
  List.foldl_append

/-- What is about other streams does not matter. -/
theorem connectCalls_filter (l : List Obs) :
    connectCalls s (l.filter (isStreamObs s)) = connectCalls s l := by
  refine foldl_filter_idle (fun k o ho => callsAfter_idle ?_) none l
  by_contra h
  rw [isConnectObs_isStreamObs (by simpa using h)] at ho
  cases ho

theorem hungUp_filter (l : List Obs) : hungUp s (l.filter (isStreamObs s)) = hungUp s l := by
  refine foldl_filter_idle (fun b o ho => hungUpAfter_idle ?_) false l
  by_contra h
  rw [isConnectObs_isStreamObs (by simpa using h)] at ho
  cases ho

theorem toldHungUp_filter (l : List Obs) :
    toldHungUp s (l.filter (isStreamObs s)) = toldHungUp s l := by
  rw [toldHungUp, toldHungUp, hungUp_filter, connectCalls_filter]

end

/-! ## What the functions report -/

section
variable {s : Sid} {now : Nat} {v v' : StreamView} {new : List Item} {w : World} {a : Answer}

/-- The entry is a call of the stream's `on_connect`. -/
def isReport (s : Sid) : Obs → Bool
  | .cb (.onConnect s' _) _ => s' = s
  | _ => false

/-- **What `pd__tcp_connect_io` logs**: a call with the socket's error, if the stream is hung up;
one with 0, if it is writable; and no call, if the stream does not wait. -/
inductive Reports (s : Sid) (fd : Fd) (now : Nat) (ev : Events) (r : SysRes) : List Obs → Prop where
  | hungUp (st : Int) : ev.close = true → (∀ e, r = .ok e → st = World.pdErrmap e) →
      Reports s fd now ev r [.sockError s fd, .cb (.onConnect s st) now]
  | writable : ev.close = false → ev.pollout = true →
      Reports s fd now ev r [.ctl (.tcp s) fd .mod, .cb (.onConnect s 0) now]

theorem pd_tcpConnectIo_reports {ev : Events} (hw : (w.tcp s).awaits = true)
    (hev : (ev.close || ev.pollout) = true) : ∃ l, Reports s (w.tcp s).fd w.now ev (a.sys 0) l ∧
      (pd_tcpConnectIo w s ev a).1.log = w.log ++ l := by
  simp only [Tcp.awaits, Bool.and_eq_true, decide_eq_true_eq] at hw
  obtain ⟨⟨-, hst⟩, hcb⟩ := hw
  cases hc : ev.close with
  | true =>
    cases hr : a.sys 0 with
    | ok e =>
      refine ⟨_, .hungUp (World.pdErrmap e) hc fun e' he => ?_, ?_⟩
      · cases he
        rfl
      · simp [pd_tcpConnectIo, hst, hc, hcb, hr, World.call, World.logObs]
    | err e =>
      refine ⟨_, .hungUp (World.pdErrmap 0) hc fun e' he => ?_, ?_⟩
      · cases he
      · simp [pd_tcpConnectIo, hst, hc, hcb, hr, World.call, World.logObs]
  | false =>
    have ho : ev.pollout = true := by simpa [hc] using hev
    refine ⟨_, .writable hc ho, ?_⟩
    simp [pd_tcpConnectIo, hst, hc, ho, hcb, World.call, World.logObs, pd_eventSet, World.setTcp,
      World.setKernel, World.setErrno]

/-- A frame logs a call of `on_connect` only if it is an event of a stream that waits. -/
theorem StreamExec.reports {f : Frame} (h : StreamExec s now v f v' new) :
    (∃ l, v'.log = v.log ++ l ∧ ∀ o ∈ l, isReport s o = false) ∨
    v.tcp.handler = some .connectIo ∧ v.tcp.status ≠ .closed ∧ ∃ ev, f = .dispatch (.tcp s) ev := by
  cases h with
  | connectHungUp hh hst | connectFailed hh hst | connected hh hst | connectedCalled hh hst =>
    exact .inr ⟨hh, hst, _, rfl⟩
  | tryQueued =>
    left
    unfold StreamView.enqueue
    split
    · exact ⟨_, rfl, by simp [isReport]⟩
    · exact ⟨_, List.append_assoc .., by simp [isReport]⟩
  | _ =>
    left
    first
      | exact ⟨_, rfl, by simp [isReport]⟩
      | exact ⟨[], (List.append_nil _).symm, by simp⟩

/-- A call of the application logs none. -/
theorem StreamApi.reports {k : Call} (h : StreamApi s v k v' new) :
    ∃ l, v'.log = v.log ++ l ∧ ∀ o ∈ l, isReport s o = false := by
  cases h with
  | writeQueued =>
    unfold StreamView.enqueue
    split
    · exact ⟨_, rfl, by simp [isReport]⟩
    · exact ⟨_, List.append_assoc .., by simp [isReport]⟩
  | _ =>
    first
      | exact ⟨_, rfl, by simp [isReport]⟩
      | exact ⟨[], (List.append_nil _).symm, by simp⟩

/-- A stream that does not wait, or an event that says neither, is not reported. -/
theorem pd_tcpConnectIo_silent {ev : Events} (hh : (w.tcp s).handler = some .connectIo)
    (h : ((w.tcp s).awaits && (ev.close || ev.pollout)) = false) : ∃ l,
    (pd_tcpConnectIo w s ev a).1.log = w.log ++ l ∧ ∀ o ∈ l, isReport s o = false := by
  simp only [pd_tcpConnectIo]
  split
  · exact ⟨[], (List.append_nil _).symm, by simp⟩
  · rename_i hst
    split
    · rename_i hc
      split
      · rename_i hcb
        have hcb : (w.tcp s).onConnect = true := hcb
        simp [Tcp.awaits, hh, hst, hc, hcb] at h
      · exact ⟨_, rfl, by simp [isReport]⟩
    · split
      · rename_i ho
        split
        · rename_i hcb
          have hcb : (w.tcp s).onConnect = true := by
            simpa [pd_eventSet, World.logObs, World.setKernel, World.setErrno, World.setTcp] using hcb
          simp [Tcp.awaits, hh, hst, ho, hcb] at h
        · exact ⟨_, rfl, by simp [isReport]⟩
      · exact ⟨[], (List.append_nil _).symm, by simp⟩

end

/-! ## Runs -/

section
variable {fate : Nat → Fate} {s : Sid} {l m : List Obs} {c c' : Cfg} {x : Act}

theorem OnConnectOnce.append (h : OnConnectOnce fate s l) (hm : ∀ o ∈ m, isReport s o = false) :
    OnConnectOnce fate s (l ++ m) := by
  refine Past.append h fun l1 o l2 hl st now ho => ?_
  have := hm o (by simp [hl])
  simp [ho, isReport] at this

/-- A call that is the first for the connection, with what the kernel told. -/
theorem OnConnectOnce.report {fd : Fd} {now : Nat} {ev : Events} {r : SysRes}
    (h : OnConnectOnce fate s l) (hm : Reports s fd now ev r m)
    (hk : (fate (l.countP (isAddOf s))).Tells ev r (connectCalls s l))
    (hfirst : ∀ k ∈ connectCalls s l, k = 0) : OnConnectOnce fate s (l ++ m) := by
  have told : ∀ k ∈ connectCalls s l, ∀ st : Int,
      (ev.close = true → ∀ e, r = .ok e → st = World.pdErrmap e) →
      (ev.close = false → ev.pollout = true) → st = 0 →
      fate (l.countP (isAddOf s)) = .established := by
    intro k hmem st hst hout hzero
    cases hf : fate (l.countP (isAddOf s)) with
    | established => rfl
    | failed e he =>
      rw [hf, Option.mem_def.mp hmem, hfirst k hmem] at hk
      cases hc : ev.close with
      | true =>
        have := hst hc e (hk.2 hc)
        simp only [World.pdErrmap] at this
        omega
      | false =>
        rw [hk.1 (hout hc)] at hc
        cases hc
  cases hm with
  | @hungUp st hc hst =>
    refine Past.snoc₂ h (fun st' now' ho' => by cases ho') fun st' now' ho k hmem => ?_
    cases ho
    have hcalls : connectCalls s (l ++ [.sockError s fd]) = connectCalls s l := by
      rw [connectCalls_append]
      rfl
    have hadds : (l ++ [Obs.sockError s fd]).countP (isAddOf s) = l.countP (isAddOf s) := by
      simp [List.countP_append, isAddOf]
    rw [hcalls] at hmem
    rw [hadds]
    exact ⟨hfirst k hmem, told k hmem _ (fun _ => hst) (by simp [hc])⟩
  | writable hc ho =>
    refine Past.snoc₂ h (fun st' now' ho' => by cases ho') fun st' now' ho' k hmem => ?_
    cases ho'
    have hcalls : connectCalls s (l ++ [.ctl (.tcp s) fd .mod]) = connectCalls s l := by
      rw [connectCalls_append]
      rfl
    have hadds : (l ++ [Obs.ctl (.tcp s) fd .mod]).countP (isAddOf s) = l.countP (isAddOf s) := by
      simp [List.countP_append, isAddOf]
    rw [hcalls] at hmem
    rw [hadds]
    exact ⟨hfirst k hmem, told k hmem 0 (by simp [hc]) (fun _ => ho)⟩

theorem Reports.stream {fd : Fd} {now : Nat} {ev : Events} {r : SysRes}
    (h : Reports s fd now ev r m) : m.filter (isStreamObs s) = m := by
  cases h <;> simp [isStreamObs]

/-- The frame of an event of a stream that waits. -/
theorem exec_connect {w : World} {ev : Events} {a : Answer} {r : World × List Item}
    (hh : (w.tcp s).handler = some .connectIo) (h : exec w (.dispatch (.tcp s) ev) a = some r) :
    r = pd_tcpConnectIo w s ev a := by
  simp only [exec, dispatch, hh, Option.some.injEq] at h
  exact h.symm

/-- The runs in which the kernel keeps its word and streams that are hung up are closed. -/
def ConnectsSoundly (fate : Nat → Fate) (s : Sid) (c : Cfg) (x : Act) : Prop :=
  KernelTells fate s c x ∧ ClosesHungUp s c x

instance (fate : Nat → Fate) (s : Sid) (c : Cfg) (x : Act) :
    Decidable (ConnectsSoundly fate s c x) := inferInstanceAs (Decidable (_ ∧ _))

/-- What is known of a stream in such runs. One that was told of a success has been handed over,
and one that was told of a hang-up still waits. -/
structure ConnectView (s : Sid) (v : StreamView) : Prop where
  handedOver : ∀ k ∈ connectCalls s v.log, 0 < k →
    hungUp s v.log = true ∨ v.tcp.status = .closed ∨ v.tcp.handler = some .clientIo
  waits : hungUp s v.log = true → v.tcp.status = .closed ∨ connectCalls s v.log = none ∨
    v.tcp.onConnect = false ∧ connectCalls s v.log = some 0 ∨
    v.tcp.onConnect = true ∧ v.tcp.handler = some .connectIo ∧
      ∃ k ∈ connectCalls s v.log, 0 < k

section
variable {v v' : StreamView} {now : Nat} {new : List Item}

/-- Neither the connection nor what waits for it has changed. -/
theorem ConnectView.same (h : ConnectView s v) (hl : v'.log = v.log ++ m)
    (hm : ∀ o ∈ m, isConnectObs s o = false) (hh : v'.tcp.handler = v.tcp.handler)
    (hc : v'.tcp.onConnect = v.tcp.onConnect)
    (hst : v.tcp.status = .closed → v'.tcp.status = .closed) : ConnectView s v' := by
  have hcalls : connectCalls s v'.log = connectCalls s v.log := by
    rw [hl, connectCalls_append]
    exact foldl_idle fun o ho => callsAfter_idle (hm o ho)
  have hup : hungUp s v'.log = hungUp s v.log := by
    rw [hl, hungUp_append]
    exact foldl_idle fun o ho => hungUpAfter_idle (hm o ho)
  constructor
  · rw [hcalls, hup, hh]
    exact fun k hk hpos => (h.handedOver k hk hpos).imp_right (Or.imp_left hst)
  · rw [hcalls, hup, hh, hc]
    exact fun h' => (h.waits h').imp_left hst

/-- The stream's connection is a new one, or it has none. -/
theorem ConnectView.fresh (hup : hungUp s v.log = false) (hk : ∀ k ∈ connectCalls s v.log, k = 0) :
    ConnectView s v := by
  constructor
  · intro k hmem hpos
    have := hk k hmem
    omega
  · intro h
    simp [hup] at h

/-- **A frame keeps what is known**: an event of a hang-up leaves the stream waiting, one with
`POLLOUT` hands it over, and comes to no stream that was told of a hang-up. -/
theorem StreamExec.connectView {f : Frame} (h : StreamExec s now v f v' new)
    (hok : ∀ ev, f = .dispatch (.tcp s) ev → (ev.close || ev.pollout) = true →
      toldHungUp s v.log = true → v.tcp.status = .closed) (hv : ConnectView s v) :
    ConnectView s v' := by
  cases h with
  | connectHungUp hh hst hcb hc =>
    have hup : hungUp s (v.log ++ [.sockError s v.tcp.fd]) = true := by
      simp [hungUp_append, hungUpAfter]
    have hcalls : connectCalls s (v.log ++ [.sockError s v.tcp.fd]) = connectCalls s v.log := by
      rw [connectCalls_append]
      rfl
    refine ⟨fun _ _ _ => .inl hup, fun _ => ?_⟩
    rw [logs_log, hcalls]
    cases hk : connectCalls s v.log with
    | none => exact .inr (.inl rfl)
    | some k =>
      refine .inr (.inr (.inl ⟨hcb, ?_⟩))
      -- without an `on_connect` it was never called
      rcases Nat.eq_zero_or_pos k with rfl | hpos
      · rfl
      · have hbefore : hungUp s v.log = true := (hv.handedOver k hk hpos).resolve_right (by
          simp [hst, hh])
        rcases hv.waits hbefore with h | h | ⟨-, h⟩ | ⟨h, -⟩
        · exact absurd h hst
        · simp [hk] at h
        · rw [← hk, h]
        · simp [hcb] at h
  | @connectFailed ev st hh hst hcb hc =>
    have hup : hungUp s (v.log ++ [.sockError s v.tcp.fd, .cb (.onConnect s st) now]) = true := by
      simp [hungUp_append, hungUpAfter]
    have hcalls : connectCalls s (v.log ++ [.sockError s v.tcp.fd, .cb (.onConnect s st) now]) =
        (connectCalls s v.log).map (· + 1) := by
      simp [connectCalls_append, callsAfter]
    refine ⟨fun _ _ _ => .inl hup, fun _ => ?_⟩
    rw [logs_log, hcalls]
    cases connectCalls s v.log with
    | none => exact .inr (.inl rfl)
    | some k => exact .inr (.inr (.inr ⟨hcb, hh, k + 1, rfl, Nat.succ_pos k⟩))
  | connected hh hst hcb ho =>
    have hup : hungUp s (v.connected s).log = hungUp s v.log := by
      simp [StreamView.connected, hungUp_append, hungUpAfter]
    have hcalls : connectCalls s (v.connected s).log = connectCalls s v.log := by
      simp [StreamView.connected, connectCalls_append, callsAfter]
    refine ⟨fun _ _ _ => .inr (.inr rfl), fun h => ?_⟩
    rw [hcalls]
    rcases hv.waits (hup ▸ h) with h | h | h | ⟨h, -⟩
    · exact absurd h hst
    · exact .inr (.inl h)
    · exact .inr (.inr (.inl h))
    · simp [hcb] at h
  | @connectedCalled ev hh hst hcb ho =>
    have hup : hungUp s ((v.connected s).logs [.cb (.onConnect s 0) now]).log = hungUp s v.log := by
      simp [StreamView.connected, hungUp_append, hungUpAfter]
    have hcalls : connectCalls s ((v.connected s).logs [.cb (.onConnect s 0) now]).log =
        (connectCalls s v.log).map (· + 1) := by
      simp [StreamView.connected, connectCalls_append, callsAfter]
    refine ⟨fun _ _ _ => .inr (.inr rfl), fun h => ?_⟩
    rw [hcalls]
    rw [hup] at h
    rcases hv.waits h with hc | hc | ⟨hc, -⟩ | ⟨-, -, k, hk, hpos⟩
    · exact absurd hc hst
    · exact .inr (.inl (by rw [hc]; rfl))
    · simp [hcb] at hc
    · refine absurd (hok ev rfl (by simp [ho]) ?_) hst
      rw [toldHungUp, h, Option.mem_def.mp hk]
      simp [hpos]
  | tryQueued hst =>
    unfold StreamView.enqueue
    split
    · exact hv.same rfl (by simp [isConnectObs]) rfl rfl id
    · exact hv.same (List.append_assoc ..) (by simp [isConnectObs]) rfl rfl id
  | close | ioClose => exact hv.same rfl (by simp [isConnectObs]) rfl rfl fun _ => rfl
  | _ =>
    first
      | exact hv
      | exact hv.same rfl (by simp [isConnectObs]) rfl rfl id

/-- A call keeps it: one that opens the stream gives it a new connection. -/
theorem StreamApi.connectView {k : Call} (h : StreamApi s v k v' new) (hv : ConnectView s v) :
    ConnectView s v' := by
  cases h with
  | accept | connect | connectRefused =>
    apply ConnectView.fresh
    · simp [hungUp_append, hungUpAfter]
    · simp [connectCalls_append, callsAfter]
  | writeQueued hst =>
    unfold StreamView.enqueue
    split
    · exact hv.same rfl (by simp [isConnectObs]) rfl rfl id
    · exact hv.same (List.append_assoc ..) (by simp [isConnectObs]) rfl rfl id
  | close => exact hv.same rfl (by simp [isConnectObs]) rfl rfl fun _ => rfl
  | shut hst | shutLater hst =>
    exact hv.same rfl (by simp [isConnectObs]) rfl rfl fun h => by simp [h] at hst
  | setOnData | setOnClose => exact hv.same (List.append_nil _).symm (by simp) rfl rfl id
  | _ =>
    first
      | exact hv
      | exact hv.same rfl (by simp [isConnectObs]) rfl rfl id

end

theorem Cfg.event_dispatch {ev : Events} {rest : List Item}
    (h : c.stack = .lib (.dispatch (.tcp s) ev) :: rest) : c.event s = some ev := by
  simp [Cfg.event, h]

theorem ConnectView.step (h : ConnectView s (c.world.streamView s)) (hok : ClosesHungUp s c x)
    (hs : step c x = some c') : ConnectView s (c'.world.streamView s) := by
  rcases step_stream (s := s) hs with hv | ⟨a, f, rest, l, rfl, hst, -, he⟩ |
    ⟨k, a, cb, rest, l, rfl, hst, -, ha⟩
  · rw [hv]
    exact h
  · refine he.connectView ?_ h
    rintro ev rfl hev htold
    refine hok ev (Cfg.event_dispatch hst) hev ?_
    rwa [← toldHungUp_filter]
  · exact ha.connectView h

theorem Run.connectView (r : Run (ClosesHungUp s) c) : ConnectView s (c.world.streamView s) := by
  refine r.invariant (P := fun c => ConnectView s (c.world.streamView s)) ?_
    fun c x c' _ h hok hs => h.step hok hs
  rintro c ⟨k, fd, -, -, rfl⟩
  exact .fresh rfl (by simp [streamView, World.init, connectCalls])

/-- **A step keeps the reports right.** -/
theorem OnConnectOnce.step (h : OnConnectOnce fate s (c.world.streamView s).log)
    (hv : ConnectView s (c.world.streamView s)) (hk : KernelTells fate s c x)
    (hok : ClosesHungUp s c x) (hs : step c x = some c') :
    OnConnectOnce fate s (c'.world.streamView s).log := by
  rcases step_cases hs with ⟨a, f, rest, r, rfl, hst, hr, rfl⟩ |
    ⟨k, a, cb, rest, r, rfl, hst, hr, rfl⟩ | ⟨p, cb, rest, rfl, hst, hcb, rfl⟩ |
    ⟨e, w', rfl, he, rfl⟩
  · by_cases hf : f.stream = some s
    · rcases (exec_stream hf hr).reports with ⟨l, hl, hidle⟩ | ⟨hh, hne, ev, rfl⟩
      · rw [hl]
        exact h.append hidle
      · have hev : c.event s = some ev := Cfg.event_dispatch hst
        have hr' := exec_connect hh hr
        have hlog : ∀ l, (pd_tcpConnectIo c.world s ev a).1.log = c.world.log ++ l →
            (r.1.streamView s).log = (c.world.streamView s).log ++ l.filter (isStreamObs s) := by
          intro l hl
          show r.1.log.filter (isStreamObs s) = _
          rw [hr', hl, List.filter_append]
          rfl
        cases hrep : ((c.world.tcp s).awaits && (ev.close || ev.pollout)) with
        | true =>
          obtain ⟨haw, hev'⟩ := Bool.and_eq_true_iff.mp hrep
          obtain ⟨l, hl, hw⟩ := pd_tcpConnectIo_reports (a := a) haw hev'
          rw [hlog l hw, hl.stream]
          refine h.report hl ?_ fun k hmem => ?_
          · have := hk ev hev haw
            rwa [← connectCalls_filter, ← countP_stream fun _ => isAddOf_isCustodyObs] at this
          · -- a second call would be of a stream that was told of a hang-up and is not closed
            rcases Nat.eq_zero_or_pos k with hzero | hpos
            · exact hzero
            · have hup : hungUp s (c.world.streamView s).log = true :=
                (hv.handedOver k hmem hpos).resolve_right (by
                  rintro (h | h)
                  · exact hne h
                  · exact absurd (hh.symm.trans h) (by decide))
              refine absurd (hok ev hev hev' ?_) hne
              rw [← toldHungUp_filter]
              show (hungUp s (c.world.streamView s).log &&
                (connectCalls s (c.world.streamView s).log).any _) = true
              rw [hup, Option.mem_def.mp hmem]
              simp [hpos]
        | false =>
          obtain ⟨l, hw, hidle⟩ := pd_tcpConnectIo_silent (a := a) hh hrep
          rw [hlog l hw]
          exact h.append fun o ho => hidle o (List.mem_filter.mp ho).1
    · rw [exec_streamView hf hr]
      exact h
  · by_cases hks : k.stream = some s
    · obtain ⟨l, hl, hidle⟩ := (api_stream hks hr).reports
      rw [hl]
      exact h.append hidle
    · rw [api_streamView hks hr]
      exact h
  · exact h
  · rw [env_streamView he]
    exact h

theorem Run.connectsOnce (r : Run (ConnectsSoundly fate s) c) :
    OnConnectOnce fate s c.world.log := by
  have h : OnConnectOnce fate s (c.world.streamView s).log := by
    refine r.invariant (P := fun c => OnConnectOnce fate s (c.world.streamView s).log) ?_
      fun c x c' r h hok hs => h.step (Run.connectView (r.mono fun _ _ h => h.2)) hok.1 hok.2 hs
    rintro c ⟨k, fd, -, -, rfl⟩
    exact Past.nil
  refine (Past.of_filter h).mono fun past o hp st now ho k hmem => ?_
  have := hp (by simp [ho, isStreamObs]) st now ho k (by rwa [connectCalls_filter])
  rwa [countP_stream fun _ => isAddOf_isCustodyObs] at this

theorem Cfg.event_stack {ev : Events} (h : c.event s = some ev) :
    ∃ rest, c.stack = .lib (.dispatch (.tcp s) ev) :: rest := by
  unfold Cfg.event at h
  split at h
  · rename_i s' ev' rest hst
    split at h <;> cases h
    rename_i hs
    exact ⟨rest, hs ▸ hst⟩
  · cases h

/-- A step that reports logs the call. -/
theorem step_reports (hx : x.reports c s = true) (hs : step c x = some c') :
    ∃ ev a l, Reports s (c.world.tcp s).fd c.world.now ev (Answer.sys a 0) l ∧
      c'.world.log = c.world.log ++ l := by
  rcases step_cases hs with ⟨a, f, rest, r, rfl, hst, hr, rfl⟩ |
    ⟨k, a, cb, rest, r, rfl, hst, hr, rfl⟩ | ⟨p, cb, rest, rfl, hst, hcb, rfl⟩ |
    ⟨e, w', rfl, he, rfl⟩
  · simp only [Act.reports] at hx
    cases hev : c.event s with
    | none => simp [hev] at hx
    | some ev =>
      rw [hev, Option.any_some, Bool.and_eq_true] at hx
      obtain ⟨rest', hst'⟩ := Cfg.event_stack hev
      rw [hst'] at hst
      cases hst
      have hh : (c.world.tcp s).handler = some .connectIo := by
        have := hx.1
        simp only [Tcp.awaits, Bool.and_eq_true, decide_eq_true_eq] at this
        exact this.1.1
      obtain ⟨l, hl, hw⟩ := pd_tcpConnectIo_reports (a := a) hx.1 hx.2
      exact ⟨ev, a, l, hl, by rw [exec_connect hh hr, hw]⟩
  all_goals cases hx

/-- An event with a hang-up or `POLLOUT` of a stream that was told of a hang-up and is not closed is
told again. -/
theorem told_again (r : Run (ClosesHungUp s) c) (hx : ¬ ClosesHungUp s c x) :
    x.reports c s = true ∧ ∃ k ∈ connectCalls s c.world.log, 0 < k := by
  cases x with
  | lib a =>
    simp only [ClosesHungUp, not_forall] at hx
    obtain ⟨ev, hev, hio, htold, hst⟩ := hx
    rw [toldHungUp, Bool.and_eq_true] at htold
    obtain ⟨hup, hcalls⟩ := htold
    cases hk : connectCalls s c.world.log with
    | none => simp [hk] at hcalls
    | some k =>
      have hpos : 0 < k := by simpa [hk] using hcalls
      refine ⟨?_, k, rfl, hpos⟩
      have hwait := (Run.connectView r).waits (by rwa [streamView, hungUp_filter])
      rw [streamView, connectCalls_filter, hk] at hwait
      rcases hwait with h | h | ⟨-, h⟩ | ⟨hcb, hh, -⟩
      · exact absurd h hst
      · cases h
      · cases h
        omega
      · have haw : (c.world.tcp s).awaits = true := by
          simpa [Tcp.awaits, hst] using And.intro hh hcb
        simp only [Act.reports, Option.mem_def.mp hev, Option.any_some, haw, hio, Bool.and_self]
  | _ => exact absurd trivial hx

/-- **`on_connect` is called once for a connection, and with 0 only if it was established**, in a run
in which a stream is closed, once it was told of a hang-up, before an event reaches it again; and
the first step at which it is not is one after which this fails. A stream that was told of a
success has been handed over. -/
theorem connects_once_iff (r : Run (ConnectsSoundly fate s) c) :
    OnConnectOnce fate s c.world.log ∧
    (∀ k ∈ connectCalls s c.world.log, 0 < k → hungUp s c.world.log = true ∨
      (c.world.tcp s).status = .closed ∨ (c.world.tcp s).handler = some .clientIo) ∧
    ∀ x c', step c x = some c' → KernelTells fate s c x →
      (ClosesHungUp s c x ↔ OnConnectOnce fate s c'.world.log) := by
  have rc : Run (ClosesHungUp s) c := r.mono fun _ _ h => h.2
  refine ⟨r.connectsOnce, ?_, fun x c' hs hk =>
    ⟨fun hok => Run.connectsOnce (r.step ⟨hk, hok⟩ hs), fun h => ?_⟩⟩
  · intro k hk hpos
    have := (Run.connectView rc).handedOver k (by rwa [streamView, connectCalls_filter]) hpos
    rwa [streamView, hungUp_filter] at this
  by_contra hx
  obtain ⟨hrep, k, hmem, hpos⟩ := told_again rc hx
  obtain ⟨ev, a, l, hl, hlog⟩ := step_reports hrep hs
  rw [hlog] at h
  have hzero : k = 0 := by
    cases hl with
    | @hungUp st _ _ =>
      refine (h (c.world.log ++ [.sockError s (c.world.tcp s).fd])
        (.cb (.onConnect s st) c.world.now) [] (by simp) st c.world.now rfl k ?_).1
      rw [connectCalls_append]
      exact hmem
    | writable _ _ =>
      refine (h (c.world.log ++ [.ctl (.tcp s) (c.world.tcp s).fd .mod])
        (.cb (.onConnect s 0) c.world.now) [] (by simp) 0 c.world.now rfl k ?_).1
      rw [connectCalls_append]
      exact hmem
  omega

/-- Every connection is refused. -/
def refused : Nat → Fate := fun _ => .failed 111 (by decide)

/-- `pd_tcp_connect`, a round of the loop in which the connection is hung up, and its event. -/
def refusedConnect : List Act :=
  [.api (.tcpConnect 0 true) (.failsAt 5 4 EINPROGRESS (by decide)), .api .ioRun (.ok 0 []),
    .lib (.ok 0 [(5, ⟨true, true, true, true, false⟩)]), .lib (.ok 111 [])]

/-- The stream is closed in `on_connect`. -/
theorem connects_once_refused : ∃ c, Run (ConnectsSoundly refused 0) c ∧
    .cb (.onConnect 0 (-111)) 0 ∈ c.world.log ∧ (c.world.tcp 0).status = .closed ∧
    OnConnectOnce refused 0 c.world.log := by
  have hplay : ∃ c, Run (ConnectsSoundly refused 0) c ∧ .cb (.onConnect 0 (-111)) 0 ∈ c.world.log ∧
      (c.world.tcp 0).status = .closed := by
    have r : Run (ConnectsSoundly refused 0) _ := Run.play (Cfg.start_init [])
      (refusedConnect ++ [.api (.tcpClose 0) (.ok 0 []), .lib (.ok 0 []), .ret none]) rfl
    exact ⟨_, r, by decide, rfl⟩
  obtain ⟨c, r, hcb, hst⟩ := hplay
  exact ⟨c, r, hcb, hst, (connects_once_iff r).1⟩

/-- It is not, and the next round brings the hang-up again: `on_connect` is called a second time,
and told that the refused connection is established. -/
theorem not_connects_once : (∃ c, Run (KernelTells refused 0) c ∧
      .cb (.onConnect 0 (-111)) 0 ∈ c.world.log ∧ .cb (.onConnect 0 0) 0 ∈ c.world.log) ∧
    ¬ ∀ fate s c, Run (KernelTells fate s) c → OnConnectOnce fate s c.world.log := by
  have hplay : ∃ c, Run (KernelTells refused 0) c ∧ .cb (.onConnect 0 (-111)) 0 ∈ c.world.log ∧
      c.world.log = c.world.log.dropLast ++ [.cb (.onConnect 0 0) 0] ∧
      connectCalls 0 c.world.log.dropLast = some 1 := by
    have r : Run (KernelTells refused 0) _ := Run.play (Cfg.start_init [])
      (refusedConnect ++ [.ret none, .lib (.ok 0 []), .lib (.ok 0 []), .lib (.ok 0 []),
        .lib (.ok 0 []), .lib (.ok 0 [(5, ⟨true, true, false, true, false⟩)]), .lib (.ok 0 [])]) rfl
    exact ⟨_, r, by decide, rfl, rfl⟩
  obtain ⟨c, r, hcb, hlast, hcalls⟩ := hplay
  refine ⟨⟨c, r, hcb, ?_⟩, fun h => ?_⟩
  · rw [hlast]
    simp
  · have := (h refused 0 c r _ _ [] hlast 0 0 rfl 1 hcalls).1
    cases this

end

end Pandio
