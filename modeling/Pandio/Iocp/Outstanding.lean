import Pandio.Iocp.Ledger

/- Receives of a stream that the application reads from: as long as every `WSARecv`
   of the stream is pending, one is outstanding whenever no handler of the stream is
   under way. `pd__tcp_post_recv` posts no other receive after one that succeeds at
   once, and the run that shows it follows. -/
namespace Pandio.Iocp
open Pandio.Iocp.World

/-! ## Streams that are read from -/

/-- Whether the stream is read from after this entry of the log. -/
def wantsAfter (s : Sid) (b : Bool) : Obs → Bool
  | .accepted s' | .connected s' | .resumed s' => s' = s || b
  | .paused s' => s' ≠ s && b
  | _ => b

/-- The stream was accepted, connected or resumed, and not paused since. -/
def World.wants (w : World) (s : Sid) : Bool := w.log.foldl (wantsAfter s) false

def View.wants (v : View) (s : Sid) : Bool := v.log.foldl (wantsAfter s) false

theorem wantsAfter_of_not_isObs {s : Sid} {b : Bool} {o : Obs} (h : isObs s o = false) :
    wantsAfter s b o = b := by
  cases o <;> simp_all [isObs, wantsAfter]

theorem view_wants (w : World) (s : Sid) : (w.view s).wants s = w.wants s := by
  have hfold : ∀ (l : List Obs) (b : Bool),
      (l.filter (isObs s)).foldl (wantsAfter s) b = l.foldl (wantsAfter s) b := by
    intro l
    induction l with
    | nil => exact fun _ => rfl
    | cons o l ih =>
      intro b
      cases ho : isObs s o with
      | true => simp [ho, ih]
      | false => simp [ho, ih, wantsAfter_of_not_isObs ho]
  exact hfold w.log false

theorem logs_wants (v : View) (s : Sid) (l : List Obs) :
    (v.logs l).wants s = l.foldl (wantsAfter s) (v.wants s) := by
  simp [View.wants, View.logs]

/-! ## Counting -/

/-- The receives of the view, with the packets on the stack. -/
def View.recvs (v : View) (ps : List Packet) : Nat :=
  v.sock.recvCount + (ps ++ v.port).countP Packet.isRecv

section
variable {v v' : View} {s : Sid} {ps : List Packet}

theorem recvs_eq (c : Cfg) : c.recvs s = (c.world.view s).recvs (packetsOf s c.stack) := rfl

@[simp] theorem logs_recvs (l : List Obs) : (v.logs l).recvs ps = v.recvs ps := rfl

@[simp] theorem setTcp_recvs (t : Tcp) : (v.setTcp t).recvs ps = v.recvs ps := rfl

@[simp] theorem setFlags_recvs (f : StreamFlags) : (v.setFlags f).recvs ps = v.recvs ps := rfl

@[simp] theorem setStatus_recvs (st : TcpStatus) : (v.setStatus st).recvs ps = v.recvs ps := rfl

@[simp] theorem cancelIoEx_recvs : (v.cancelIoEx s).recvs ps = v.recvs ps := by
  show ((v.cancelIoEx s).ledger s ps []).recvs = (v.ledger s ps []).recvs
  rw [cancelIoEx_ledger]

@[simp] theorem cancelIo_recvs : (v.cancelIo s).recvs ps = v.recvs ps := by
  show ((v.cancelIo s).ledger s ps []).recvs = (v.ledger s ps []).recvs
  rw [cancelIo_ledger]

@[simp] theorem tryClose_recvs : (v.tryClose s).recvs ps = v.recvs ps := by
  show ((v.tryClose s).ledger s ps []).recvs = (v.ledger s ps []).recvs
  rw [tryClose_ledger, Ledger.tryClose]
  split <;> rfl

@[simp] theorem close_recvs : (v.close s).recvs ps = v.recvs ps := by
  unfold View.close
  split
  · rfl
  · rw [tryClose_recvs]
    show ((v.cancel s).ledger s ps []).recvs = (v.ledger s ps []).recvs
    rw [cancel_ledger]

@[simp] theorem sent_recvs : (v.sent s).recvs ps = v.recvs ps := by
  show ((v.sent s).ledger s ps []).recvs = (v.ledger s ps []).recvs
  rw [sent_ledger]

theorem EnvStep.recvs (h : EnvStep s v v') : v'.recvs ps = v.recvs ps := by
  show (v'.ledger s ps []).recvs = (v.ledger s ps []).recvs
  rw [h.ledger]

theorem EnvStep.tcp (h : EnvStep s v v') : v'.tcp = v.tcp := by
  cases h <;> rfl

theorem EnvStep.log (h : EnvStep s v v') : v'.log = v.log := by
  cases h <;> rfl

end

/-! ## Closing clears the flags -/

section
variable {v : View} {s : Sid}

theorem tryClose_tcp : (v.tryClose s).tcp = v.tcp := by
  unfold View.tryClose
  split <;> rfl

theorem close_status : (v.close s).tcp.status = .closed := by
  unfold View.close
  split
  · assumption
  · rw [tryClose_tcp]
    show (ite _ _ _ : View).tcp.status = _
    split <;> split <;> rfl

theorem sent_flags : (v.sent s).tcp.flags.reading = v.tcp.flags.reading ∧
    (v.sent s).tcp.flags.pendingRead = v.tcp.flags.pendingRead := by
  simp only [View.sent]
  split
  · split <;> exact ⟨rfl, rfl⟩
  · exact ⟨rfl, rfl⟩

end

/-! ## The condition -/

/-- A receive that is posted on the stream has a buffer and is pending. -/
def RecvPosted (s : Sid) (c : Cfg) (x : Act) : Prop :=
  match x, c.stack with
  | .lib a, .lib (.postRecv s') :: _ => s' = s →
    c.world.ptr ≠ none ∧ (c.world.sock s).recvRes allocSize (a.sys 0) = .pending
  | _, _ => True

instance (s : Sid) : (c : Cfg) → (x : Act) → Decidable (RecvPosted s c x)
  | ⟨_, .lib (.postRecv _) :: _⟩, .lib _ => inferInstanceAs (Decidable (_ → _ ∧ _))
  | ⟨_, []⟩, .lib _ | ⟨_, .app _ :: _⟩, .lib _ => .isTrue trivial
  | ⟨_, .lib (.readIoRest _) :: _⟩, .lib _ | ⟨_, .lib (.writeIoRest _) :: _⟩, .lib _
  | ⟨_, .lib (.connectIoRest _) :: _⟩, .lib _ | ⟨_, .lib (.dispatch _) :: _⟩, .lib _
  | ⟨_, .lib .timersRun :: _⟩, .lib _ | ⟨_, .lib .pendingClose :: _⟩, .lib _
  | ⟨_, .lib (.pendingCloseDec _) :: _⟩, .lib _ | ⟨_, .lib .ioRun :: _⟩, .lib _
  | ⟨_, .lib .ioAfterTick :: _⟩, .lib _ | ⟨_, .lib .ioNext :: _⟩, .lib _ => .isTrue trivial
  | _, .api _ _ | _, .ret _ | _, .env _ => .isTrue trivial

/-- `pd__tcp_post_recv` then ends without a call. -/
theorem step_posted {c c' : Cfg} {s : Sid} {a : Answer} {rest : List Item}
    (hs : step c (.lib a) = some c') (hst : c.stack = .lib (.postRecv s) :: rest)
    (hok : RecvPosted s c (.lib a)) : c'.stack = rest := by
  obtain ⟨w, stack⟩ := c
  obtain rfl : stack = _ := hst
  obtain ⟨hp, hr⟩ := hok rfl
  obtain ⟨r, he, rfl⟩ := Option.map_eq_some_iff.mp hs
  simp only [exec, postRecv] at he
  split at he
  · rename_i hnone
    exact absurd hnone hp
  · have hk : ((w.setTcp s { w.tcp s with readBuf := w.ptr }).sock s) = w.sock s := rfl
    rw [hk, hr] at he
    cases he
    rfl

/-! ## The stack -/

/-- `pd__tcp_connect_io` waits for `pd__tcp_post_recv`, or goes on. -/
def Tight (s : Sid) : List Item → Prop
  | [] => True
  | i :: rest => (rest.head? = some (.lib (.connectIoRest s)) → i = .lib (.postRecv s)) ∧
    Tight s rest

section
variable {s : Sid} {l rest : List Item}

theorem Tight.of_forall (h : .lib (.connectIoRest s) ∉ l) : Tight s l := by
  induction l with
  | nil => trivial
  | cons i l ih =>
    refine ⟨fun hh => ?_, ih fun hm => h (List.mem_cons_of_mem _ hm)⟩
    exact absurd (List.mem_cons_of_mem _ (List.mem_of_mem_head? hh)) h

/-- Items are put on top of something else. -/
theorem Tight.append (hl : Tight s l) (hr : Tight s rest)
    (hb : rest.head? ≠ some (.lib (.connectIoRest s))) : Tight s (l ++ rest) := by
  induction l with
  | nil => exact hr
  | cons i l ih =>
    refine ⟨fun hh => ?_, ih hl.2⟩
    cases l with
    | nil => exact absurd hh hb
    | cons j l => exact hl.1 hh

theorem LibStep.tight {v v' : View} {f : Frame} (h : LibStep s v f v' l) :
    Tight s l ∧ l.head? ≠ some (.lib (.connectIoRest s)) := by
  cases h <;> simp [Tight]

theorem ApiStep.tight {v v' : View} {a : Answer} {k : Call} (h : ApiStep s v a k v' l) :
    Tight s l ∧ l.head? ≠ some (.lib (.connectIoRest s)) := by
  cases h <;> simp [Tight]

end

/-! ## Steps -/

/-- What a stream that is read from has to show for it: the flag, and for the flag a receive, or a
function that will post one. -/
structure View.Armed (v : View) (s : Sid) (recvs : Nat) (fs : List Frame) : Prop where
  pending : v.tcp.flags.pendingRead = true → 0 < recvs
  wants : v.tcp.status ≠ .closed → v.wants s = true →
    v.tcp.flags.reading = true ∨ .postRecv s ∈ fs
  reading : v.tcp.status ≠ .closed → v.tcp.flags.reading = true →
    v.tcp.flags.pendingRead = true ∨ .readIoRest s ∈ fs ∨ .postRecv s ∈ fs

section
variable {v v' : View} {s : Sid} {n n' : Nat} {fs fs' : List Frame}

/-- A closed stream is not read from. -/
theorem View.Armed.of_closed (hst : v.tcp.status = .closed)
    (hp : v.tcp.flags.pendingRead = true → 0 < n) : v.Armed s n fs :=
  ⟨hp, fun h => absurd hst h, fun h => absurd hst h⟩

/-- A function that will post a receive is on the stack. -/
theorem View.Armed.of_postRecv (hp : v.tcp.flags.pendingRead = true → 0 < n)
    (hf : .postRecv s ∈ fs) : v.Armed s n fs :=
  ⟨hp, fun _ _ => .inr hf, fun _ _ => .inr (.inr hf)⟩

/-- The flags and what the application wants stay, and functions come to the stack. -/
theorem View.Armed.mono (h : v.Armed s n fs) (hst : v'.tcp.status = v.tcp.status)
    (hr : v'.tcp.flags.reading = v.tcp.flags.reading)
    (hp : v'.tcp.flags.pendingRead = v.tcp.flags.pendingRead) (hw : v'.wants s = v.wants s)
    (hn : n' = n) (hf : ∀ f ∈ fs, f = .postRecv s ∨ f = .readIoRest s → f ∈ fs') :
    v'.Armed s n' fs' := by
  refine ⟨?_, ?_, ?_⟩
  · rw [hp, hn]
    exact h.pending
  · rw [hst, hw, hr]
    intro hc hw
    rcases h.wants hc hw with h | h
    · exact .inl h
    · exact .inr (hf _ h (.inl rfl))
  · rw [hst, hr, hp]
    intro hc hr
    rcases h.reading hc hr with h | h | h
    · exact .inl h
    · exact .inr (.inl (hf _ h (.inr rfl)))
    · exact .inr (.inr (hf _ h (.inl rfl)))

theorem logs_wants_same {l : List Obs} (h : ∀ o ∈ l, ∀ b, wantsAfter s b o = b) :
    (v.logs l).wants s = v.wants s := by
  rw [logs_wants]
  generalize v.wants s = b
  induction l with
  | nil => rfl
  | cons o l ih =>
    rw [List.foldl_cons, h o (List.mem_cons_self ..)]
    exact ih fun o' ho' => h o' (List.mem_cons_of_mem _ ho')

end

section
variable {v v' : View} {s : Sid} {rest l : List Item}

theorem sent_wants : (v.sent s).wants s = v.wants s := by
  simp only [View.sent]
  split
  · split
    · exact logs_wants_same (by simp [wantsAfter])
    · rfl
  · rfl

/-- **What a frame that works for the stream does to it**, if receives are pending. -/
theorem LibStep.armed {f : Frame} (h : LibStep s v f v' l) (hpost : f = .postRecv s → l = [])
    (htop : f = .connectIoRest s →
      v.tcp.flags.reading = true ∧ v.tcp.flags.pendingRead = true)
    (ha : v.Armed s (v.recvs (packetsOf s (.lib f :: rest))) (framesOf s (.lib f :: rest))) :
    v'.Armed s (v'.recvs (packetsOf s (l ++ rest))) (framesOf s (l ++ rest)) := by
  have hwrite : ∀ f ∈ framesOf s rest, f = .postRecv s ∨ f = .readIoRest s →
      f ∈ framesOf s (.lib (.writeIoRest s) :: rest) := by
    intro f hf _
    simp [framesOf, Frame.stream, hf]
  cases h with
  | noBuffer _ | recvAtOnce _ _ _ _ | recvError _ => cases hpost rfl
  | @posted buf _ _ =>
    -- the receive that was just posted
    have hn : 0 < (v.post s buf).recvs (packetsOf s ([] ++ rest)) := by
      simp only [View.post, View.recvs, View.setSock, View.logs, Sock.recvCount,
        List.length_append, List.length_singleton]
      omega
    exact ⟨fun _ => hn, fun _ _ => .inl rfl, fun _ _ => .inl rfl⟩
  | @readData r bytes _ _ =>
    have hf : .readIoRest s ∈ framesOf s ([.app (.onData s v.tcp.readBuf r.bytes.length bytes),
        .lib (.readIoRest s)] ++ rest) := by simp [framesOf, Frame.stream]
    refine ⟨fun hp => (by cases hp), fun hc hw => ?_, fun _ _ => .inr (.inl hf)⟩
    have hw : v.wants s = true := by
      rw [logs_wants_same (by simp [wantsAfter]), View.took,
        logs_wants_same (by simp [wantsAfter])] at hw
      exact hw
    rcases ha.wants hc hw with h | h
    · exact .inl h
    · have h : .postRecv s ∈ framesOf s rest := h
      right
      simp [framesOf, Frame.stream, h]
  | @readNothing r _ =>
    refine .of_closed close_status fun hp => ?_
    -- `pd__tcp_read_io` has cleared the flag, and closing leaves it
    have hp : ((v.took s r).close s).tcp.flags.pendingRead = false := by
      unfold View.close
      split
      · rfl
      · rw [tryClose_tcp]
        show (ite _ _ _ : View).tcp.flags.pendingRead = false
        split <;> split <;> rfl
    simp_all
  | readClosed hc =>
    refine .of_closed (by rw [tryClose_tcp]; exact hc) ?_
    rw [tryClose_tcp, tryClose_recvs]
    exact ha.pending
  | readAgain _ _ =>
    exact .of_postRecv ha.pending (by simp [framesOf, Frame.stream])
  | readPaused hc hr =>
    refine ⟨ha.pending, fun hc hw => ?_, fun _ h => absurd (hr.symm.trans h) (by simp)⟩
    rcases ha.wants hc hw with h | h
    · exact .inl h
    · right
      simpa [framesOf, Frame.stream] using h
  | wrote =>
    exact ha.mono rfl rfl rfl (logs_wants_same (by simp [wantsAfter])) (by
      simp [View.recvs, View.logs, packetsOf, Packet.isRecv, Packet.stream]) hwrite
  | wroteUncalled =>
    exact ha.mono rfl rfl rfl rfl (by
      simp [View.recvs, packetsOf, Packet.isRecv, Packet.stream]) hwrite
  | writeClosed hc =>
    refine .of_closed (by rw [tryClose_tcp, sent_status]; exact hc) ?_
    rw [tryClose_tcp, tryClose_recvs, sent_flags.2, sent_recvs]
    exact ha.pending
  | writeRest _ =>
    refine ha.mono (sent_status _) sent_flags.1 sent_flags.2 sent_wants sent_recvs ?_
    intro f hf hk
    rcases hk with rfl | rfl <;> simpa [framesOf, Frame.stream] using hf
  | connected =>
    refine .of_postRecv (fun hp => ?_) (by simp [framesOf, Frame.stream])
    have hn := ha.pending hp
    simpa [View.recvs, View.logs, packetsOf, Packet.isRecv, Packet.stream] using hn
  | connectFailed _ =>
    exact ha.mono rfl rfl rfl (logs_wants_same (by simp [wantsAfter])) (by
      simp [View.recvs, View.logs, packetsOf, Packet.isRecv, Packet.stream]) fun f hf _ => hf
  | connectFailedUncalled _ =>
    exact ha.mono rfl rfl rfl rfl (by
      simp [View.recvs, packetsOf, Packet.isRecv, Packet.stream]) fun f hf _ => hf
  | connectRest | connectRestUncalled =>
    -- `pd__tcp_post_recv` was called before `on_connect`
    obtain ⟨hr, hp⟩ := htop rfl
    exact ⟨fun _ => ha.pending hp, fun _ _ => .inl hr, fun _ _ => .inl hp⟩

/-- What a call does. -/
theorem ApiStep.armed {a : Answer} {k : Call} {stack : List Item} (h : ApiStep s v a k v' l)
    (ha : v.Armed s (v.recvs (packetsOf s stack)) (framesOf s stack)) :
    v'.Armed s (v'.recvs (packetsOf s (l ++ stack))) (framesOf s (l ++ stack)) := by
  have hmem : ∀ f ∈ framesOf s stack, f = .postRecv s ∨ f = .readIoRest s →
      f ∈ framesOf s stack := fun f hf _ => hf
  -- the receives of a socket that is replaced stay outstanding
  have hnew : ∀ (t : Tcp) (k : Sock), k.recvs = [] →
      ((v.setTcp t).setSock (v.sock.replaced k)).recvs (packetsOf s stack) =
        v.recvs (packetsOf s stack) := by
    intro t k hk
    have hcount := (replaced_counts v.sock k).1
    rw [hk] at hcount
    simp only [View.recvs, View.setSock, View.setTcp, hcount]
    rfl
  cases h with
  | accept =>
    refine .of_postRecv (fun hp => ?_) (by simp [framesOf, Frame.stream])
    have hn := ha.pending hp
    rw [← hnew { v.tcp with status := .active, hasFd := true } (.opened true) rfl] at hn
    exact hn
  | connectNothing => exact ha
  | @connect b k hkind =>
    refine ha.mono rfl rfl rfl rfl (hnew _ k ?_) hmem
    rcases hkind with ⟨_, rfl⟩ | ⟨x, rfl⟩
    · rfl
    · unfold connectSock
      split <;> rfl
  | writeRefused _ | write _ _ =>
    exact ha.mono rfl rfl rfl (logs_wants_same (by simp [wantsAfter])) rfl hmem
  | writePending _ _ =>
    exact ha.mono rfl rfl rfl (logs_wants_same (by simp [wantsAfter])) rfl hmem
  | close =>
    by_cases hc : v.tcp.status = .closed
    · rw [View.close, if_pos (show (v.logs [.close s]).tcp.status = .closed from hc)]
      exact .of_closed hc ha.pending
    · refine .of_closed close_status ?_
      rw [close_recvs, logs_recvs]
      intro hp
      apply ha.pending
      rw [View.close, if_neg (show (v.logs [.close s]).tcp.status ≠ .closed from hc),
        tryClose_tcp] at hp
      have hflag : ((v.logs [.close s]).cancel s).tcp.flags.pendingRead =
          v.tcp.flags.pendingRead := by
        show (ite _ _ _ : View).tcp.flags.pendingRead = _
        split <;> split <;> rfl
      rw [← hflag]
      exact hp
  | shutNothing _ => exact ha
  | shut hst hl =>
    have hne : v.tcp.status ≠ .closed := by rw [hst]; simp
    refine ⟨ha.pending, fun _ hw => ha.wants hne ?_, fun _ => ha.reading hne⟩
    rw [← hw, logs_wants_same (by rcases hl with rfl | rfl <;> simp [wantsAfter])]
    rfl
  | pause _ =>
    refine ⟨ha.pending, fun _ hw => ?_, fun _ h => by cases h⟩
    rw [logs_wants] at hw
    simp [wantsAfter] at hw
  | pauseCancel _ =>
    refine ⟨fun h => ?_, fun _ hw => ?_, fun _ h => by cases h⟩
    · rw [cancelIoEx_recvs]
      exact ha.pending h
    · have hw : ((v.setFlags { v.tcp.flags with reading := false }).logs [.paused s]).wants s =
          true := hw
      rw [logs_wants] at hw
      simp [wantsAfter] at hw
  | resume hp => exact ⟨ha.pending, fun _ _ => .inl rfl, fun _ _ => .inl hp⟩
  | resumePost _ => exact .of_postRecv ha.pending (by simp [framesOf, Frame.stream])
  | setOnData | setOnClose => exact ⟨ha.pending, ha.wants, ha.reading⟩

end

/-! ## Runs -/

structure Armed (c : Cfg) (s : Sid) : Prop where
  view : (c.world.view s).Armed s (c.recvs s) (framesOf s c.stack)
  tight : Tight s c.stack
  /-- `pd__tcp_post_recv` has posted the receive of a new connection. -/
  top : c.stack.head? = some (.lib (.connectIoRest s)) →
    (c.world.view s).tcp.flags.reading = true ∧ (c.world.view s).tcp.flags.pendingRead = true

section
variable {c c' : Cfg} {x : Act} {s : Sid}

theorem Quiet.armed (h : Quiet s c c')
    (ha : (c.world.view s).Armed s (c.recvs s) (framesOf s c.stack)) :
    (c'.world.view s).Armed s (c'.recvs s) (framesOf s c'.stack) := by
  have hn : c'.recvs s = c.recvs s := congrArg Ledger.recvs h.ledger
  refine ha.mono ?_ ?_ ?_ ?_ hn ?_
  · rw [h.tcp]
  · rw [h.tcp]
  · rw [h.tcp]
  · unfold View.wants
    rw [h.log]
  · intro f hf _
    rw [h.frames]
    exact hf

/-- Only `pd__tcp_post_recv` returns to `pd__tcp_connect_io`. -/
theorem step_tight (hok : RecvPosted s c x) (hs : step c x = some c') (ht : Tight s c.stack) :
    Tight s c'.stack ∧ (c'.stack.head? = some (.lib (.connectIoRest s)) →
      (∃ a, x = .lib a ∧ c.stack = .lib (.postRecv s) :: c'.stack) ∨
      ∃ e, x = .env e ∧ c'.stack = c.stack) := by
  rcases step_cases hs with ⟨a, f, rest, r, rfl, hst, hr, rfl⟩ |
    ⟨k, a, cb, rest, r, rfl, hst, hr, rfl⟩ | ⟨p, cb, rest, rfl, hst, hcb, rfl⟩ |
    ⟨e, w', rfl, he, rfl⟩
  · rw [hst] at ht
    by_cases hf : f = .postRecv s
    · subst hf
      have hstack := step_posted hs hst hok
      rw [hstack]
      exact ⟨ht.2, fun _ => .inl ⟨a, rfl, hst⟩⟩
    · have hrest : rest.head? ≠ some (.lib (.connectIoRest s)) :=
        fun hh => hf (Item.lib.inj (ht.1 hh))
      have hitems : Tight s r.2 ∧ r.2.head? ≠ some (.lib (.connectIoRest s)) := by
        by_cases hfs : f.stream = some s
        · exact (exec_view hfs hr).tight
        · have hno : .lib (.connectIoRest s) ∉ r.2 := by
            by_cases hio : f = .ioRun
            · subst hio
              cases hr
              simp only [ioRun]
              split <;> simp [World.goOn, -List.map_take]
            · exact fun hm => exec_items hfs hio hr _ hm rfl
          exact ⟨.of_forall hno, fun hh => hno (List.mem_of_mem_head? hh)⟩
      refine ⟨hitems.1.append ht.2 hrest, fun hh => ?_⟩
      cases hl : r.2 with
      | nil =>
        rw [hl] at hh
        exact absurd hh hrest
      | cons i l =>
        rw [hl] at hh hitems
        exact absurd hh hitems.2
  · have hitems : Tight s r.2 ∧ r.2.head? ≠ some (.lib (.connectIoRest s)) := by
      by_cases hks : k.stream = some s
      · exact (api_view hks hr).tight
      · have hno : .lib (.connectIoRest s) ∉ r.2 := fun hm => api_items hks hr _ hm rfl
        exact ⟨.of_forall hno, fun hh => hno (List.mem_of_mem_head? hh)⟩
    rw [hst] at ht
    refine ⟨hitems.1.append ht (by simp), fun hh => ?_⟩
    cases hl : r.2 with
    | nil =>
      rw [hl] at hh
      cases hh
    | cons i l =>
      rw [hl] at hh hitems
      exact absurd hh hitems.2
  · rw [hst] at ht
    exact ⟨ht.2, fun hh => absurd (ht.1 hh) (by simp)⟩
  · exact ⟨ht, fun _ => .inr ⟨e, rfl, rfl⟩⟩

theorem step_armed (hok : RecvPosted s c x) (hs : step c x = some c') (h : Armed c s) :
    Armed c' s := by
  have htight := step_tight hok hs h.tight
  have hview : (c'.world.view s).Armed s (c'.recvs s) (framesOf s c'.stack) := by
    rcases step_view (s := s) hs with hq | ⟨a, f, rest, l, rfl, hst, _, hst', hl⟩ |
      ⟨k, a, cb, rest, l, rfl, _, hst', ha⟩ | ⟨e, rfl, hst', he⟩
    · exact hq.armed h.view
    · have hv := h.view
      have htop := h.top
      rw [recvs_eq, hst] at hv
      rw [hst] at htop
      rw [recvs_eq, hst']
      refine hl.armed (fun hf => ?_) (fun hf => htop (by rw [hf]; rfl)) hv
      subst hf
      have hstack := step_posted hs hst hok
      rw [hst'] at hstack
      exact List.append_left_eq_self.mp hstack
    · have hv := h.view
      rw [recvs_eq] at hv
      rw [recvs_eq, hst']
      exact ha.armed hv
    · refine h.view.mono ?_ ?_ ?_ ?_ ?_ ?_
      · rw [he.tcp]
      · rw [he.tcp]
      · rw [he.tcp]
      · unfold View.wants
        rw [he.log]
      · rw [recvs_eq, recvs_eq, hst', he.recvs]
      · rw [hst']
        exact fun f hf _ => hf
  refine ⟨hview, htight.1, fun hh => ?_⟩
  rcases htight.2 hh with ⟨a, rfl, hst⟩ | ⟨e, rfl, hst⟩
  · rcases step_view (s := s) hs with hq | ⟨a', f, rest, l, _, hst1, _, hst', hl⟩ |
      ⟨k, a, cb, rest, l, hx, _⟩ | ⟨e, hx, _⟩
    · have hframes := hq.frames
      rw [hst] at hframes
      simp [framesOf, Frame.stream] at hframes
    · rw [hst] at hst1
      cases hst1
      obtain rfl : l = [] := List.append_left_eq_self.mp hst'.symm
      generalize c.world.view s = v at hl
      generalize c'.world.view s = v' at hl
      cases hl
      exact ⟨rfl, rfl⟩
    · cases hx
    · cases hx
  · rw [hst] at hh
    have htop := h.top hh
    rcases step_view (s := s) hs with hq | ⟨a', f, rest, l, hx, _⟩ |
      ⟨k, a, cb, rest, l, hx, _⟩ | ⟨e', _, _, he⟩
    · rw [hq.tcp]
      exact htop
    · cases hx
    · cases hx
    · rw [he.tcp]
      exact htop

theorem Run.armed (r : Run (RecvPosted s) c) : Armed c s := by
  induction r with
  | init hi =>
    rw [hi]
    refine ⟨⟨?_, ?_, ?_⟩, .of_forall (by simp [Cfg.start]), ?_⟩
    · exact fun h => by cases h
    · exact fun _ h => by cases h
    · exact fun _ h => by cases h
    · exact fun h => by cases h
  | step _ hok hs ih => exact step_armed hok hs ih

/-- **A stream that is read from has a receive outstanding** whenever none of its functions is
under way, in every run in which its receives are pending. -/
theorem recv_outstanding (r : Run (RecvPosted s) c) (hst : (c.world.tcp s).status ≠ .closed)
    (hw : c.world.wants s = true) (hf : framesOf s c.stack = []) : 0 < c.recvs s := by
  have h := (Run.armed r).view
  rw [hf] at h
  have hreading : (c.world.view s).tcp.flags.reading = true := by
    rcases h.wants hst (by rw [view_wants]; exact hw) with h | h
    · exact h
    · cases h
  apply h.pending
  rcases h.reading hst hreading with h | h | h
  · exact h
  · cases h
  · cases h

end

/-- The stream is accepted, paused in `on_data` and resumed. -/
theorem recv_outstanding_resumed : ∃ c, Run (RecvPosted 0) c ∧
    (c.world.tcp 0).status ≠ .closed ∧ c.world.wants 0 = true ∧ framesOf 0 c.stack = [] ∧
    0 < c.recvs 0 := by
  have r : Run (RecvPosted 0) _ := Machine.Reach.play (.init rfl) (l :=
    [.api (.setOnData 0 true) .pending, .api (.tcpAccept 0) .pending, .ret (some 7), .lib .pending,
      .env (.arrive 0 [1]), .env (.recvDone 0 1), .api .ioRun .pending, .lib .pending,
      .lib .pending, .api (.tcpPause 0) .pending, .ret none, .lib .pending,
      .lib { Answer.pending with due := true }, .api (.tcpResume 0) .pending, .ret (some 8),
      .lib .pending]) rfl
  exact ⟨_, r, by decide, rfl, rfl, recv_outstanding r (by decide) rfl rfl⟩

/-- **A receive that succeeds at once is the last one.** No packet comes for it, and
`pd__tcp_post_recv` posts no other; if it was the end of the stream, the stream is not closed. -/
theorem not_recv_outstanding :
    (∃ c, Run (fun _ _ => True) c ∧ (c.world.tcp 0).status = .active ∧ c.world.wants 0 = true ∧
      framesOf 0 c.stack = [] ∧ c.recvs 0 = 0) ∧
    ∃ c, Run (fun _ _ => True) c ∧ .wsaRecv 0 (.ok 0) ∈ c.world.log ∧
      (c.world.tcp 0).status = .active ∧ c.world.wants 0 = true ∧ framesOf 0 c.stack = [] ∧
      c.recvs 0 = 0 := by
  constructor
  · have r : Run (fun _ _ => True) _ := Machine.Reach.play (.init rfl) (l :=
      [.api (.setOnData 0 true) .pending, .api (.tcpAccept 0) .pending, .env (.arrive 0 [1]),
        .ret (some 7), .lib (.ok 1), .ret none]) rfl
    exact ⟨_, r, rfl, rfl, rfl, rfl⟩
  · have r : Run (fun _ _ => True) _ := Machine.Reach.play (.init rfl) (l :=
      [.api (.setOnData 0 true) .pending, .api (.tcpAccept 0) .pending, .env (.peerFin 0),
        .ret (some 7), .lib (.ok 0), .ret none]) rfl
    exact ⟨_, r, by decide, rfl, rfl, rfl, rfl⟩

end Pandio.Iocp
