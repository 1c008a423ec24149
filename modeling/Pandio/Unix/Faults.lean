import Pandio.Unix.Registrations
import Pandio.Unix.TimerOrder
import Pandio.Unix.WriteOrder

/- The library finds what it calls. A step that cannot be taken is a call through a NULL
   pointer (a handler, `on_data`, the callback of a write operation), an operation without a
   record, the assertion of `pnd__tcp_listener_io`, a fault of the timers' heap, or the end of
   the process in `pd_io_run`. None is ever reached when the application passes what the
   library calls without looking, and the poller behaves. -/
namespace Pandio
open World

/-! ## The contract -/

/-- The call of the poller was interrupted, or it succeeded. -/
def SysRes.polled : SysRes → Bool
  | .ok _ => true
  | .err e => e = EINTR

def Handle.listens : Handle → Bool
  | .server _ => true
  | _ => false

/-- The poller fails with `EINTR` only, and reports nothing of a listener but connections. -/
def PollsWell (w : World) (a : Answer) : Prop :=
  (a.sys 0).polled = true ∧
    ∀ e ∈ polledEvents w.kernel a.events, e.1.listens = true → e.2.pollin = true

/-- The loop is about to poll. -/
def Cfg.polling (c : Cfg) : Bool :=
  match c.stack with
  | .lib (.ioRun _) :: _ => true
  | _ => false

/-- A write operation has a callback, and a name of its own; a task is not submitted again before
it is done; `on_data` stays set while a read is under way; a stream is paused and resumed after it
was opened. -/
def Provides (c : Cfg) : Act → Prop
  | .lib a => c.polling = true → PollsWell c.world a
  | .api (.tcpWrite s op r) _ => r.cb = true ∧ c.world.op s op = none
  | .api (.taskSubmit k _) _ => c.world.task k = none
  | .api (.setOnData s b) _ => b = false → ∀ i ∈ c.stack, i.reading s = false
  | .api (.tcpPause s) _ | .api (.tcpResume s) _ => (c.world.tcp s).handler.isSome = true
  | _ => True

/-- The application provides what is called, and does not start too many timers. -/
def Faultless (c : Cfg) (x : Act) : Prop := Provides c x ∧ TimersFit c x

instance (c : Cfg) : (x : Act) → Decidable (Provides c x)
  | .lib _ => inferInstanceAs (Decidable (_ → _ ∧ _))
  | .api (.tcpWrite ..) _ => inferInstanceAs (Decidable (_ ∧ _))
  | .api (.taskSubmit ..) _ => inferInstanceAs (Decidable (_ = _))
  | .api (.setOnData ..) _ => inferInstanceAs (Decidable (_ → ∀ i ∈ c.stack, _))
  | .api (.tcpPause _) _ | .api (.tcpResume _) _ => inferInstanceAs (Decidable (_ = true))
  | .ret _ | .env _ | .api (.tcpAccept ..) _ | .api (.tcpConnect ..) _ | .api (.tcpClose _) _
  | .api (.tcpShutdown _) _ | .api (.tcpListen ..) _ | .api (.tcpServerClose _) _
  | .api (.timerStart ..) _ | .api (.timerRepeat ..) _ | .api (.timerStop _) _ | .api .timersRun _
  | .api .timersNext _ | .api .ioRun _ | .api (.setOnClose ..) _ | .api (.setAfterTick _) _
  | .api (.setErrno _) _ => .isTrue trivial

instance (c : Cfg) (x : Act) : Decidable (Faultless c x) := inferInstanceAs (Decidable (_ ∧ _))

/-! ## What the library calls -/

/-- The event has a handler. -/
def Handle.IsSet (w : World) : Handle → Prop
  | .tcp s => (w.tcp s).handler.isSome = true
  | .server l => (w.server l).handler = true
  | .taskSignal => True

/-- What the frame calls without looking is there. -/
def Frame.Ready (w : World) : Frame → Prop
  | .dispatch h ev => h.IsSet w ∧ (h.listens = true → ev.pollin = true)
  | .clientIoRest s _ | .writeLoop s => (Handle.tcp s).IsSet w
  | .readAlloc s | .readTry s _ => (w.tcp s).onData = true
  | _ => True

/-- The operations on their way have a callback. -/
def WriteView.CallsBack (v : WriteView) : Prop :=
  ∀ o ∈ v.flight ++ v.writes, ∃ r, v.op o = some r ∧ r.cb = true

/-- What the library calls is there. -/
structure Ready (c : Cfg) : Prop where
  registered : ∀ fd h f, c.world.kernel.interest fd = some (h, f) → h.IsSet c.world
  frames : ∀ f, .lib f ∈ c.stack → f.Ready c.world
  active : ∀ s, (c.world.tcp s).status = .active → (Handle.tcp s).IsSet c.world
  tries : TryTop c
  writes : ∀ s, (c.writeView s).CallsBack
  timers : TimersValid c.world

/-! ## Write operations -/

section
variable {s : Sid} {P : WriteOp → Prop} {v v' : WriteView}

theorem WriteMove.callsBack (m : WriteMove s P v v') (hP : ∀ r, P r → r.cb = true)
    (h : v.CallsBack) : v'.CallsBack := by
  -- who was there before keeps its callback
  have old : ∀ o ∈ v.flight ++ v.writes, ∃ r, v'.op o = some r ∧ r.cb = true := by
    intro o ho
    obtain ⟨r, hr, hcb⟩ := h o ho
    obtain ⟨r', hr', -, hcb'⟩ := m.op_fixed hr
    exact ⟨r', hr', hcb'.trans hcb⟩
  intro o ho
  cases m with
  | acceptTry hr _ hflight hwrites =>
    simp only [hwrites, List.append_nil, List.mem_singleton] at ho
    subst ho
    exact ⟨_, Function.update_self .., hP _ hr⟩
  | acceptQueue hr _ hflight =>
    rcases List.mem_append.mp ho with ho | ho
    · exact old o (List.mem_append_left _ ho)
    · rcases List.mem_append.mp ho with ho | ho
      · exact old o (List.mem_append_right _ ho)
      · obtain rfl := List.mem_singleton.mp ho
        exact ⟨_, Function.update_self .., hP _ hr⟩
  | tryBlock hflight | tryPart hflight =>
    refine old o ?_
    rw [hflight]
    simp only [List.nil_append, List.mem_append, List.mem_singleton] at ho ⊢
    exact ho.symm
  | tryDone hflight =>
    exact old o (List.mem_append_right _ (by simpa using ho))
  | loopDone hwrites hflight | loopFail hwrites hflight | cancel hwrites hflight =>
    refine old o ?_
    rw [hwrites]
    rcases List.mem_append.mp ho with ho | ho
    · exact List.mem_append_left _ ho
    · exact List.mem_append_right _ (List.mem_cons_of_mem _ ho)
  | refuse | tryAgain | loopWait | loopPart | closeQueued => exact old o ho

end

/-! ## Handlers -/

section
variable {s : Sid} {now : Nat} {v v' : StreamView} {l : List Item}

/-- A stream that has its handler keeps it, and what becomes active has one. -/
theorem StreamExec.set {f : Frame} (h : StreamExec s now v f v' l) :
    (v.tcp.handler.isSome = true → v'.tcp.handler.isSome = true) ∧
      v'.tcp.onData = v.tcp.onData ∧
      (v'.tcp.status = .active → v.tcp.status = .active ∨ v'.tcp.handler.isSome = true) := by
  cases h with
  | tryQueued hst =>
    simp only [StreamView.enqueue]
    split <;> exact ⟨id, rfl, fun _ => .inl hst⟩
  | close | ioClose => exact ⟨id, rfl, fun ha => by cases ha⟩
  | connected | connectedCalled => exact ⟨fun _ => rfl, rfl, fun _ => .inr rfl⟩
  | _ => exact ⟨id, rfl, fun ha => .inl ha⟩

theorem StreamApi.set {k : Call} (h : StreamApi s v k v' l) :
    (v.tcp.handler.isSome = true → v'.tcp.handler.isSome = true) ∧
      (v'.tcp.onData = v.tcp.onData ∨ ∃ b, k = .setOnData s b ∧ v'.tcp.onData = b) ∧
      (v'.tcp.status = .active → v.tcp.status = .active ∨ v'.tcp.handler.isSome = true) := by
  cases h with
  | accept => exact ⟨fun _ => rfl, .inl rfl, fun _ => .inr rfl⟩
  | connect | connectRefused => exact ⟨fun _ => rfl, .inl rfl, fun _ => .inr rfl⟩
  | writeQueued hst =>
    simp only [StreamView.enqueue]
    split <;> exact ⟨id, .inl rfl, fun _ => .inl hst⟩
  | close => exact ⟨id, .inl rfl, fun ha => by cases ha⟩
  | shut hst | shutLater hst => exact ⟨id, .inl rfl, fun _ => .inl hst⟩
  | setOnData => exact ⟨id, .inr ⟨_, rfl, rfl⟩, fun ha => .inl ha⟩
  | _ => exact ⟨id, .inl rfl, fun ha => .inl ha⟩

/-- What a frame of the stream leaves on the stack has what it needs. -/
theorem StreamExec.ready {f : Frame} {w w' : World}
    (h : StreamExec s now (w.streamView s) f v' l) (hv : w'.tcp s = v'.tcp) (hf : f.Ready w) :
    ∀ g, .lib g ∈ l → g.Ready w' := by
  obtain ⟨hhandler, hdata, -⟩ := h.set
  have hset : (Handle.tcp s).IsSet w → (Handle.tcp s).IsSet w' := fun hh => by
    rw [Handle.IsSet, hv]
    exact hhandler hh
  have hread : (w.tcp s).onData = true → (w'.tcp s).onData = true := fun hd => by
    rw [hv, hdata]
    exact hd
  clear hhandler hdata hv
  intro g hg
  cases h with
  | clientRead _ _ hd =>
    simp only [List.mem_cons, List.not_mem_nil, or_false, reduceCtorEq, false_or,
      Item.lib.injEq] at hg
    rcases hg with rfl | rfl
    · exact hread hd
    · exact hset hf.1
  | _ => simp_all [Frame.Ready]

end

section
variable {w w' : World} {a : Answer} {r : World × List Item}

theorem OwnerExec.server {v v' : Owners} {f : Frame} {l : List Item} (h : OwnerExec v f v' l) :
    v'.server = v.server := by cases h <;> rfl

/-- What the library calls stays there, but for what the application takes away. -/
structure Upholds (w w' : World) : Prop where
  isSet : ∀ h : Handle, h.IsSet w → h.IsSet w'
  active : ∀ s, (w'.tcp s).status = .active →
    (w.tcp s).status = .active ∨ (Handle.tcp s).IsSet w'

theorem exec_upholds {f : Frame} (h : exec w f a = some r) :
    Upholds w r.1 ∧ ∀ s, (r.1.tcp s).onData = (w.tcp s).onData := by
  have hstream : ∀ s, r.1.tcp s = w.tcp s ∨
      ((w.tcp s).handler.isSome = true → (r.1.tcp s).handler.isSome = true) ∧
        (r.1.tcp s).onData = (w.tcp s).onData ∧
        ((r.1.tcp s).status = .active → (w.tcp s).status = .active ∨
          (r.1.tcp s).handler.isSome = true) := by
    intro s
    by_cases hf : f.stream = some s
    · exact .inr (exec_stream hf h).set
    · exact .inl (congrArg (·.tcp) (exec_streamView hf h))
  have hserver : r.1.server = w.server := (exec_owner h).1.server
  refine ⟨⟨fun hd hset => ?_, fun s ha => ?_⟩, fun s => ?_⟩
  · cases hd with
    | tcp s =>
      rcases hstream s with he | ⟨hh, -, -⟩
      · rw [Handle.IsSet, he]
        exact hset
      · exact hh hset
    | server l =>
      rw [Handle.IsSet, hserver]
      exact hset
    | taskSignal => trivial
  · rcases hstream s with he | ⟨-, -, hact⟩
    · exact .inl (he ▸ ha)
    · exact hact ha
  · rcases hstream s with he | ⟨-, hd, -⟩
    · rw [he]
    · exact hd

/-- A listener is registered with its handler. -/
theorem pdTcpListen_set {l : Lid} {b : Bool} :
    w.kernel.Registers (fun _ => False) (pdTcpListen w l b a).kernel ∧
      (pdTcpListen w l b a).server = w.server ∨
    ((pdTcpListen w l b a).server l).handler = true ∧
      ∀ l' ≠ l, (pdTcpListen w l b a).server l' = w.server l' := by
  have q0 : Quiet (fun _ => False) w w := .refl
  have quiet : ∀ {w' : World}, Quiet (fun _ => False) w w' →
      w.kernel.Registers (fun _ => False) w'.kernel ∧ w'.server = w.server := fun q =>
    ⟨q.interest, (q.owners id).2.2.2.1⟩
  have q1 : Quiet (fun _ => False) w (w.setKernel (w.kernel.newSocket (a.sys 0)).1) := q0.newSocket
  simp only [pdTcpListen]
  split
  · exact .inl (quiet q0.setErrno.failErrno)
  · exact .inl (quiet q1.failErrno)
  · split
    · exact .inl (quiet q1.setErrno.closeQuietly.failErrno)
    · exact .inl (quiet q1.setErrno.closeQuietly.failErrno)
    · exact .inl (quiet q1.setErrno.closeQuietly.failErrno)
    · exact .inl (quiet q1.setErrno.closeQuietly.failErrno)
    · refine .inr ⟨?_, fun l' hl => ?_⟩
      · split <;> exact congrArg TcpServer.handler (Function.update_self l _ w.server)
      · split <;> exact Function.update_of_ne hl ..

/-- A stream is registered with its handler. -/
theorem pdTcpConnect_set {s : Sid} {b : Bool} :
    w.kernel.Moves (fun _ h => h = .tcp s ∧ h.IsSet (pdTcpConnect w s b a))
      (pdTcpConnect w s b a).kernel := by
  have hsock : ∀ {P : Fd → Handle → Prop},
      w.kernel.Moves P (w.kernel.newSocket (a.sys 0)).1 := Kernel.Moves.refl.newSocket
  simp only [pdTcpConnect]
  split
  · exact .refl
  · rename_i fd _
    split
    · exact closeQuietly_moves ((w.setKernel _).setErrno _) hsock _ _
    · split
      · exact closeQuietly_moves ((w.setKernel _).setErrno _) hsock _ _
      · exact closeQuietly_moves (w.setKernel _) hsock _ _
      · have opened : ∀ v : World, v.kernel = (w.kernel.newSocket (a.sys 0)).1 →
            (v.tcp s).handler.isSome = true →
            w.kernel.Moves (fun _ h => h = .tcp s ∧
                h.IsSet (((pd_eventAdd v s (a.sys 6)).incRefs (.tcp s)).setResult 0))
              (((pd_eventAdd v s (a.sys 6)).incRefs (.tcp s)).setResult 0).kernel := by
          intro v hv hh
          have g : ∀ {P : Fd → Handle → Prop}, w.kernel.Moves P v.kernel := hv ▸ hsock
          exact g.ctl ⟨rfl, hh⟩
        split
        · exact opened _ rfl (by simp [World.logObs, setTcp])
        · split
          · exact closeQuietly_moves ((((w.setKernel _).setTcp s _).setErrno _).logObs _) hsock _ _
          · exact opened _ rfl (by simp [setErrno, World.logObs, setTcp])

theorem OwnerApi.server {v v' : Owners} {k : Call} {l : List Item} (h : OwnerApi v a k v' l) :
    v'.server = v.server ∨ ∃ l b, k = .tcpListen l b := by
  cases h with
  | listen => exact .inr ⟨_, _, rfl⟩
  | _ => exact .inl rfl

theorem api_upholds {k : Call} (h : api w k a = some r) :
    Upholds w r.1 ∧ ∀ s, (r.1.tcp s).onData = (w.tcp s).onData ∨
      ∃ b, k = .setOnData s b ∧ (r.1.tcp s).onData = b := by
  have hstream : ∀ s, r.1.tcp s = w.tcp s ∨
      ((w.tcp s).handler.isSome = true → (r.1.tcp s).handler.isSome = true) ∧
        ((r.1.tcp s).onData = (w.tcp s).onData ∨
          ∃ b, k = .setOnData s b ∧ (r.1.tcp s).onData = b) ∧
        ((r.1.tcp s).status = .active → (w.tcp s).status = .active ∨
          (r.1.tcp s).handler.isSome = true) := by
    intro s
    by_cases hk : k.stream = some s
    · exact .inr (api_stream hk h).set
    · exact .inl (congrArg (·.tcp) (api_streamView hk h))
  have hserver : ∀ l, (w.server l).handler = true → (r.1.server l).handler = true := by
    intro l hh
    rcases (api_owner h).server with he | ⟨l', b, rfl⟩
    · have he : r.1.server = w.server := he
      rw [he]
      exact hh
    · cases h
      show ((pdTcpListen w l' b a).server l).handler = true
      rcases pdTcpListen_set (w := w) (a := a) (l := l') (b := b) with ⟨-, he⟩ | ⟨hset, hne⟩
      · rw [he]
        exact hh
      · by_cases hl : l = l'
        · rw [hl]
          exact hset
        · rw [hne l hl]
          exact hh
  refine ⟨⟨fun hd hset => ?_, fun s ha => ?_⟩, fun s => ?_⟩
  · cases hd with
    | tcp s =>
      rcases hstream s with he | ⟨hh, -, -⟩
      · rw [Handle.IsSet, he]
        exact hset
      · exact hh hset
    | server l => exact hserver l hset
    | taskSignal => trivial
  · rcases hstream s with he | ⟨-, -, hact⟩
    · exact .inl (he ▸ ha)
    · exact hact ha
  · rcases hstream s with he | ⟨-, hd, -⟩
    · rw [he]
      exact .inl rfl
    · exact hd

/-! ## Registrations and frames -/

/-- What a frame registers has a handler. -/
theorem exec_registered {f : Frame} (h : exec w f a = some r) (hf : f.Ready w)
    (hact : ∀ s, (w.tcp s).status = .active → (Handle.tcp s).IsSet w)
    (hreg : ∀ fd hd g, w.kernel.interest fd = some (hd, g) → hd.IsSet w) :
    ∀ fd hd g, r.1.kernel.interest fd = some (hd, g) → hd.IsSet r.1 := by
  intro fd hd g hi
  apply (exec_upholds h).1.isSet
  rcases (exec_moves h).known fd hd g hi with ⟨s, rfl, hsets, -⟩ | ⟨g', hg⟩
  · cases f with
    | dispatch hd ev =>
      cases hd with
      | tcp s' =>
        obtain rfl : s' = s := by simp_all [Frame.sets]
        exact hf.1
      | _ => cases hsets
    | writeTry s' op => exact hact s (by simp_all [Frame.sets])
    | writeLoop s' =>
      obtain rfl : s' = s := by simpa [Frame.sets] using hsets
      exact hf
    | _ => cases hsets
  · exact hreg fd hd g' hg

/-- What a call registers has a handler. -/
theorem api_registered {k : Call} (h : api w k a = some r)
    (hk : ∀ s, k = .tcpPause s ∨ k = .tcpResume s → (Handle.tcp s).IsSet w)
    (hact : ∀ s, (w.tcp s).status = .active → (Handle.tcp s).IsSet w)
    (hreg : ∀ fd hd g, w.kernel.interest fd = some (hd, g) → hd.IsSet w) :
    ∀ fd hd g, r.1.kernel.interest fd = some (hd, g) → hd.IsSet r.1 := by
  intro fd hd g hi
  have known : (∃ g, w.kernel.interest fd = some (hd, g)) → hd.IsSet r.1 := by
    rintro ⟨g', hg⟩
    exact (api_upholds h).1.isSet hd (hreg fd hd g' hg)
  cases hd with
  | taskSignal => trivial
  | server l =>
    rcases api_registers h fd _ g hi with ⟨b, rfl⟩ | hold
    · cases h
      rcases pdTcpListen_set (w := w) (a := a) (l := l) (b := b) with ⟨hnew, -⟩ | ⟨hset, -⟩
      · exact known ((hnew fd _ g hi).resolve_left id)
      · exact hset
    · exact known hold
  | tcp s =>
    rcases (api_moves h).known fd _ g hi with (⟨l, hl⟩ | ⟨s', hs', ⟨hsets, -⟩ | ⟨hopens, -⟩⟩) | hold
    · cases hl
    · cases hs'
      apply (api_upholds h).1.isSet
      cases k with
      | tcpWrite s' op wr | tcpShutdown s' => exact hact s (by simp_all [Call.sets])
      | tcpPause s' | tcpResume s' =>
        obtain rfl : s' = s := by simpa [Call.sets] using hsets
        exact hk s' (by simp)
      | _ => cases hsets
    · cases hs'
      cases k with
      | tcpAccept s' fd' =>
        obtain rfl : s' = s := by simpa [Call.opens] using hopens
        cases h
        show ((Function.update w.tcp s' _) s').handler.isSome = true
        rw [Function.update_self]
        rfl
      | tcpConnect s' b =>
        obtain rfl : s' = s := by simpa [Call.opens] using hopens
        cases h
        rcases pdTcpConnect_set.known fd _ g hi with ⟨-, hset⟩ | hold
        · exact hset
        · exact known hold
      | _ => cases hopens
    · exact known hold

/-- What a frame leaves on the stack has what it needs. -/
theorem exec_ready {f : Frame} (h : exec w f a = some r) (hf : f.Ready w)
    (hreg : ∀ fd hd g, w.kernel.interest fd = some (hd, g) → hd.IsSet w)
    (hpoll : ∀ timeout, f = .ioRun timeout → PollsWell w a) : ∀ g, .lib g ∈ r.2 → g.Ready r.1 := by
  by_cases hs : ∃ s, f.stream = some s
  · obtain ⟨s, hs⟩ := hs
    exact (exec_stream hs h).ready rfl hf
  · cases f with
    | ioRun timeout =>
      have hup := (exec_upholds h).1
      simp only [exec, ioRun] at h
      intro g hg
      split at h
      · cases h
        cases hg
      · split at h
        · split at h <;> cases h
          obtain rfl := Item.lib.inj (List.mem_singleton.mp hg)
          trivial
        · cases h
          have hg : g ∈ ((polledEvents w.kernel a.events).take MAX_EVENTS).map
              (fun e => .dispatch e.1 e.2) ++ [.timersRun, .pendingClose, .ioAfterTick, .ioNext] := by
            obtain ⟨g', hmem, hg'⟩ := List.mem_map.mp hg
            cases hg'
            exact hmem
          rcases List.mem_append.mp hg with hg | hg
          · -- an event, of what is registered
            obtain ⟨e, he, rfl⟩ := List.mem_map.mp hg
            have he := List.mem_of_mem_take he
            refine ⟨hup.isSet e.1 ?_, (hpoll timeout rfl).2 e he⟩
            obtain ⟨p, -, hp⟩ := List.mem_filterMap.mp he
            obtain ⟨q, hq, rfl⟩ := Option.map_eq_some_iff.mp hp
            exact hreg p.1 q.1 q.2 hq
          · simp only [List.mem_cons, List.not_mem_nil, or_false] at hg
            rcases hg with rfl | rfl | rfl | rfl <;> trivial
    | _ =>
      have hp := exec_pushes h
      generalize r.2 = l at hp
      intro g hg
      cases hp <;> simp_all [Frame.Ready, Frame.stream, Handle.IsSet, Handle.listens]

theorem Frame.Ready.upheld {f : Frame} (hf : f.Ready w) (hu : Upholds w w')
    (hd : ∀ s, (Item.lib f).reading s = true → (w.tcp s).onData = true → (w'.tcp s).onData = true) :
    f.Ready w' := by
  cases f with
  | dispatch h ev => exact ⟨hu.isSet h hf.1, hf.2⟩
  | clientIoRest s ev | writeLoop s => exact hu.isSet (.tcp s) hf
  | readAlloc s | readTry s buf => exact hd s (by simp [Item.reading]) hf
  | _ => trivial

end

/-! ## Steps -/

section
variable {c c' : Cfg} {x : Act}

theorem Cfg.Init.ready (h : c.Init) : Ready c := by
  have htry := h.tryTop
  obtain ⟨k, fd, -, -, rfl⟩ := h
  refine ⟨fun fd' hd g hi => ?_, fun f hf => ?_, fun s ha => ?_, htry, fun s o ho => ?_, ?_⟩
  · simp only [World.init] at hi
    split at hi <;> cases hi
    trivial
  · simp at hf
  · cases ha
  · simp [Cfg.writeView, World.writeView, inFlight, World.init, pdTcpInit] at ho
  · exact ⟨⟨_, heapInit_valid _, fun t => by simp [World.init, pdTimerInit]⟩,
      by simp [World.init, heapInit]⟩

/-- **What the library calls stays there.** -/
theorem Ready.step (h : Ready c) (hok : Faultless c x) (hs : Pandio.step c x = some c') :
    Ready c' := by
  obtain ⟨htry, hmoves⟩ := step_write h.tries hs
  have hwrites : ∀ s, (c'.writeView s).CallsBack := by
    intro s
    rcases hmoves s with he | hm
    · rw [he]
      exact h.writes s
    · refine hm.callsBack ?_ (h.writes s)
      rintro r ⟨op, a, rfl⟩
      exact hok.1.1
  have htimers := (step_timers h.timers hok.2 hs).1
  rcases step_cases hs with ⟨a, f, rest, r, rfl, hst, hr, rfl⟩ |
    ⟨k, a, cb, rest, r, rfl, hst, hr, rfl⟩ | ⟨p, cb, rest, rfl, hst, hcb, rfl⟩ |
    ⟨e, w', rfl, he, rfl⟩
  · have hf := h.frames f (hst ▸ List.mem_cons_self)
    obtain ⟨hu, hdata⟩ := exec_upholds hr
    refine ⟨exec_registered hr hf h.active h.registered, fun g hg => ?_, fun s ha => ?_, htry,
      hwrites, htimers⟩
    · rcases List.mem_append.mp hg with hg | hg
      · refine exec_ready hr hf h.registered ?_ g hg
        rintro timeout rfl
        exact hok.1 (by simp [Cfg.polling, hst])
      · exact (h.frames g (hst ▸ List.mem_cons_of_mem _ hg)).upheld hu fun s _ hd => (hdata s).trans hd
    · exact (hu.active s ha).elim (fun ha => hu.isSet _ (h.active s ha)) id
  · obtain ⟨hu, hdata⟩ := api_upholds hr
    refine ⟨api_registered hr ?_ h.active h.registered, fun g hg => ?_, fun s ha => ?_, htry,
      hwrites, htimers⟩
    · rintro s (rfl | rfl) <;> exact hok.1
    · rcases List.mem_append.mp hg with hg | hg
      · have hp := api_pushes hr
        generalize r.2 = l at hp hg
        cases hp <;> simp_all [Frame.Ready]
      · refine (h.frames g (hst ▸ hg)).upheld hu fun s hread hd => ?_
        rcases hdata s with he | ⟨b, rfl, hb⟩
        · exact he.trans hd
        · cases b with
          | true => exact hb
          | false =>
            have hnot := hok.1 rfl _ (hst ▸ hg)
            rw [hread] at hnot
            cases hnot
    · exact (hu.active s ha).elim (fun ha => hu.isSet _ (h.active s ha)) id
  · exact ⟨h.registered, fun g hg => h.frames g (hst ▸ List.mem_cons_of_mem _ hg), h.active, htry,
      hwrites, htimers⟩
  · have htcp := (env_keeps he).tcp
    have hserver := (env_keeps he).server
    have hu : Upholds c.world w' := by
      refine ⟨fun hd hset => ?_, fun s ha => .inl (htcp ▸ ha)⟩
      cases hd with
      | tcp s =>
        rw [Handle.IsSet, htcp]
        exact hset
      | server l =>
        rw [Handle.IsSet, hserver]
        exact hset
      | taskSignal => trivial
    refine ⟨fun fd hd g hi => ?_, fun g hg => ?_, fun s ha => ?_, htry, hwrites, htimers⟩
    · rcases (env_moves he (P := fun _ _ => False)).known fd hd g hi with hf | ⟨g', hg⟩
      · exact hf.elim
      · exact hu.isSet hd (h.registered fd hd g' hg)
    · exact (h.frames g hg).upheld hu fun s _ hd => by rw [htcp, hd]
    · exact (hu.active s ha).elim (fun ha => hu.isSet _ (h.active s ha)) id

theorem Run.ready (r : Run Faultless c) : Ready c :=
  r.invariant (fun _ h => h.ready) fun _ _ _ _ h hok hs => h.step hok hs

end

/-! ## Progress -/

section
variable {w : World} {s : Sid} {a : Answer}

theorem callWrite_isSome {op : Op} {st : Int} {fs : List Frame}
    (h : ∃ r, w.op s op = some r ∧ r.cb = true) : (callWrite w s op st fs).isSome = true := by
  obtain ⟨r, hr, hcb⟩ := h
  simp [callWrite, hr, hcb]

theorem callOnData_isSome {buf : Option Nat} {size : Int} {bytes : List UInt8} {fs : List Frame}
    (h : (w.tcp s).onData = true) : (callOnData w s buf size bytes fs).isSome = true := by
  simp [callOnData, h]

theorem pdTcpWriteAsync_isSome {op : Op} (h : ∃ r, w.op s op = some r ∧ r.cb = true) :
    (pdTcpWriteAsync w s op a).isSome = true := by
  simp only [pdTcpWriteAsync]
  split
  · exact callWrite_isSome h
  · split <;> rfl

theorem readTry_isSome {buf : Option Nat} (h : (w.tcp s).onData = true) :
    (readTry w s buf a).isSome = true := by
  simp only [readTry]
  split
  · split
    · rfl
    · split
      · exact callOnData_isSome h
      · exact callOnData_isSome h
  · exact callOnData_isSome h
  · exact callOnData_isSome h

theorem writeTry_isSome {op : Op} (h : ∃ r, w.op s op = some r ∧ r.cb = true) :
    (writeTry w s op a).isSome = true := by
  obtain ⟨r, hr, hcb⟩ := h
  have hw : ∀ (e : SysRes) (o : Obs), ∃ r, ((w.setErrno e).logObs o).op s op = some r ∧
      r.cb = true := fun e o => ⟨r, by cases e <;> exact hr, hcb⟩
  simp only [writeTry, hr]
  split
  · split
    · rfl
    · split
      · exact pdTcpWriteAsync_isSome (hw _ _)
      · exact callWrite_isSome (hw _ _)
  · split
    · refine pdTcpWriteAsync_isSome ?_
      simp [setOp, hcb]
    · exact callWrite_isSome ⟨r, hr, hcb⟩

theorem writeLoop_isSome (h : ∀ op ∈ (w.tcp s).writes, ∃ r, w.op s op = some r ∧ r.cb = true) :
    (writeLoop w s a).isSome = true := by
  simp only [writeLoop]
  split
  · rename_i op rest hwrites
    obtain ⟨r, hr, hcb⟩ := h op (hwrites ▸ List.mem_cons_self)
    simp only [hr]
    split
    · split
      · rfl
      · split
        · rfl
        · exact callWrite_isSome ⟨r, hr, hcb⟩
    · split <;> rfl
  · split <;> rfl

theorem closeDrain_isSome (h : ∀ op ∈ (w.tcp s).writes, ∃ r, w.op s op = some r ∧ r.cb = true) :
    (closeDrain w s).isSome = true := by
  unfold closeDrain
  split
  · rename_i op rest hwrites
    exact callWrite_isSome (h op (hwrites ▸ List.mem_cons_self))
  · rfl

theorem ioRun_isSome {timeout : Int} (h : PollsWell w a) : (ioRun w timeout a).isSome = true := by
  simp only [ioRun]
  split
  · rfl
  · split
    · rename_i e he
      have heintr : e = EINTR := by simpa [SysRes.polled, he] using h.1
      rw [if_pos heintr]
      rfl
    · rfl

/-- An event with its handler is handled. -/
theorem dispatch_isSome {h : Handle} {ev : Events} (hset : h.IsSet w)
    (hpoll : h.listens = true → ev.pollin = true) : (dispatch w h ev a).isSome = true := by
  cases h with
  | tcp s =>
    obtain ⟨x, hx⟩ := Option.isSome_iff_exists.mp hset
    simp only [dispatch, hx]
    cases x <;> rfl
  | server l =>
    have hset : (w.server l).handler = true := hset
    simp only [dispatch, hset, if_true, pnd_tcpListenerIo, hpoll rfl]
    simp only [Bool.not_true, Bool.false_eq_true, if_false]
    split
    · rfl
    · split
      · rfl
      · split
        · rfl
        · split <;> rfl
  | taskSignal => rfl

/-- `pd_timers_run` finds its heap in order. -/
theorem pdTimersRun_isSome (h : TimersValid w) : (pdTimersRun w).isSome = true := by
  unfold pdTimersRun
  split
  · rfl
  · rename_i t _
    split
    · rfl
    · obtain ⟨w', hw, -⟩ := pdTimerStop_valid (t := t) h
      simp only [hw, Option.bind_eq_bind, Option.bind_some]
      split <;> rfl

end

section
variable {c : Cfg} {a : Answer}

/-- **The library goes on.** -/
theorem Ready.exec_isSome {f : Frame} {rest : List Item} (h : Ready c)
    (hst : c.stack = .lib f :: rest) (hok : Faultless c (.lib a)) :
    (exec c.world f a).isSome = true := by
  have hf := h.frames f (hst ▸ List.mem_cons_self)
  have hwrites : ∀ s, ∀ op ∈ (c.world.tcp s).writes,
      ∃ r, c.world.op s op = some r ∧ r.cb = true := fun s op hop =>
    h.writes s op (List.mem_append_right _ hop)
  cases f with
  | closeDrain s => exact closeDrain_isSome (hwrites s)
  | readAlloc s =>
    simp only [exec, readAlloc]
    split
    · exact callOnData_isSome hf
    · rfl
  | readTry s buf => exact readTry_isSome hf
  | writeTry s op =>
    refine writeTry_isSome (h.writes s op (List.mem_append_left _ ?_))
    simp [Cfg.writeView, World.writeView, hst, inFlight]
  | writeLoop s => exact writeLoop_isSome (hwrites s)
  | dispatch hd ev => exact dispatch_isSome hf.1 hf.2
  | timersRun => exact pdTimersRun_isSome h.timers
  | timersRearm t =>
    simp only [exec, pdTimersRearm]
    split
    · rename_i hne
      have hroom : (c.world.timer t).active = false → c.world.timers.size + 1 < 2 ^ 32 := by
        intro hact
        refine hok.2 (t, (c.world.timer t).interval) ?_
        simp [started, rearmed, hst, hne, hact]
      obtain ⟨w', hw, -⟩ : ∃ w', pdTimerStart c.world t (c.world.timer t).onTimeout
        (c.world.timer t).interval = some w' ∧ TimersValid w' := pdTimerStart_valid h.timers hroom
      rw [hw]
      rfl
    · rfl
  | ioRun timeout => exact ioRun_isSome (hok.1 (by simp [Cfg.polling, hst]))
  | _ => rfl

/-- **Every call of the application returns, or goes on in the library.** -/
theorem Ready.api_isSome {k : Call} (h : Ready c) (hok : Faultless c (.api k a)) :
    (api c.world k a).isSome = true := by
  cases k with
  | tcpWrite s op r =>
    obtain ⟨hcb, hnew⟩ := hok.1
    simp only [api, if_pos hnew, pdTcpWrite, if_pos hcb]
    split
    · rfl
    · split
      · rfl
      · refine pdTcpWriteAsync_isSome ⟨r, ?_, hcb⟩
        simp [setOp, World.logObs]
  | timerStart t cb d =>
    have hvalid : TimersValid (c.world.logObs (.timerStart t)) := h.timers.congr rfl rfl
    have hroom : (c.world.timer t).active = false → c.world.timers.size + 1 < 2 ^ 32 := by
      intro hoff
      exact hok.2 (t, d % 2 ^ 64) (by simp [started, hoff])
    obtain ⟨w', hw, -⟩ : ∃ w', pdTimerStart (c.world.logObs (.timerStart t)) t cb (d % 2 ^ 64) =
      some w' ∧ TimersValid w' := pdTimerStart_valid hvalid hroom
    simp only [api, hw, Option.map_some, Option.isSome_some]
  | timerRepeat t cb d =>
    generalize hr : ({ (c.world.logObs (.timerStart t)).timer t with
      interval := d % 2 ^ 64 } : Timer) = r
    have hact : r.active = (c.world.timer t).active := by rw [← hr, World.logObs]
    have hvalid : TimersValid ((c.world.logObs (.timerStart t)).setTimer t r) := by
      refine TimersValid.setTimer (h.timers.congr rfl rfl) ?_ hact
      rw [← hr]
    have hroom : (((c.world.logObs (.timerStart t)).setTimer t r).timer t).active = false →
        c.world.timers.size + 1 < 2 ^ 32 := by
      intro hoff
      have hoff : (c.world.timer t).active = false := by
        rw [← hact]
        simpa [World.setTimer] using hoff
      exact hok.2 (t, d % 2 ^ 64) (by simp [started, hoff])
    obtain ⟨w', hw, -⟩ : ∃ w', pdTimerStart ((c.world.logObs (.timerStart t)).setTimer t r) t cb
      (d % 2 ^ 64) = some w' ∧ TimersValid w' := pdTimerStart_valid hvalid hroom
    simp only [api, pdTimerRepeat, hr, hw, Option.map_some, Option.isSome_some]
  | timerStop t =>
    obtain ⟨w', hw, -⟩ := pdTimerStop_valid (t := t) h.timers
    simp only [api, hw]
    rfl
  | taskSubmit k done =>
    have hnew : c.world.task k = none := hok.1
    simp only [api, if_pos hnew]
    rfl
  | _ => rfl

end

/-! ## Every run -/

/-- The step is the next one of the library, or a call of the application. -/
def Act.runs (c : Cfg) : Act → Bool
  | .lib _ =>
    match c.stack with
    | .lib _ :: _ => true
    | _ => false
  | .api _ _ =>
    match c.stack with
    | .app _ :: _ => true
    | _ => false
  | _ => false

/-- **The library never faults.** In every run whose application passes what the library calls, each
step of the library that comes next can be taken, whatever the kernel answers, and each call of the
application too: none calls through a NULL pointer, fails the assertion, breaks the heap of timers
or ends the process. -/
theorem never_faults {c : Cfg} {x : Act} (r : Run Faultless c) (hok : Faultless c x)
    (hx : x.runs c = true) : ∃ c', Pandio.step c x = some c' ∧ Run Faultless c' := by
  have h := Run.ready r
  have hstep : (Pandio.step c x).isSome = true := by
    cases x with
    | lib a =>
      simp only [Act.runs] at hx
      split at hx
      · rename_i f rest hst
        simp only [Pandio.step, hst, Option.isSome_map]
        exact h.exec_isSome hst hok
      · cases hx
    | api k a =>
      simp only [Act.runs] at hx
      split at hx
      · rename_i cb rest hst
        simp only [Pandio.step, hst, Option.isSome_map]
        exact h.api_isSome hok
      · cases hx
    | _ => cases hx
  obtain ⟨c', hc⟩ := Option.isSome_iff_exists.mp hstep
  exact ⟨c', hc, r.step hok hc⟩

/-- A stream is written on and read while a timer runs, and the read fails. -/
theorem never_faults_reset : ∃ c c', Run Faultless c ∧
    c.stack.head? = some (.lib (.readTry 0 (some 7))) ∧
    Pandio.step c (.lib (.fails 104 (by decide))) = some c' ∧ Run Faultless c' := by
  have r : Run Faultless _ := Run.play (Cfg.start_init [5]) [
    .api (.tcpAccept 0 5) (.ok 0 []), .api (.setOnData 0 true) (.ok 0 []),
    .api (.tcpWrite 0 0 (pdWriteInit [1, 2] true (by decide))) (.ok 0 []), .lib (.ok 1 []),
    .api (.timerRepeat 0 true 10) (.ok 0 []), .api .ioRun (.ok 0 []),
    .lib (.ok 0 [(5, ⟨true, true, false, false, false⟩)]), .lib (.ok 0 []), .ret (some 7),
    .lib (.ok 0 [])] rfl
  obtain ⟨c', hs, hrun⟩ := never_faults r (x := .lib (.fails 104 (by decide))) (by decide) rfl
  exact ⟨_, c', r, rfl, hs, hrun⟩

end Pandio
