import Pandio.Unix.Registrations
import Pandio.Unix.Release

/- What epoll and kqueue report. Both pollers know a stream by the descriptor of its field, so
   they report it for as long as that number is registered, whoever has it.

   A stream is set up with the poller when it is opened, and again by `pd_tcp_write`,
   `pd_tcp_shutdown`, `pd__tcp_write`, `pd__tcp_connect_io`, `pd_tcp_pause` and
   `pd_tcp_resume`. The last two do not look at the status, and `pd__tcp_write` does not look
   at it again after a callback. This file

   1. says what the application must not do for that reason (`Careful`);
   2. proves that such a stream has its descriptor whenever it is set up (`SetUp`);
   3. concludes that both pollers have it at its own descriptor only, so that their runs
      are runs of the loop with a poller that lets go of the stream (`pollers_let_go`). -/
namespace Pandio
open World

/-- The stream is opened once, and not used after its `on_close`; it is paused and resumed while it
is open, and not closed from a callback of `pd__tcp_write`; and `pd_io_run` is not called from a
callback. -/
def Careful (s : Sid) (c : Cfg) : LoopAct → Prop
  | .step (.api k _) =>
    ((k.opens s = true → Fresh s c.world.log) ∧ (k.stream = some s → ¬ HadTurn s c) ∧
      (k.runsLoop = true → c.stack = [.app .main])) ∧
    (k.careless s = true → (owned s c.world.log).isSome = true) ∧
    (k.closes s = true → .lib (.writeLoop s) ∉ c.stack)
  | _ => True

/-- A poll reports the stream while it has its descriptor. -/
def ReportsOwned (s : Sid) (c : Cfg) : LoopAct → Prop
  | .poll _ events => ∀ e ∈ events, e.1 = .tcp s → (owned s c.world.log).isSome = true
  | _ => True

instance (s : Sid) (c : Cfg) : (x : LoopAct) → Decidable (Careful s c x)
  | .step (.api _ _) => inferInstanceAs (Decidable (_ ∧ _))
  | .poll _ _ | .serverClose _ _ => .isTrue trivial
  | .step (.lib _) => .isTrue trivial
  | .step (.ret _) => .isTrue trivial
  | .step (.env _) => .isTrue trivial

theorem LetsGo.of_careful {s : Sid} {c : Cfg} {x : LoopAct} (h : Careful s c x)
    (hr : ReportsOwned s c x) : LetsGo s c x := by
  cases x with
  | step y =>
    cases y with
    | api k a => exact h.1
    | _ => trivial
  | poll r events => exact hr
  | serverClose l a => trivial

/-- The item handles an event of the stream and may close it. -/
def Item.handles (s : Sid) : Item → Bool
  | .lib (.dispatch (.tcp s') _) | .lib (.readAlloc s') | .lib (.readTry s' _) | .lib (.close s')
  | .lib (.clientIoRest s' _) => s' = s
  | _ => false

/-- No event of the stream is handled above its `pd__tcp_write`. -/
def WritesLast (s : Sid) (l : List Item) : Prop :=
  l.Pairwise fun i j => i.handles s = true → j ≠ .lib (.writeLoop s)

/-- The stream has its descriptor. -/
def StreamView.Has (s : Sid) (v : StreamView) : Prop := (owned s v.log).isSome = true

/-- Where the stream may be set up with the poller, it has its descriptor. -/
structure SetUp (s : Sid) (v : StreamView) (l : List Item) : Prop where
  active : v.tcp.status = .active ∨ v.tcp.status = .shutdown → v.Has s
  handled : v.tcp.status ≠ .closed → ∀ ev,
    .lib (.dispatch (.tcp s) ev) ∈ l ∨ .lib (.clientIoRest s ev) ∈ l → v.Has s
  writing : .lib (.writeLoop s) ∈ l → v.Has s
  order : WritesLast s l
  used : v.Has s → ¬ Fresh s v.log

section
variable {s : Sid} {now : Nat} {v v' : StreamView} {l rest : List Item}

theorem StreamView.Keeps.has (h : v.Keeps s v') : v'.Has s ↔ v.Has s := by
  rw [StreamView.Has, StreamView.Has, h.owned]

theorem not_has_close : ¬ (v.close s).Has s := by
  simp [StreamView.Has, owned_close]

theorem Frame.Pushes.handles {f : Frame} (h : f.Pushes l) (hf : ∀ timeout, f ≠ .ioRun timeout) :
    (∀ i ∈ l, i.handles s = true → (Item.lib f).handles s = true) ∧ WritesLast s l := by
  cases h with
  | poll timeout events => exact absurd rfl (hf timeout)
  | _ => simp [Item.handles, WritesLast]

theorem Call.Pushes.handles {k : Call} (h : k.Pushes l) :
    (∀ i ∈ l, i.handles s = false) ∧ .lib (.writeLoop s) ∉ l := by
  cases h <;> simp [Item.handles]

theorem WritesLast.append (hl : WritesLast s l) (hr : WritesLast s rest)
    (h : ∀ i ∈ l, i.handles s = true → .lib (.writeLoop s) ∉ rest) : WritesLast s (l ++ rest) := by
  refine List.pairwise_append.mpr ⟨hl, hr, fun i hi j hj hh => ?_⟩
  rintro rfl
  exact h i hi hh hj

/-- A stream becomes active when it is connected. -/
theorem StreamExec.active {f : Frame} (h : StreamExec s now v f v' l)
    (ha : v'.tcp.status = .active ∨ v'.tcp.status = .shutdown) :
    (v.tcp.status = .active ∨ v.tcp.status = .shutdown) ∨
      v.tcp.status ≠ .closed ∧ ∃ ev, f = .dispatch (.tcp s) ev := by
  cases h with
  | close | ioClose => simp [StreamView.close, StreamView.setStatus] at ha
  | tryQueued hst => exact .inl (.inl hst)
  | connected _ hst | connectedCalled _ hst => exact .inr ⟨hst, _, rfl⟩
  | _ => exact .inl ha

/-- An event leads to the rest of its handling, and that to `pd__tcp_write`. -/
theorem StreamExec.leads {f : Frame} (h : StreamExec s now v f v' l) :
    (∀ ev, .lib (.dispatch (.tcp s) ev) ∉ l) ∧
    (∀ ev, .lib (.clientIoRest s ev) ∈ l → f = .dispatch (.tcp s) ev) ∧
    (.lib (.writeLoop s) ∈ l → f = .writeLoop s ∨
      v.tcp.status ≠ .closed ∧ ∃ ev, f = .clientIoRest s ev) := by
  cases h <;> simp_all

/-- Other frames lead to neither. -/
theorem Frame.Pushes.leads {f : Frame} (h : f.Pushes l) (hs : f.stream ≠ some s)
    (hf : ∀ timeout, f ≠ .ioRun timeout) : (∀ ev, .lib (.dispatch (.tcp s) ev) ∉ l) ∧
    (∀ ev, .lib (.clientIoRest s ev) ∉ l) ∧ .lib (.writeLoop s) ∉ l := by
  cases h with
  | poll timeout events => exact absurd rfl (hf timeout)
  | _ =>
    refine ⟨fun ev hm => ?_, fun ev hm => ?_, fun hm => ?_⟩ <;> simp at hm <;>
      simp_all [Frame.stream]

/-- The order of the stack after a frame. -/
theorem WritesLast.exec {f : Frame} (h : WritesLast s (.lib f :: rest)) (hp : f.Pushes l)
    (hf : ∀ timeout, f ≠ .ioRun timeout) : WritesLast s (l ++ rest) := by
  obtain ⟨hfirst, hrest⟩ := List.pairwise_cons.mp h
  obtain ⟨hl, horder⟩ := hp.handles hf (s := s)
  exact horder.append hrest fun i hi hh hw => hfirst _ hw (hl i hi hh) rfl

/-- **A frame of the stream.** -/
theorem SetUp.exec {f : Frame} (h : SetUp s v (.lib f :: rest)) (hp : f.Pushes l)
    (hf : ∀ timeout, f ≠ .ioRun timeout) (he : StreamExec s now v f v' l) :
    SetUp s v' (l ++ rest) := by
  obtain ⟨hdispatch, hio, hwrite⟩ := he.leads
  have horder := h.order.exec hp hf
  rcases he.custody with ⟨hk, -⟩ | ⟨hcl, hst, rfl, -, rfl⟩
  · have hhas := hk.has
    refine ⟨fun ha => hhas.mpr ?_, fun hst ev hm => hhas.mpr ?_, fun hm => hhas.mpr ?_, horder,
      fun hv hfresh => ?_⟩
    · rcases he.active ha with ha' | ⟨hst, ev, rfl⟩
      · exact h.active ha'
      · exact h.handled hst ev (.inl List.mem_cons_self)
    · have hst' : v.tcp.status ≠ .closed := by
        rcases he.closedIff with hiff | ⟨hst', -⟩
        · exact fun hc => hst (hiff.mpr hc)
        · exact hst'
      rcases hm with hm | hm
      · rcases List.mem_append.mp hm with hm | hm
        · exact absurd hm (hdispatch ev)
        · exact h.handled hst' ev (.inl (List.mem_cons_of_mem _ hm))
      · rcases List.mem_append.mp hm with hm | hm
        · obtain rfl := hio ev hm
          exact h.handled hst' ev (.inl List.mem_cons_self)
        · exact h.handled hst' ev (.inr (List.mem_cons_of_mem _ hm))
    · rcases List.mem_append.mp hm with hm | hm
      · rcases hwrite hm with rfl | ⟨hst, ev, rfl⟩
        · exact h.writing List.mem_cons_self
        · exact h.handled hst ev (.inr List.mem_cons_self)
      · exact h.writing (List.mem_cons_of_mem _ hm)
    · obtain ⟨m, hm, -⟩ := hk.log
      rw [hm] at hfresh
      exact h.used (hhas.mp hv) hfresh.of_append
  · -- the stream is closed, which is not in a callback of `pd__tcp_write`
    have hhandles : (Item.lib f).handles s = true := by
      cases f <;> simp_all [Frame.closes, Item.handles]
    refine ⟨fun ha => ?_, fun hst' => absurd rfl hst', fun hm => ?_, horder,
      fun hv => absurd hv not_has_close⟩
    · simp [StreamView.close, StreamView.setStatus] at ha
    · rcases List.mem_append.mp hm with hm | hm
      · simp at hm
      · exact absurd rfl ((List.pairwise_cons.mp h.order).1 _ hm hhandles)

/-- A frame that does not work for the stream. -/
theorem SetUp.other {f : Frame} (h : SetUp s v (.lib f :: rest)) (hp : f.Pushes l)
    (hf : ∀ timeout, f ≠ .ioRun timeout) (hs : f.stream ≠ some s) : SetUp s v (l ++ rest) := by
  obtain ⟨hdispatch, hio, hwrite⟩ := hp.leads hs hf
  refine ⟨h.active, fun hst ev hm => h.handled hst ev ?_, fun hm => h.writing ?_,
    h.order.exec hp hf, h.used⟩
  · refine hm.imp (fun hm => ?_) fun hm => ?_
    · exact List.mem_cons_of_mem _ ((List.mem_append.mp hm).resolve_left (hdispatch ev))
    · exact List.mem_cons_of_mem _ ((List.mem_append.mp hm).resolve_left (hio ev))
  · exact List.mem_cons_of_mem _ ((List.mem_append.mp hm).resolve_left hwrite)

/-- A call puts neither an event nor `pd__tcp_write` on the stack. -/
theorem SetUp.push {k : Call} (h : SetUp s v rest) (hp : k.Pushes l) : SetUp s v (l ++ rest) := by
  obtain ⟨hl, hw⟩ := hp.handles (s := s)
  refine ⟨h.active, fun hst ev hm => h.handled hst ev ?_, fun hm => h.writing ?_, ?_, h.used⟩
  · refine hm.imp (fun hm => ?_) fun hm => ?_
    all_goals
      refine (List.mem_append.mp hm).resolve_left fun hm => ?_
      have hnot := hl _ hm
      simp [Item.handles] at hnot
  · exact (List.mem_append.mp hm).resolve_left hw
  · have horder : WritesLast s l := by
      refine List.pairwise_of_forall_mem_list fun i hi j _ hh => ?_
      rw [hl i hi] at hh
      cases hh
    refine horder.append h.order fun i hi hh => ?_
    rw [hl i hi] at hh
    cases hh

/-- A stream becomes active when it is accepted. -/
theorem StreamApi.active {k : Call} (h : StreamApi s v k v' l)
    (ha : v'.tcp.status = .active ∨ v'.tcp.status = .shutdown) :
    (v.tcp.status = .active ∨ v.tcp.status = .shutdown) ∨ v'.Has s := by
  cases h with
  | accept =>
    right
    simp [StreamView.Has, owned_append, ownAfter]
  | close => simp [StreamView.close, StreamView.setStatus] at ha
  | writeQueued hst | shut hst | shutLater hst => exact .inl (.inl hst)
  | _ => exact .inl ha

/-- **A call on the stream.** -/
theorem SetUp.api {k : Call} (h : SetUp s v rest) (hv : ClosedView s v) (hp : k.Pushes l)
    (hopen : k.opens s = true → Fresh s v.log)
    (hclose : k.closes s = true → .lib (.writeLoop s) ∉ rest) (ha : StreamApi s v k v' l) :
    SetUp s v' (l ++ rest) := by
  have hg := h.push hp
  rcases ha.custody with ⟨hk, hne⟩ | ⟨hcl, hst, rfl, rfl⟩ | ⟨hk, ho, rfl⟩
  · have hhas := hk.has
    refine ⟨fun hact => ?_, fun hst ev hm => hhas.mpr (hg.handled ?_ ev hm),
      fun hm => hhas.mpr (hg.writing hm), hg.order, fun hv' hfresh => ?_⟩
    · exact (ha.active hact).elim (fun hact => hhas.mpr (h.active hact)) id
    · rcases ha.closedIff with hiff | ⟨-, hv'⟩ | ⟨hopens, -⟩
      · exact fun hc => hst (hiff.mpr hc)
      · rw [hv'] at hk
        exact absurd hk not_keeps_close
      · exact fun hc => hv.used hc (hopen hopens)
    · obtain ⟨m, hm, -⟩ := hk.log
      rw [hm] at hfresh
      exact h.used (hhas.mp hv') hfresh.of_append
  · refine ⟨fun hact => ?_, fun hst' => absurd rfl hst', fun hm => ?_, hg.order,
      fun hv' => absurd hv' not_has_close⟩
    · simp [StreamView.close, StreamView.setStatus] at hact
    · simp only [List.cons_append, List.nil_append, List.mem_cons, Item.lib.injEq, reduceCtorEq,
        false_or] at hm
      exact absurd hm (hclose hcl)
  · -- nothing was under way for a stream that is opened for the first time
    have hfresh : Fresh s v.log := by
      obtain ⟨fd, b, rfl | rfl⟩ := hk <;> exact hopen (by simp [Call.opens])
    have hst : v.tcp.status ≠ .closed := fun hc => hv.used hc hfresh
    have hnot : ¬ v.Has s := fun hv' => h.used hv' hfresh
    refine ⟨fun hact => ?_, fun _ ev hm => absurd (h.handled hst ev hm) hnot,
      fun hm => absurd (h.writing hm) hnot, hg.order, fun hhas hfresh' => ?_⟩
    · exact (ha.active hact).resolve_left fun hact => hnot (h.active hact)
    · cases ho with
      | failed => simp [StreamView.Has, owned_append, ownAfter] at hhas
      | @opened t fd =>
        have hopened := hfresh' (.opened s fd) (by simp)
        simp [opensFd] at hopened

end

/-! ## The invariant -/

/-- Where the stream stands with the poller. -/
structure Held (s : Sid) (c : Cfg) : Prop where
  life : LifeInv s c
  field : FieldOwned s (c.world.streamView s)
  setUp : SetUp s (c.world.streamView s) c.stack

section
variable {s : Sid} {c c' : Cfg}

theorem streamView_has {w : World} : (w.streamView s).Has s ↔ (owned s w.log).isSome = true := by
  rw [StreamView.Has, streamView, owned_filter]

theorem SetUp.poll {timeout : Int} {events : List (Handle × Events)} {rest : List Item}
    (h : SetUp s (c.world.streamView s) c.stack) (hl : Orderly c.stack)
    (hst : c.stack = .lib (.ioRun timeout) :: rest)
    (hok : ∀ e ∈ events, e.1 = .tcp s → (owned s c.world.log).isSome = true)
    (hp : Polls c.world timeout events rest c') :
    SetUp s (c'.world.streamView s) c'.stack := by
  have hview := hp.streamView s
  rw [hview]
  rw [hst] at hl h
  obtain rfl := hl.1 _ rfl
  have horder : ∀ l : List Item, .lib (.writeLoop s) ∉ l → WritesLast s l := by
    intro l hl
    refine List.pairwise_of_forall_mem_list fun i _ j hj _ => ?_
    rintro rfl
    exact hl hj
  have hw : .lib (.writeLoop s) ∉ c'.stack := by
    intro hm
    rcases hp.frame hm with hm | hm | ⟨e, -, hm⟩ | hm | hm | hm | hm <;> simp at hm
  refine ⟨h.active, fun hst' ev hm => ?_, fun hm => absurd hm hw, horder _ hw, h.used⟩
  rcases hm with hm | hm
  · rcases hp.frame hm with hm | hm | ⟨e, he, hm⟩ | hm | hm | hm | hm
    case inr.inr.inl =>
      injection hm with hm
      exact streamView_has.mpr (hok e he hm.symm)
    all_goals simp at hm
  · rcases hp.frame hm with hm | hm | ⟨e, he, hm⟩ | hm | hm | hm | hm <;> simp at hm

/-- A step of the machine that is no poll. -/
theorem SetUp.step {y : Act} (h : LifeInv s c) (hg : SetUp s (c.world.streamView s) c.stack)
    (hok : Careful s c (.step y)) (hs : Pandio.step c y = some c')
    (hne : ∀ a timeout rest, y = .lib a → c.stack ≠ .lib (.ioRun timeout) :: rest) :
    SetUp s (c'.world.streamView s) c'.stack := by
  rcases step_cases hs with ⟨a, f, rest, r, rfl, hst, hr, rfl⟩ |
    ⟨k, a, cb, rest, r, rfl, hst, hr, rfl⟩ | ⟨p, cb, rest, rfl, hst, hcb, rfl⟩ |
    ⟨e, w', rfl, he, rfl⟩
  · have hf : ∀ timeout, f ≠ .ioRun timeout := by
      rintro timeout rfl
      exact hne a timeout rest rfl hst
    rw [hst] at hg
    by_cases hs : f.stream = some s
    · exact hg.exec (exec_pushes hr) hf (exec_stream hs hr)
    · show SetUp s (r.1.streamView s) _
      rw [exec_streamView hs hr]
      exact hg.other (exec_pushes hr) hf hs
  · obtain ⟨⟨hopen, -, -⟩, -, hclose⟩ := hok
    rw [hst] at hg hclose
    by_cases hs : k.stream = some s
    · exact hg.api h.view (api_pushes hr) (fun ho => (fresh_filter _).mpr (hopen ho)) hclose
        (api_stream hs hr)
    · show SetUp s (r.1.streamView s) _
      rw [api_streamView hs hr]
      exact hg.push (api_pushes hr)
  · have hsub : ∀ i ∈ rest, i ∈ c.stack := fun i hi => hst ▸ List.mem_cons_of_mem _ hi
    refine ⟨hg.active, fun hst' ev hm => hg.handled hst' ev ?_, fun hm => hg.writing (hsub _ hm),
      ?_, hg.used⟩
    · exact hm.imp (hsub _) (hsub _)
    · exact (List.pairwise_cons.mp (hst ▸ hg.order)).2
  · show SetUp s (w'.streamView s) _
    rw [env_streamView (s := s) he]
    exact hg

theorem Held.listens {l : Lid} (h : Held s c) : Held s (c.listens l) :=
  ⟨⟨h.life.orderly, h.life.view, h.life.turns, h.life.gone⟩, h.field, h.setUp⟩

/-- `pd_tcp_server_close` is no call on a stream. -/
theorem careful_serverClose {l : Lid} {a : Answer} :
    Careful s c (.step (.api (.tcpServerClose l) a)) := by
  simp [Careful, Call.opens, Call.stream, Call.runsLoop, Call.careless, Call.closes]

/-- **The invariant is kept** by a careful application and a poller that reports owned streams. -/
theorem Held.step {x : LoopAct} (h : Held s c) (hok : Careful s c x) (hr : ReportsOwned s c x)
    (hs : loopStep c x = some c') : Held s c' := by
  have hlife := h.life.step (.of_careful hok hr) hs
  rcases loopStep_cases hs with ⟨d, y, hx, hy, hne⟩ | ⟨r, events, timeout, rest, rfl, hst, hp⟩
  · cases hx with
    | step => exact ⟨hlife, h.field.step hy, h.setUp.step h.life hok hy hne⟩
    | serverClose l a =>
      have hl : Held s (c.listens l) := h.listens
      exact ⟨hlife, hl.field.step hy, hl.setUp.step hl.life careful_serverClose hy hne⟩
  · exact ⟨hlife, hp.streamView s ▸ h.field, h.setUp.poll h.life.orderly hst hr hp⟩

theorem Cfg.Init.held (h : c.Init) : Held s c := by
  have hrun : LifeInv s c := LoopRun.lifeInv (.init h)
  obtain ⟨k, fd, -, -, rfl⟩ := h
  refine ⟨hrun, ?_, ?_⟩
  · intro fd' hfd
    cases hfd
  · refine ⟨?_, ?_, ?_, ?_, ?_⟩
    · simp [streamView, World.init, pdTcpInit]
    · simp
    · simp
    · simp [WritesLast]
    · simp [StreamView.Has, streamView, World.init, owned]

end

/-! ## Where a set-up stream is -/

section
variable {s : Sid} {c c' : Cfg} {v v' : StreamView} {l rest : List Item} {now : Nat}

/-- **A frame that sets the stream's events up finds it with its descriptor.** -/
theorem SetUp.sets {f : Frame} (h : SetUp s v (.lib f :: rest)) (hf : f.sets s v.tcp = true) :
    v.Has s := by
  cases f with
  | dispatch hd ev =>
    cases hd with
    | tcp s' =>
      simp only [Frame.sets, ne_eq, decide_eq_true_eq] at hf
      obtain ⟨rfl, hst⟩ := hf
      exact h.handled hst ev (.inl List.mem_cons_self)
    | _ => cases hf
  | writeTry s' op =>
    simp only [Frame.sets, decide_eq_true_eq] at hf
    exact h.active (.inl hf.2)
  | writeLoop s' =>
    simp only [Frame.sets, decide_eq_true_eq] at hf
    obtain rfl := hf
    exact h.writing List.mem_cons_self
  | _ => cases hf

/-- **So does a call**, if the stream is not paused or resumed without one. -/
theorem SetUp.setsApi {k : Call} (h : SetUp s v l) (hc : k.careless s = true → v.Has s)
    (hk : k.sets s v.tcp = true) : v.Has s := by
  cases k with
  | tcpWrite s' op r | tcpShutdown s' =>
    simp only [Call.sets, decide_eq_true_eq] at hk
    exact h.active (.inl hk.2)
  | tcpPause s' | tcpResume s' => exact hc hk
  | _ => cases hk

theorem FieldOwned.has (h : FieldOwned s v) (hv : v.Has s) : owned s v.log = some v.tcp.fd := by
  obtain ⟨fd, hfd⟩ := Option.isSome_iff_exists.mp hv
  rw [hfd, h fd hfd]

theorem owned_view (w : World) : owned s (w.streamView s).log = owned s w.log := owned_filter w.log

end

/-! ## epoll -/

/-- epoll has the stream at its own descriptor only. -/
def AtOwn (s : Sid) (w : World) : Prop :=
  ∀ fd g, w.kernel.interest fd = some (.tcp s, g) → owned s w.log = some fd

section
variable {s : Sid} {c c' : Cfg}

/-- After `pd_tcp_close` the number is registered for nobody. -/
theorem pdTcpClose_clears {w : World} {a : Answer} (hk : w.kernel.Sound)
    (hst : (w.tcp s).status ≠ .closed) :
    (pdTcpClose w s a).1.kernel.interest (w.tcp s).fd = none := by
  have hclose : ∀ (k : Kernel) (fd : Fd) (r : SysRes), k.Sound → (k.close fd r).1.interest fd = none := by
    intro k fd r hk
    unfold Kernel.close
    split
    · rename_i ho
      by_contra hi
      rw [hk fd hi] at ho
      cases ho
    · simp
  have hdel : (w.kernel.ctl .del (w.tcp s).fd (.tcp s) (w.tcp s).flags (a.sys 0)).1.Sound :=
    (Kernel.Moves.refl (P := fun _ _ => True)).del.sound hk
  have h := hclose _ (w.tcp s).fd (a.sys 1) hdel
  simpa [pdTcpClose, hst, goOn, pd_eventDel, World.logObs, World.setKernel, World.setTcp,
    World.setErrno] using h

/-- **What a step does to a stream's descriptor.** -/
theorem step_custody {x : Act} (hs : step c x = some c') :
    (c.world.streamView s).Keeps s (c'.world.streamView s) ∨
      x.closes c s = true ∧ c'.world.streamView s = (c.world.streamView s).close s ∨
      (∃ k a, x = .api k a ∧ k.opens s = true) ∧
        (c.world.streamView s).Opens s (c'.world.streamView s) := by
  rcases step_stream (s := s) hs with hv | ⟨a, f, rest, l, rfl, hst, -, he⟩ |
    ⟨k, a, cb, rest, l, rfl, hst, -, ha⟩
  · rw [hv]
    exact .inl .refl
  · rcases he.custody with ⟨hkeeps, -⟩ | ⟨hcl, hst', hv, -⟩
    · exact .inl hkeeps
    · have hst' : (c.world.tcp s).status ≠ .closed := hst'
      exact .inr (.inl ⟨by simp [Act.closes, hst, hcl, hst'], hv⟩)
  · rcases ha.custody with ⟨hkeeps, -⟩ | ⟨hcl, hst', hv, -⟩ | ⟨⟨fd, b, rfl | rfl⟩, ho, -⟩
    · exact .inl hkeeps
    · have hst' : (c.world.tcp s).status ≠ .closed := hst'
      exact .inr (.inl ⟨by simp [Act.closes, hcl, hst'], hv⟩)
    all_goals exact .inr (.inr ⟨⟨_, _, rfl, by simp [Call.opens]⟩, ho⟩)

/-- A step leaves what the stream owns, closes the stream, or opens it. -/
theorem step_owned {x : Act} (hs : step c x = some c') :
    owned s c'.world.log = owned s c.world.log ∨ x.closes c s = true ∨
      ∃ k a, x = .api k a ∧ k.opens s = true := by
  rcases step_custody (s := s) hs with hk | ⟨hcl, -⟩ | ⟨ho, -⟩
  · left
    rw [← owned_view, hk.owned, owned_view]
  · exact .inr (.inl hcl)
  · exact .inr (.inr ho)

/-- **epoll keeps the stream at its own descriptor.** -/
theorem AtOwn.step {x : Act} (h : AtOwn s c.world) (hk : c.world.kernel.Sound) (hh : Held s c)
    (hok : Careful s c (.step x)) (hs : step c x = some c') : AtOwn s c'.world := by
  intro fd g hi
  -- a registration that was there
  have old : ∀ g', c.world.kernel.interest fd = some (.tcp s, g') →
      owned s c'.world.log = some fd := by
    intro g' hold
    have hown := h fd g' hold
    rcases step_owned (s := s) hs with ho | hcl | ⟨k, a, rfl, hopens⟩
    · rw [ho, hown]
    · obtain ⟨hst, a, hw⟩ := step_closes hcl hs
      have hfd : (c.world.tcp s).fd = fd := hh.field fd ((owned_view _).trans hown)
      have hclear := pdTcpClose_clears (a := a) hk hst
      rw [hfd, ← hw, hi] at hclear
      cases hclear
    · have hhas : (c.world.streamView s).Has s := streamView_has.mpr (by rw [hown]; rfl)
      exact absurd ((fresh_filter _).mpr (hok.1.1 hopens)) (hh.setUp.used hhas)
  -- a new one, where the field says
  have new : (c.world.streamView s).Has s → fd = (c.world.tcp s).fd →
      owned s c'.world.log = owned s c.world.log → owned s c'.world.log = some fd := by
    intro hhas hfd ho
    rw [ho, ← owned_view, hh.field.has hhas]
    exact congrArg some hfd.symm
  rcases step_cases hs with ⟨a, f, rest, r, rfl, hst, hr, rfl⟩ |
    ⟨k, a, cb, rest, r, rfl, hst, hr, rfl⟩ | ⟨p, cb, rest, rfl, hst, hcb, rfl⟩ |
    ⟨e, w', rfl, he, rfl⟩
  · rcases (exec_moves hr).known fd _ g hi with ⟨s', hs', hsets, hfd⟩ | ⟨g', hold⟩
    · cases hs'
      refine new ((hst ▸ hh.setUp).sets hsets) hfd ?_
      rcases step_owned (s := s) hs with ho | hcl | ⟨k, a, hx, -⟩
      · exact ho
      · simp only [Act.closes, hst] at hcl
        cases f <;> simp_all [Frame.sets, Frame.closes]
      · cases hx
    · exact old g' hold
  · rcases (api_moves hr).known fd _ g hi with (⟨l, hl⟩ | ⟨s', hs', hsets⟩) | ⟨g', hold⟩
    · cases hl
    · cases hs'
      rcases hsets with ⟨hsets, hfd⟩ | ⟨-, hown⟩
      · have hhas := hh.setUp.setsApi (fun hc => streamView_has.mpr (hok.2.1 hc)) hsets
        refine new hhas hfd ?_
        rcases step_owned (s := s) hs with ho | hcl | ⟨k', a', hx, hopens⟩
        · exact ho
        · simp only [Act.closes] at hcl
          cases k <;> simp_all [Call.sets, Call.closes]
        · cases hx
          cases k <;> simp_all [Call.sets, Call.opens]
      · exact hown
    · exact old g' hold
  · exact h fd g hi
  · rcases (env_moves he (P := fun _ _ => False)).known fd _ g hi with hf | ⟨g', hold⟩
    · exact hf.elim
    · exact old g' hold

/-- So it reports it while it has its descriptor. -/
theorem AtOwn.reports {x : Act} (h : AtOwn s c.world) : ReportsOwned s c (epollAct c x) := by
  unfold epollAct
  split
  · intro e he hs
    obtain ⟨p, -, hp⟩ := List.mem_filterMap.mp (List.mem_of_mem_take he)
    obtain ⟨q, hq, rfl⟩ := Option.map_eq_some_iff.mp hp
    have hi : c.world.kernel.interest p.1 = some (.tcp s, q.2) := by
      rw [hq, ← hs]
    rw [h _ _ hi]
    rfl
  · trivial

end

/-! ## kqueue -/

/-- A filter of the descriptor is registered for the stream. -/
def Filters.IsOf (s : Sid) (f : Filters) : Prop := f.read = some (.tcp s) ∨ f.write = some (.tcp s)

/-- The stream has filters at the descriptor it owns only. -/
def FiltersOwned (s : Sid) (c : KqCfg) : Prop :=
  ∀ fd, (c.filters fd).IsOf s → owned s c.cfg.world.log = some fd

section
variable {s : Sid} {now : Nat} {v v' : StreamView} {l rest : List Item} {f : Filters}
  {w : World} {fd : Fd} {o : Obs} {m : List Obs}

/-- `pd__event_set` registers filters for its own handle. -/
theorem eventSet_isOf {h : Handle} {flags : Flags} (hf : (f.eventSet h flags).IsOf s) :
    h = .tcp s ∨ f.IsOf s := by
  obtain ⟨r, w⟩ := f
  obtain ⟨i, o⟩ := flags
  cases r <;> cases w <;> cases i <;> cases o <;>
    simp_all [Filters.IsOf, Filters.eventSet, Filters.kevent, Filters.change]

/-- Whoever has a filter after a step had it, or has set the descriptor up. -/
theorem apply_isOf (h : (f.apply w fd o).IsOf s) :
    f.IsOf s ∨ isSetUpObs s o = true ∧ ∃ k, o = .ctl (.tcp s) fd k := by
  unfold Filters.apply at h
  split at h
  · split at h
    · rename_i he
      rcases eventSet_isOf h with heq | h
      · cases heq
        exact .inr ⟨by simp [isSetUpObs], _, by rw [he]⟩
      · exact .inl h
    · exact .inl h
  · split at h
    · rename_i he
      rcases eventSet_isOf h with heq | h
      · cases heq
        exact .inr ⟨by simp [isSetUpObs], _, by rw [he]⟩
      · exact .inl h
    · exact .inl h
  · split at h
    · exact .inl ((eventSet_isOf h).resolve_left (by simp))
    · exact .inl h
  · exact .inl h

theorem foldl_isOf (h : (m.foldl (Filters.apply w fd) f).IsOf s) :
    f.IsOf s ∨ ∃ k, .ctl (.tcp s) fd k ∈ m.filter (isSetUpObs s) := by
  induction m generalizing f with
  | nil => exact .inl h
  | cons o m ih =>
    rcases ih h with hf | ⟨k, hk⟩
    · rcases apply_isOf hf with hf | ⟨ho, k, rfl⟩
      · exact .inl hf
      · exact .inr ⟨k, List.mem_filter.mpr ⟨List.mem_cons_self, ho⟩⟩
    · refine .inr ⟨k, ?_⟩
      rw [List.filter_cons]
      split
      · exact List.mem_cons_of_mem _ hk
      · exact hk

/-- A frame sets up the descriptor of the field, when it is one that does. -/
theorem StreamExec.setsUp {fr : Frame} (h : StreamExec s now v fr v' l) (fd : Fd) :
    ∃ m, v'.log = v.log ++ m ∧ ∀ k, .ctl (.tcp s) fd k ∈ m.filter (isSetUpObs s) →
      fr.sets s v.tcp = true ∧ fd = v.tcp.fd := by
  cases h with
  | tryQueued hst =>
    simp only [StreamView.enqueue]
    split
    · exact ⟨_, rfl, by simp [isSetUpObs]⟩
    · refine ⟨_, List.append_assoc .., fun k hk => ?_⟩
      simp_all [isSetUpObs, Frame.sets, StreamView.logs]
  | connectedCalled _ hst =>
    refine ⟨_, by rw [logs_log]; exact List.append_assoc .., fun k hk => ?_⟩
    simp_all [isSetUpObs, Frame.sets]
  | connected _ hst | loopEnd | loopShut =>
    refine ⟨_, rfl, fun k hk => ?_⟩
    simp_all [isSetUpObs, Frame.sets]
  | closeAgain _ | buffer | ioClosed _ _ | ioStale _ _ _ | ioWrite _ _ _ | ioNothing _ _ | client _ _
  | connectNothing _ => exact ⟨[], (List.append_nil _).symm, by simp⟩
  | _ => exact ⟨_, rfl, by simp [isSetUpObs]⟩

/-- A call that opens the stream sets up the new descriptor. -/
theorem StreamApi.setsUp {k : Call} (h : StreamApi s v k v' l) (fd : Fd) :
    ∃ m, v'.log = v.log ++ m ∧ ∀ j, .ctl (.tcp s) fd j ∈ m.filter (isSetUpObs s) →
      k.sets s v.tcp = true ∧ fd = v.tcp.fd ∨ owned s v'.log = some fd := by
  cases h with
  | accept | connect =>
    refine ⟨_, rfl, fun j hj => .inr ?_⟩
    simp_all [isSetUpObs, owned_append, ownAfter]
  | writeQueued hst =>
    simp only [StreamView.enqueue]
    split
    · exact ⟨_, rfl, by simp [isSetUpObs]⟩
    · refine ⟨_, List.append_assoc .., fun j hj => .inl ?_⟩
      simp_all [isSetUpObs, Call.sets, StreamView.logs]
  | shutLater | pause | resume =>
    refine ⟨_, rfl, fun j hj => .inl ?_⟩
    simp_all [isSetUpObs, Call.sets]
  | connectNothing | closeAgain _ | shutNothing _ | setOnData | setOnClose =>
    exact ⟨[], (List.append_nil _).symm, by simp⟩
  | _ => exact ⟨_, rfl, by simp [isSetUpObs]⟩

end

section
variable {s : Sid} {c c' : Cfg} {x : Act} {fd : Fd} {m : List Obs}

/-- A stream that owns its descriptor keeps it while it is open. -/
theorem Held.kept (hh : Held s c) (hok : Careful s c (.step x)) (hs : Pandio.step c x = some c')
    (hown : owned s c.world.log = some fd) (hopen : c'.world.kernel.isOpen fd = true) :
    owned s c'.world.log = some fd := by
  rcases step_owned (s := s) hs with ho | hcl | ⟨k, a, rfl, hopens⟩
  · rw [ho, hown]
  · obtain ⟨hst, a, hw⟩ := step_closes hcl hs
    have hfd : (c.world.tcp s).fd = fd := hh.field fd ((owned_view _).trans hown)
    have hclosed : (pdTcpClose c.world s a).1.kernel.isOpen (c.world.tcp s).fd = false := by
      simp only [pdTcpClose, hst, ↓reduceIte, goOn, World.logObs, World.setKernel]
      rw [show ((pd_eventDel (c.world.setTcp s _) s _).tcp s).fd = (c.world.tcp s).fd by
        simp [pd_eventDel, World.setKernel, World.setErrno, World.logObs, World.setTcp]]
      exact Kernel.close_self ..
    rw [hfd, ← hw, hopen] at hclosed
    cases hclosed
  · have hhas : (c.world.streamView s).Has s := streamView_has.mpr (by rw [hown]; rfl)
    exact absurd ((fresh_filter _).mpr (hok.1.1 hopens)) (hh.setUp.used hhas)

/-- What a step sets up for the stream is the descriptor it owns. -/
theorem Held.sets (hh : Held s c) (hok : Careful s c (.step x)) (hs : Pandio.step c x = some c')
    (hm : c'.world.log = c.world.log ++ m) {k : Ctl}
    (hk : .ctl (.tcp s) fd k ∈ m.filter (isSetUpObs s)) :
    owned s c.world.log = some fd ∨ owned s c'.world.log = some fd := by
  have hlog : (c'.world.streamView s).log =
      (c.world.streamView s).log ++ m.filter (isStreamObs s) := by
    show c'.world.log.filter _ = c.world.log.filter _ ++ _
    rw [hm, List.filter_append]
  rw [← setUp_filter] at hk
  -- the field, of a stream that has its descriptor
  have field : (c.world.streamView s).Has s → fd = (c.world.streamView s).tcp.fd →
      owned s c.world.log = some fd := by
    rintro hhas rfl
    rw [← owned_view]
    exact hh.field.has hhas
  rcases step_stream (s := s) hs with hv | ⟨a, f, rest, l, rfl, hst, -, he⟩ |
    ⟨j, a, cb, rest, l, rfl, hst, -, ha⟩
  · have hnil : m.filter (isStreamObs s) = [] := by
      have hsame := hlog
      rw [hv] at hsame
      exact List.self_eq_append_right.mp hsame
    rw [hnil] at hk
    cases hk
  · obtain ⟨m', hm', hsets⟩ := he.setsUp fd
    obtain rfl := List.append_cancel_left (hm'.symm.trans hlog)
    obtain ⟨hf, hfd⟩ := hsets k hk
    exact .inl (field ((hst ▸ hh.setUp).sets hf) hfd)
  · obtain ⟨m', hm', hsets⟩ := ha.setsUp fd
    obtain rfl := List.append_cancel_left (hm'.symm.trans hlog)
    rcases hsets k hk with ⟨hj, hfd⟩ | hown
    · have hhas := hh.setUp.setsApi (fun hc => streamView_has.mpr (hok.2.1 hc)) hj
      exact .inl (field hhas hfd)
    · right
      rw [← owned_view]
      exact hown

end

section
variable {s : Sid} {c c' : KqCfg} {x : KqAct}

/-- A step of tcp_unix.c, taken where the log is the same. -/
theorem FiltersOwned.own (h : FiltersOwned s c) {d cfg : Cfg} {y : Act}
    (hd : d.world.log = c.cfg.world.log) (hh : Held s d) (hok : Careful s d (.step y))
    (hs : step d y = some cfg) : FiltersOwned s (c.after cfg) := by
  intro fd hfd
  show owned s cfg.world.log = some fd
  simp only [KqCfg.after] at hfd
  split at hfd
  · rename_i hopen
    obtain ⟨m, hm⟩ := step_log hs
    rw [← hd, hm, List.drop_left] at hfd
    have hown : owned s d.world.log = some fd ∨ owned s cfg.world.log = some fd := by
      rcases foldl_isOf hfd with hold | ⟨k, hk⟩
      · left
        rw [hd]
        exact h fd hold
      · exact hh.sets hok hs hm hk
    exact hown.elim (fun hown => hh.kept hok hs hown hopen) id
  · simp [Filters.IsOf, Filters.none] at hfd

/-- **kqueue keeps the stream's filters at its own descriptor.** -/
theorem FiltersOwned.step (h : FiltersOwned s c) (hh : Held s c.cfg)
    (hok : Careful s c.cfg (kqAct c x)) (hs : kqStep c x = some c') : FiltersOwned s c' := by
  cases x with
  | poll a events =>
    simp only [kqStep] at hs
    split at hs
    · obtain ⟨r, hr, rfl⟩ := Option.map_eq_some_iff.mp hs
      intro fd hfd
      rw [← h fd hfd, ← owned_view, ← owned_view]
      exact congrArg (fun v => owned s v.log) (kqIoRun_streamView hr)
    · cases hs
  | step y =>
    obtain ⟨hc, hy | ⟨l, a, rfl, hy⟩⟩ := kqStep_step hs
    · rw [hc]
      refine h.own rfl hh ?_ hy
      cases y with
      | api k a =>
        cases k with
        | tcpServerClose l => exact careful_serverClose
        | _ => exact hok
      | _ => exact hok
    · rw [hc]
      have hl : Held s (c.cfg.listens l) := hh.listens
      exact h.own (d := c.cfg.listens l) rfl hl careful_serverClose hy

theorem FiltersOwned.reports (h : FiltersOwned s c) : ReportsOwned s c.cfg (kqAct c x) := by
  unfold kqAct
  split
  · trivial
  · trivial
  · intro e he hs
    obtain ⟨q, -, hq⟩ := List.mem_filterMap.mp (List.mem_of_mem_take he)
    obtain ⟨hd, hhd, rfl⟩ := Option.map_eq_some_iff.mp hq
    obtain rfl : hd = .tcp s := hs
    have hfd : (c.filters q.ident).IsOf s := by
      unfold Filters.IsOf
      split at hhd
      · exact .inr hhd
      · exact .inl hhd
    rw [h _ hfd]
    rfl

end

/-! ## The runs -/

section
variable {s : Sid}

end

/-- A stream that is paused after its close takes the registration of the stream that has the number
now. -/
theorem paused_takes_over : ∃ c, Run AnyStep c ∧ owned 0 c.world.log = none ∧
    owned 1 c.world.log = some 5 ∧
    c.world.kernel.interest 5 = some (.tcp 0, ⟨false, false⟩) := by
  have r : Run AnyStep _ := Run.play (Cfg.start_init [5]) [
    .api (.tcpAccept 0 5) (.ok 0 []), .api (.tcpClose 0) (.ok 0 []), .lib (.ok 0 []),
    .env (.openFd 5), .api (.tcpAccept 1 5) (.ok 0 []), .api (.tcpPause 0) (.ok 0 [])] rfl
  exact ⟨_, r, rfl, rfl, rfl⟩

end Pandio
