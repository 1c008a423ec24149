import Pandio.Unix.OwnerSteps
import Pandio.Unix.StreamSteps

/- Which streams the library works for. Under the contract of `KeepsRefs` a stream that
   was never opened keeps the status it was initialised with, is not registered with
   the poller, and has no frame on the stack; so the library closes no stream that
   holds no reference. -/
namespace Pandio
open World

/-! ## The contract -/

/-- The entry of a stream that got its descriptor. -/
def isOpening (s : Sid) : Obs → Bool
  | .opened s' _ => s' = s
  | _ => false

/-- The entry of a listener whose descriptor was registered. -/
def isListening (l : Lid) : Obs → Bool
  | .listening l' _ => l' = l
  | _ => false

/-- The entry of a `pd_tcp_server_close` that returned 0. -/
def isServerClose (l : Lid) : Obs → Bool
  | .serverClosed l' _ => l' = l
  | _ => false

/-- The stream has been opened: by `pd_tcp_accept`, or by a `pd_tcp_connect` that went on to
register its descriptor. -/
def Opened (s : Sid) (log : List Obs) : Prop := ∃ o ∈ log, isOpening s o = true

/-- The stream a call closes. -/
def Call.closesStream : Call → Option Sid
  | .tcpClose s => some s
  | _ => none

/-- The stream a call pauses or resumes. -/
def Call.pauses : Call → Option Sid
  | .tcpPause s | .tcpResume s => some s
  | _ => none

/-- The listener of a call. -/
def Call.listener : Call → Option Lid
  | .tcpListen l _ | .tcpServerClose l => some l
  | _ => none

/-- A call after which each stream was opened at most once, and each listener opened at most once
and not closed more often. -/
def Call.OpensOnce (k : Call) (log : List Obs) : Prop :=
  (∀ s ∈ k.stream, log.countP (isOpening s) ≤ 1) ∧
  ∀ l ∈ k.listener, log.countP (isListening l) ≤ 1 ∧
    log.countP (isServerClose l) ≤ log.countP (isListening l)

/-- The application opens each stream at most once and closes only streams that were opened, and
opens and closes each listener at most once. -/
def OpensOnce (c : Cfg) : Act → Prop
  | .api k a => (∀ s ∈ k.closesStream, Opened s c.world.log) ∧
      ∀ r ∈ api c.world k a, k.OpensOnce r.1.log
  | _ => True

/-- `EPOLL_CTL_ADD` does not fail where its result is not looked at: in `pd_tcp_connect` and
`pd_tcp_listen`. -/
def AddsRegister (_ : Cfg) : Act → Prop
  | .api (.tcpConnect _ _) a => (a.sys 6).isOk = true
  | .api (.tcpListen _ _) a => (a.sys 7).isOk = true
  | _ => True

/-- A stream that was never opened is not paused or resumed while the descriptor number in it, which
a failed `pd_tcp_connect` left there, is registered for another handle. -/
def PausesOwn (c : Cfg) : Act → Prop
  | .api k _ => ∀ s ∈ k.pauses, Opened s c.world.log ∨
      (c.world.kernel.interest (c.world.tcp s).fd).isNone = true
  | _ => True

/-- `pd_io_run` is not called while a stream or a task is held by the stack only: from the callback
of a write that `pd_tcp_close` cancels, from `on_close`, or from a task's `done`. -/
def RunsOutside (c : Cfg) : Act → Prop
  | .api .ioRun _ => closing c.stack = [] ∧ delivering c.stack = []
  | _ => True

/-- What the count of the references needs of the kernel and the application. -/
def KeepsRefs (c : Cfg) (x : Act) : Prop :=
  OpensOnce c x ∧ AddsRegister c x ∧ PausesOwn c x ∧ RunsOutside c x

instance (s : Sid) (log : List Obs) : Decidable (Opened s log) :=
  inferInstanceAs (Decidable (∃ o ∈ log, isOpening s o = true))

instance (k : Call) (log : List Obs) : Decidable (k.OpensOnce log) :=
  inferInstanceAs (Decidable (_ ∧ _))

instance (c : Cfg) : (x : Act) → Decidable (OpensOnce c x)
  | .api _ _ => inferInstanceAs (Decidable (_ ∧ _))
  | .lib _ => .isTrue trivial
  | .ret _ => .isTrue trivial
  | .env _ => .isTrue trivial

instance (c : Cfg) (x : Act) : Decidable (AddsRegister c x) := by
  unfold AddsRegister
  split <;> infer_instance

instance (c : Cfg) : (x : Act) → Decidable (PausesOwn c x)
  | .api k _ => inferInstanceAs (Decidable (∀ s ∈ k.pauses, _))
  | .lib _ => .isTrue trivial
  | .ret _ => .isTrue trivial
  | .env _ => .isTrue trivial

instance (c : Cfg) (x : Act) : Decidable (RunsOutside c x) := by
  unfold RunsOutside
  split <;> infer_instance

instance (c : Cfg) (x : Act) : Decidable (KeepsRefs c x) := inferInstanceAs (Decidable (_ ∧ _))

/-! ## The invariant -/

/-- Only streams that were opened have a status, are registered, or are worked for. -/
structure StreamsOpened (c : Cfg) : Prop where
  status : ∀ s, (c.world.tcp s).status ≠ .none → Opened s c.world.log
  interest : ∀ fd s g, c.world.kernel.interest fd = some (.tcp s, g) → Opened s c.world.log
  frames : ∀ f s, .lib f ∈ c.stack → f.stream = some s → Opened s c.world.log

section
variable {c c' : Cfg} {x : Act} {s : Sid} {v v' : Owners} {new : List Item}

/-- The log of references only grows. -/
theorem OwnerExec.mem_log {f : Frame} (h : OwnerExec v f v' new) {o : Obs} (ho : o ∈ v.log) :
    o ∈ v'.log := by
  cases h <;> first | exact ho | exact List.mem_append_left _ ho

theorem OwnerApi.mem_log {k : Call} {a : Answer} (h : OwnerApi v a k v' new) {o : Obs}
    (ho : o ∈ v.log) : o ∈ v'.log := by
  cases h with
  | same | close => exact ho
  | start | stop | submit => exact List.mem_append_left _ ho
  | _ => exact List.mem_append_left _ (List.mem_append_left _ ho)

theorem Opened.mono {l l' : List Obs} (h : Opened s l) (hl : ∀ o ∈ l, o ∈ l') : Opened s l' := by
  obtain ⟨o, ho, hs⟩ := h
  exact ⟨o, hl o ho, hs⟩

theorem isOpening_owner {o : Obs} (h : isOpening s o = true) : isOwnerObs o = true := by
  cases o <;> first | rfl | cases h

theorem mem_owners_log {w : World} {o : Obs} (ho : isOwnerObs o = true) :
    o ∈ w.owners.log ↔ o ∈ w.log := by
  show o ∈ w.log.filter isOwnerObs ↔ _
  simp [ho]

theorem opened_owners {w : World} : Opened s w.owners.log ↔ Opened s w.log := by
  refine ⟨fun h => h.mono fun o ho => List.mem_of_mem_filter ho, fun h => ?_⟩
  obtain ⟨o, ho, hs⟩ := h
  exact ⟨o, (mem_owners_log (isOpening_owner hs)).mpr ho, hs⟩

/-- `EPOLL_CTL_MOD` of a number that is not registered fails. -/
theorem Kernel.ctl_mod_none {k : Kernel} {fd : Fd} {h : Handle} {f : Flags} {r : SysRes}
    (hi : k.interest fd = none) : (k.ctl .mod fd h f r).1 = k := by
  simp only [Kernel.ctl, hi]
  split <;> rfl

/-- A frame puts on the stack frames of its own stream, and events to be dispatched. -/
theorem Frame.Pushes.stream {f g : Frame} {l : List Item} (h : f.Pushes l) (hg : .lib g ∈ l)
    (hs : g.stream = some s) : f.stream = some s ∨ ∃ ev, g = .dispatch (.tcp s) ev := by
  cases h with
  | poll timeout events =>
    right
    simp only [List.mem_append, List.mem_map, List.mem_cons, List.not_mem_nil, Item.lib.injEq,
      or_false] at hg
    rcases hg with ⟨e, _, rfl⟩ | rfl | rfl | rfl | rfl
    · obtain ⟨h, ev⟩ := e
      cases h with
      | tcp s' =>
        cases hs
        exact ⟨ev, rfl⟩
      | _ => cases hs
    all_goals cases hs
  | _ =>
    simp only [List.mem_cons, List.not_mem_nil, Item.lib.injEq, reduceCtorEq, false_or, or_false]
      at hg
    all_goals first
      | (subst hg; exact .inl hs)
      | (rcases hg with rfl | rfl <;> exact .inl hs)

theorem StreamsOpened.exec {f : Frame} {a : Answer} {rest : List Item} {r : World × List Item}
    (hinv : StreamsOpened ⟨c.world, .lib f :: rest⟩) (h : exec c.world f a = some r) :
    StreamsOpened ⟨r.1, r.2 ++ rest⟩ := by
  obtain ⟨ho, hk⟩ := exec_owner h
  have grow : ∀ {s}, Opened s c.world.log → Opened s r.1.log := by
    intro s hs
    rw [← opened_owners] at hs ⊢
    exact hs.mono fun o => ho.mem_log
  have top : ∀ {s}, f.stream = some s → Opened s r.1.log := fun hs =>
    grow (hinv.frames f _ (by simp) hs)
  constructor
  · intro s hst
    by_cases hf : f.stream = some s
    · exact top hf
    · have ht : r.1.tcp s = c.world.tcp s := congrArg StreamView.tcp (exec_streamView hf h)
      exact grow (hinv.status s (ht ▸ hst))
  · intro fd s g hi
    rcases hk fd (.tcp s) g hi with ⟨s', hs', he⟩ | ⟨g', hg⟩
    · cases he
      exact top hs'
    · exact grow (hinv.interest fd s g' hg)
  · intro g s hg hs
    rcases List.mem_append.mp hg with hg | hg
    · rcases (exec_pushes h).stream hg hs with hf | ⟨ev, rfl⟩
      · exact top hf
      · rcases exec_dispatches h hg with ⟨fd, g, hi⟩ | rfl
        · exact grow (hinv.interest fd s g hi)
        · exact top rfl
    · exact grow (hinv.frames g s (List.mem_cons_of_mem _ hg) hs)

/-- What a call does to a stream that was never opened. -/
theorem StreamApi.unopened {k : Call} {u u' : StreamView} (h : StreamApi s u k u' new)
    (hst : u.tcp.status = .none) (hk : ∀ fd, k ≠ .tcpAccept s fd) (hc : k ≠ .tcpClose s) :
    u'.tcp.status = .none ∧ ∀ f, .lib f ∉ new := by
  cases h with
  | accept => exact absurd rfl (hk _)
  | close | closeAgain => exact absurd rfl hc
  | write h | writeQueued h | shut h | shutLater h =>
    rw [hst] at h
    cases h
  | _ => simp [StreamView.logs, StreamView.setPollin, StreamView.connecting, hst]

theorem StreamsOpened.api {k : Call} {a : Answer} {r : World × List Item}
    (hinv : StreamsOpened c) (hok : KeepsRefs c (.api k a)) (h : api c.world k a = some r) :
    StreamsOpened ⟨r.1, r.2 ++ c.stack⟩ := by
  have ho := api_owner h
  have hk := api_registers h
  have grow : ∀ {s}, Opened s c.world.log → Opened s r.1.log := by
    intro s hs
    rw [← opened_owners] at hs ⊢
    exact hs.mono fun o => ho.mem_log
  -- a stream that is not open is left so, unless the call opens it
  have fresh : ∀ s, k.stream = some s → ¬ Opened s r.1.log →
      (r.1.tcp s).status = .none ∧ ∀ f, .lib f ∉ r.2 := by
    intro s hs hn
    have hst : (c.world.tcp s).status = .none := by
      by_contra hst
      exact hn (grow (hinv.status s hst))
    refine (api_stream hs h).unopened hst ?_ ?_
    · rintro fd rfl
      cases h
      exact hn ⟨.opened s fd, opened_mem, by simp [isOpening]⟩
    · rintro rfl
      exact hn (grow (hok.1.1 s rfl))
  constructor
  · intro s hst
    by_cases hs : k.stream = some s
    · by_contra hn
      exact hst (fresh s hs hn).1
    · have ht : r.1.tcp s = c.world.tcp s := congrArg StreamView.tcp (api_streamView hs h)
      exact grow (hinv.status s (ht ▸ hst))
  · intro fd s g hi
    -- a number that is not registered does not become so by being changed
    have paused : s ∈ k.pauses → (k = .tcpPause s ∨ k = .tcpResume s) → Opened s r.1.log := by
      intro hp hk
      rcases hok.2.2.1 s hp with ho | hnone
      · exact grow ho
      · have hker : r.1.kernel = c.world.kernel := by
          rcases hk with rfl | rfl <;>
          · cases h
            refine Kernel.ctl_mod_none ?_
            simpa [setPollin, World.setTcp] using hnone
        rw [hker] at hi
        exact grow (hinv.interest fd s g hi)
    rcases hk fd (.tcp s) g hi with ⟨hs, hst | rfl | rfl | ⟨fd', hlog⟩⟩ | ⟨g', hg⟩
    · exact grow (hinv.status s (by simp [hst]))
    · exact paused rfl (.inl rfl)
    · exact paused rfl (.inr rfl)
    · exact ⟨_, hlog, by simp [isOpening]⟩
    · exact grow (hinv.interest fd s g' hg)
  · intro g s hg hs
    rcases List.mem_append.mp hg with hg | hg
    · have hks : k.stream = some s := by
        have hp := api_pushes h
        generalize r.2 = l at hp hg
        cases hp <;> simp_all [Frame.stream, Call.stream]
      by_contra hn
      exact (fresh s hks hn).2 g hg
    · exact grow (hinv.frames g s hg hs)

theorem StreamsOpened.step (hinv : StreamsOpened c) (hok : KeepsRefs c x)
    (hs : step c x = some c') : StreamsOpened c' := by
  rcases step_cases hs with ⟨a, f, rest, r, rfl, hst, hr, rfl⟩ |
    ⟨k, a, cb, rest, r, rfl, hst, hr, rfl⟩ | ⟨p, cb, rest, rfl, hst, hcb, rfl⟩ |
    ⟨e, w', rfl, he, rfl⟩
  · have hinv' : StreamsOpened ⟨c.world, .lib f :: rest⟩ := by
      simpa [← hst] using hinv
    exact hinv'.exec hr
  · rw [← hst]
    exact hinv.api hok hr
  · refine ⟨hinv.status, hinv.interest, fun f s hf => hinv.frames f s ?_⟩
    rw [hst]
    exact List.mem_cons_of_mem _ hf
  · have ho := env_owner he
    have hk := (env_keeps he).interest
    have hlog : ∀ s, Opened s w'.log ↔ Opened s c.world.log := by
      intro s
      rw [← opened_owners, ← opened_owners]
      rcases ho with ho | ⟨k, _, ho⟩ <;> rw [ho]
    constructor
    · intro s hst
      have ht : w'.tcp s = c.world.tcp s := congrArg StreamView.tcp (env_streamView he)
      exact (hlog s).mpr (hinv.status s (ht ▸ hst))
    · intro fd s g hi
      obtain ⟨g', hg⟩ := (hk fd (.tcp s) g hi).resolve_left id
      exact (hlog s).mpr (hinv.interest fd s g' hg)
    · intro f s hf hs
      exact (hlog s).mpr (hinv.frames f s hf hs)

theorem Run.streamsOpened (r : Run KeepsRefs c) : StreamsOpened c := by
  refine r.invariant (P := StreamsOpened) ?_ fun c x c' _ hinv hok hs => hinv.step hok hs
  rintro c ⟨k, fd, -, -, rfl⟩
  refine ⟨by simp [World.init, pdTcpInit], ?_, by simp⟩
  intro fd' s g hi
  simp only [World.init] at hi
  split at hi <;> cases hi

end

end Pandio
