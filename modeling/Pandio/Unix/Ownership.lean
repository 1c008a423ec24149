import Pandio.Unix.ClosedStream
import Pandio.Unix.OpenedStreams

/- Which descriptor a stream owns, and what `pd_tcp_close` does when it owns none.
   `pd_tcp_close` looks at nothing but `status`: a stream that is fresh, one that is
   connecting and one whose `pd_tcp_connect` failed all have `PD_TCP_NONE`. The
   descriptor it closes is the one in the stream's field, and it queues a close whose
   turn takes a reference.

   Ownership is read off the log: an open that registers the descriptor gives it,
   a close takes it, and a `pd_tcp_connect` that fails after it has written the field
   leaves a number that is nobody's. This file

   1. proves that the field holds the owned descriptor, and that the opens are at
      least as many as the closes, as long as only owned descriptors are closed;
   2. proves in every run that each open takes one reference, and that each close
      releases at most one, at its turn in the queue (`opens_counted`,
      `closes_counted`): a stream that is queued twice has one turn, and cuts off
      the turns of those behind it;
   3. puts the two together (`closes_own_iff`). -/
namespace Pandio
open World

/-! ## Ownership -/

/-- What an entry of the log does to the descriptor a stream owns. -/
def ownAfter (s : Sid) (own : Option Fd) : Obs → Option Fd
  | .ctl (.tcp s') fd .add => if s' = s then some fd else own
  | .opened s' _ | .abandoned s' _ | .closed s' _ => if s' = s then none else own
  | _ => own

/-- The descriptor that the stream's last open gave it and no close has taken. -/
def owned (s : Sid) (log : List Obs) : Option Fd := log.foldl (ownAfter s) none

/-- `pd_tcp_close` of the stream closes or deregisters the descriptor. -/
def takesFd (s : Sid) (fd : Fd) (o : Obs) : Prop := o = .ctl (.tcp s) fd .del ∨ o = .closed s fd

/-- What the stream's closes have deregistered and closed was the stream's own, and they have
released no more references than its opens took. -/
structure ClosesItsOwn (s : Sid) (log : List Obs) : Prop where
  own : Past (fun past o => ∀ fd, takesFd s fd o → owned s past = some fd) log
  refs : log.count (.refDec (.tcp s)) ≤ log.count (.refInc (.tcp s))

/-- `pd_tcp_close` finds the stream closed already, or with a descriptor of its own. -/
def ClosesOwned (s : Sid) (c : Cfg) (x : Act) : Prop :=
  x.closes c s = true → (owned s c.world.log).isSome

instance (s : Sid) (c : Cfg) (x : Act) : Decidable (ClosesOwned s c x) :=
  inferInstanceAs (Decidable (_ → _))

/-- The entries that say what a stream owns, or take it. -/
def isCustodyObs (s : Sid) : Obs → Bool
  | .ctl (.tcp s') _ .add | .ctl (.tcp s') _ .del | .opened s' _ | .abandoned s' _
  | .closed s' _ => s' = s
  | _ => false

/-- The stream's descriptor is registered. -/
def isAddOf (s : Sid) : Obs → Bool
  | .ctl (.tcp s') _ .add => s' = s
  | _ => false

/-- The stream's descriptor is closed. -/
def isCloseOf (s : Sid) : Obs → Bool
  | .closed s' _ => s' = s
  | _ => false

section
variable {s : Sid} {l m : List Obs} {own : Option Fd} {o : Obs}

theorem ownAfter_idle (ho : isCustodyObs s o = false) : ownAfter s own o = own := by
  unfold ownAfter
  split <;> simp_all [isCustodyObs]

theorem owned_append : owned s (l ++ m) = m.foldl (ownAfter s) (owned s l) :=
  List.foldl_append

theorem isCustodyObs_isStreamObs (ho : isCustodyObs s o = true) : isStreamObs s o = true := by
  unfold isCustodyObs at ho
  split at ho <;> simp_all [isStreamObs]

theorem isAddOf_isCustodyObs (ho : isAddOf s o = true) : isCustodyObs s o = true := by
  unfold isAddOf at ho
  split at ho <;> simp_all [isCustodyObs]

theorem isCloseOf_isCustodyObs (ho : isCloseOf s o = true) : isCustodyObs s o = true := by
  unfold isCloseOf at ho
  split at ho <;> simp_all [isCustodyObs]

theorem takesFd.custody {fd : Fd} (h : takesFd s fd o) : isCustodyObs s o = true := by
  rcases h with rfl | rfl <;> simp [isCustodyObs]

/-- What is about other streams does not matter. -/
theorem owned_filter (l : List Obs) : owned s (l.filter (isStreamObs s)) = owned s l := by
  refine foldl_filter_idle (fun own o ho => ownAfter_idle ?_) none l
  by_contra h
  rw [isCustodyObs_isStreamObs (by simpa using h)] at ho
  cases ho

/-- Entries of a kind are counted among those of the stream. -/
theorem countP_stream {p : Obs → Bool} (hp : ∀ o, p o = true → isCustodyObs s o = true)
    (l : List Obs) : (l.filter (isStreamObs s)).countP p = l.countP p :=
  countP_filter_of (fun o ho => isCustodyObs_isStreamObs (hp o ho)) l

theorem countP_idle {p : Obs → Bool} (hp : ∀ o, p o = true → isCustodyObs s o = true)
    (hm : ∀ o ∈ m, isCustodyObs s o = false) : m.countP p = 0 := by
  rw [List.countP_eq_zero]
  intro o ho hpo
  have := hm o ho
  rw [hp o hpo] at this
  cases this

end

/-! ## The stream's own record -/

/-- The field holds the owned descriptor. -/
def FieldOwned (s : Sid) (v : StreamView) : Prop := ∀ fd, owned s v.log = some fd → v.tcp.fd = fd

/-- The log's closes have taken what opens gave. -/
structure OwnView (s : Sid) (v : StreamView) : Prop where
  past : Past (fun past o => ∀ fd, takesFd s fd o → owned s past = some fd) v.log
  balance : v.log.countP (isCloseOf s) + (if (owned s v.log).isSome then 1 else 0) ≤
    v.log.countP (isAddOf s)

/-- The stream's record and what is logged of it, but for what it owns. -/
structure StreamView.Keeps (s : Sid) (v v' : StreamView) : Prop where
  fd : v'.tcp.fd = v.tcp.fd
  log : ∃ l, v'.log = v.log ++ l ∧ ∀ o ∈ l, isCustodyObs s o = false

section
variable {s : Sid} {now : Nat} {v v' : StreamView} {new : List Item} {fd : Fd}

theorem StreamView.Keeps.refl : StreamView.Keeps s v v := ⟨rfl, [], by simp, by simp⟩

theorem StreamView.Keeps.of_logs {t : Tcp} {l : List Obs} (ht : t.fd = v.tcp.fd)
    (hl : ∀ o ∈ l, isCustodyObs s o = false) :
    StreamView.Keeps s v (StreamView.logs { v with tcp := t } l) := ⟨ht, l, rfl, hl⟩

theorem StreamView.Keeps.trans {v'' : StreamView} (h : v.Keeps s v') (h' : v'.Keeps s v'') :
    v.Keeps s v'' := by
  obtain ⟨l, hl, hidle⟩ := h.log
  obtain ⟨l', hl', hidle'⟩ := h'.log
  refine ⟨h'.fd.trans h.fd, l ++ l', by rw [hl', hl, List.append_assoc], fun o ho => ?_⟩
  exact (List.mem_append.mp ho).elim (hidle o) (hidle' o)

theorem StreamView.Keeps.logs {l : List Obs} (h : v.Keeps s v')
    (hl : ∀ o ∈ l, isCustodyObs s o = false) : v.Keeps s (v'.logs l) :=
  h.trans ⟨rfl, l, rfl, hl⟩

theorem StreamView.Keeps.enqueue {op : Op} (h : v.Keeps s v') : v.Keeps s (v'.enqueue s op) := by
  unfold StreamView.enqueue
  split
  · exact h.trans ⟨rfl, [], by simp [StreamView.setWrites], by simp⟩
  · refine h.trans ⟨rfl, [_], rfl, ?_⟩
    simp [isCustodyObs]

/-- **What a frame does to its stream's descriptor**: it closes it, or leaves it. -/
theorem StreamExec.custody {f : Frame} (h : StreamExec s now v f v' new) :
    v.Keeps s v' ∧ ¬ (closing [.lib f] = [] ∧ new = [.lib (.closeDrain s)]) ∨
    f.closes s = true ∧ v.tcp.status ≠ .closed ∧ v' = v.close s ∧ closing [.lib f] = [] ∧
      new = [.lib (.closeDrain s)] := by
  cases h with
  | close hst => exact .inr ⟨by simp [Frame.closes], hst, rfl, rfl, rfl⟩
  | ioClose hc hst => exact .inr ⟨by simp [Frame.closes, hc], hst, rfl, rfl, rfl⟩
  | tryQueued =>
    refine .inl ⟨?_, by simp⟩
    apply StreamView.Keeps.enqueue
    exact .of_logs rfl (by simp [isCustodyObs])
  | connectedCalled =>
    refine .inl ⟨?_, by simp⟩
    apply StreamView.Keeps.logs
    · exact .of_logs rfl (by simp [isCustodyObs])
    · simp [isCustodyObs]
  | _ =>
    refine .inl ⟨?_, by simp [Item.closing]⟩
    first
      | exact .refl
      | exact .of_logs rfl (by simp [isCustodyObs])

/-- The descriptor an open writes into the stream's record, registered or closed at once. -/
inductive StreamView.Opens (s : Sid) (v : StreamView) : StreamView → Prop where
  | failed {t : Tcp} {fd : Fd} :
      StreamView.Opens s v (StreamView.logs ⟨t, v.log⟩ [.abandoned s fd])
  | opened {t : Tcp} {fd : Fd} : t.fd = fd →
      StreamView.Opens s v (StreamView.logs ⟨t, v.log⟩ [.opened s fd, .ctl (.tcp s) fd .add])

/-- **What a call does to its stream's descriptor.** -/
theorem StreamApi.custody {k : Call} (h : StreamApi s v k v' new) :
    v.Keeps s v' ∧ new ≠ [.lib (.closeDrain s)] ∨
    k.closes s = true ∧ v.tcp.status ≠ .closed ∧ v' = v.close s ∧
      new = [.lib (.closeDrain s)] ∨
    (∃ fd b, k = .tcpAccept s fd ∨ k = .tcpConnect s b) ∧ v.Opens s v' ∧ new = [] := by
  cases h with
  | close hst => exact .inr (.inl ⟨by simp [Call.closes], hst, rfl, rfl⟩)
  | accept => exact .inr (.inr ⟨⟨_, true, .inl rfl⟩, .opened rfl, rfl⟩)
  | connectRefused => exact .inr (.inr ⟨⟨0, _, .inr rfl⟩, .failed, rfl⟩)
  | connect => exact .inr (.inr ⟨⟨0, _, .inr rfl⟩, .opened rfl, rfl⟩)
  | writeQueued =>
    refine .inl ⟨?_, by simp⟩
    apply StreamView.Keeps.enqueue
    exact .of_logs rfl (by simp [isCustodyObs])
  | _ =>
    refine .inl ⟨?_, by simp⟩
    first
      | exact .refl
      | exact .of_logs rfl (by simp [isCustodyObs])
      | exact ⟨rfl, [], by simp, by simp⟩

/-! ## The stream's invariant -/

theorem StreamView.Keeps.owned (h : v.Keeps s v') : owned s v'.log = owned s v.log := by
  obtain ⟨l, hl, hidle⟩ := h.log
  rw [hl, owned_append, foldl_idle fun o ho => ownAfter_idle (hidle o ho)]

/-- The stream's close leaves it without a descriptor. -/
theorem owned_close : owned s (v.close s).log = none := by
  simp [StreamView.close, StreamView.setStatus, owned_append, ownAfter]

theorem StreamView.Opens.fieldOwned (h : v.Opens s v') : FieldOwned s v' := by
  intro fd hfd
  cases h with
  | failed => simp [owned_append, ownAfter] at hfd
  | opened ht =>
    simp only [logs_log, owned_append, List.foldl_cons, List.foldl_nil, ownAfter, ↓reduceIte,
      Option.some.injEq] at hfd
    exact ht.trans hfd

theorem OwnView.keeps (h : OwnView s v) (hk : v.Keeps s v') : OwnView s v' := by
  have ho := hk.owned
  obtain ⟨l, hl, hidle⟩ := hk.log
  constructor
  · rw [hl]
    refine h.past.append fun l1 o l2 hl' fd ht => ?_
    have hm := hidle o (by simp [hl'])
    rw [ht.custody] at hm
    cases hm
  · rw [ho, hl, List.countP_append, List.countP_append,
      countP_idle (fun _ => isCloseOf_isCustodyObs) hidle,
      countP_idle (fun _ => isAddOf_isCustodyObs) hidle]
    exact h.balance

/-- The stream's close, of the descriptor it owns. -/
theorem OwnView.close (h : OwnView s v) (hf : FieldOwned s v) (hown : (owned s v.log).isSome) :
    OwnView s (v.close s) := by
  obtain ⟨fd, hfd⟩ := Option.isSome_iff_exists.mp hown
  have heq := hf fd hfd
  have hdel : owned s (v.log ++ [.ctl (.tcp s) v.tcp.fd .del]) = some fd := by
    rw [owned_append, hfd]
    rfl
  constructor
  · refine h.past.snoc₂ (fun fd' ht => ?_) fun fd' ht => ?_
    · rcases ht with ht | ht <;> cases ht
      rw [hfd, heq]
    · rcases ht with ht | ht <;> cases ht
      rw [hdel, heq]
  · have := h.balance
    simp only [hown, ↓reduceIte] at this
    simpa [StreamView.close, StreamView.setStatus, owned_append, ownAfter, isCloseOf, isAddOf]
      using this

theorem OwnView.opens (h : OwnView s v) (ho : v.Opens s v') : OwnView s v' := by
  have hbal := h.balance
  cases ho with
  | failed =>
    constructor
    · exact h.past.snoc fun fd' ht => by rcases ht with ht | ht <;> cases ht
    · simp only [logs_log, owned_append, List.foldl_cons, List.foldl_nil, ownAfter, ↓reduceIte,
        Option.isSome_none, Bool.false_eq_true, List.countP_append, List.countP_singleton,
        isCloseOf, isAddOf]
      omega
  | opened ht =>
    constructor
    · refine h.past.snoc₂ (fun fd' ht => ?_) fun fd' ht => ?_
      all_goals rcases ht with ht | ht <;> cases ht
    · simp only [logs_log, owned_append, List.foldl_cons, List.foldl_nil, ownAfter, ↓reduceIte,
        Option.isSome_some, List.countP_append, List.countP_cons, List.countP_nil, isCloseOf,
        isAddOf, decide_true, Bool.false_eq_true]
      split at hbal <;> omega

end

section
variable {s : Sid} {c c' : Cfg} {x : Act}

theorem FieldOwned.step (h : FieldOwned s (c.world.streamView s)) (hs : step c x = some c') :
    FieldOwned s (c'.world.streamView s) := by
  have keeps : (c.world.streamView s).Keeps s (c'.world.streamView s) →
      FieldOwned s (c'.world.streamView s) := by
    intro hk fd hfd
    rw [hk.owned] at hfd
    exact hk.fd.trans (h fd hfd)
  have close : c'.world.streamView s = (c.world.streamView s).close s →
      FieldOwned s (c'.world.streamView s) := by
    intro hv fd hfd
    rw [hv, owned_close] at hfd
    cases hfd
  rcases step_stream (s := s) hs with hv | ⟨a, f, rest, l, rfl, hst, -, he⟩ |
    ⟨k, a, cb, rest, l, rfl, hst, -, ha⟩
  · rw [hv]
    exact h
  · rcases he.custody with ⟨hk, -⟩ | ⟨-, -, hv, -⟩
    · exact keeps hk
    · exact close hv
  · rcases ha.custody with ⟨hk, -⟩ | ⟨-, -, hv, -⟩ | ⟨-, ho, -⟩
    · exact keeps hk
    · exact close hv
    · exact ho.fieldOwned

/-- **The field holds the descriptor the stream owns**, in every run. -/
theorem owned_fd {ok : Cfg → Act → Prop} (r : Run ok c) {fd : Fd}
    (h : owned s c.world.log = some fd) : (c.world.tcp s).fd = fd := by
  have hinv : FieldOwned s (c.world.streamView s) := by
    refine r.invariant (P := fun c => FieldOwned s (c.world.streamView s)) ?_
      fun c x c' _ h _ hs => h.step hs
    rintro c ⟨k, fd, -, -, rfl⟩ fd' hfd
    cases hfd
  refine hinv fd ?_
  rw [streamView, owned_filter]
  exact h

/-- **A step keeps the account**, if its close finds the stream with a descriptor of its own. -/
theorem OwnView.step (h : OwnView s (c.world.streamView s)) (hf : FieldOwned s (c.world.streamView s))
    (hok : ClosesOwned s c x) (hs : step c x = some c') : OwnView s (c'.world.streamView s) := by
  have close : x.closes c s = true → OwnView s ((c.world.streamView s).close s) := by
    intro hx
    apply h.close hf
    rw [streamView, owned_filter]
    exact hok hx
  rcases step_stream (s := s) hs with hv | ⟨a, f, rest, l, rfl, hst, -, he⟩ |
    ⟨k, a, cb, rest, l, rfl, hst, -, ha⟩
  · rw [hv]
    exact h
  · rcases he.custody with ⟨hk, -⟩ | ⟨hf, hne, hv, -⟩
    · exact h.keeps hk
    · rw [hv]
      apply close
      simp only [Act.closes, hst, hf, Bool.true_and]
      exact decide_eq_true hne
  · rcases ha.custody with ⟨hk, -⟩ | ⟨hk, hne, hv, -⟩ | ⟨-, ho, -⟩
    · exact h.keeps hk
    · rw [hv]
      apply close
      simp only [Act.closes, hk, Bool.true_and]
      exact decide_eq_true hne
    · exact h.opens ho

theorem Run.ownView (r : Run (ClosesOwned s) c) : OwnView s (c.world.streamView s) := by
  refine r.invariant (P := fun c => OwnView s (c.world.streamView s)) ?_
    fun c x c' r h hok hs => h.step (fun fd hfd => owned_fd r (owned_filter _ ▸ hfd)) hok hs
  rintro c ⟨k, fd, -, -, rfl⟩
  exact ⟨Past.nil, by simp [streamView, World.init, owned]⟩

end

/-! ## References -/

section
variable {s : Sid} {v v' : Owners} {new : List Item} {w w' : World} {a : Answer} {c c' : Cfg}
  {x : Act}

theorem pdTcpConnect_log {b : Bool} : ∃ fd l, (pdTcpConnect w s b a).log = w.log ++ l ∧
    (l = [] ∨ l = [.abandoned s fd] ∨
      l = [.opened s fd, .ctl (.tcp s) fd .add, .refInc (.tcp s)]) := by
  have hquiet : ∀ (w : World) (fd : Fd) (r : SysRes), (closeQuietly w fd r).log = w.log := by
    intro w fd r
    show ((w.setKernel (w.kernel.close fd r).1).setErrno (w.kernel.close fd r).2).log = w.log
    cases (w.kernel.close fd r).2 <;> rfl
  simp only [pdTcpConnect]
  split
  · exact ⟨0, [], by simp [failErrno, World.setResult, World.setErrno], .inl rfl⟩
  · rename_i fd _
    refine ⟨fd, ?_⟩
    split
    · exact ⟨[], by simp [failErrno, World.setResult, hquiet, World.setErrno, World.setKernel],
        .inl rfl⟩
    · split
      · exact ⟨[], by simp [failErrno, World.setResult, hquiet, World.setErrno, World.setKernel],
          .inl rfl⟩
      · exact ⟨[], by simp [failErrno, World.setResult, hquiet, World.setKernel], .inl rfl⟩
      · split
        · refine ⟨_, ?_, .inr (.inr rfl)⟩
          simp [pd_eventAdd, World.logObs, World.setTcp, World.setKernel, World.setErrno, incRefs,
            setRefs, World.setResult]
        · split
          · refine ⟨_, ?_, .inr (.inl rfl)⟩
            simp [failErrno, World.setResult, hquiet, World.setErrno, World.setKernel,
              World.logObs, World.setTcp]
          · refine ⟨_, ?_, .inr (.inr rfl)⟩
            simp [pd_eventAdd, World.logObs, World.setTcp, World.setKernel, incRefs, setRefs,
              World.setResult, World.setErrno]

theorem pdTcpAccept_log {fd : Fd} : (pdTcpAccept w s fd a).log =
    w.log ++ [.opened s fd, .ctl (.tcp s) fd .add, .refInc (.tcp s)] := by
  simp [pdTcpAccept, pd_eventAdd, World.logObs, World.setTcp, World.setKernel, World.setErrno,
    incRefs, setRefs]

/-- A frame takes no reference for a stream. -/
theorem OwnerExec.incs {f : Frame} (h : OwnerExec v f v' new) :
    v'.log.count (.refInc (.tcp s)) = v.log.count (.refInc (.tcp s)) := by
  cases h with
  | accept _ hm =>
    rcases hm with rfl | ⟨peer, now, rfl⟩ <;> simp [Owners.logs, List.count_append]
  | stop | rearm | pendingDec | taskDec | closeQueued =>
    simp [Owners.inc, Owners.dec, Owners.logs, Owners.setActive, List.count_append]
  | _ => rfl

/-- A call takes one only if it opens the stream. -/
theorem OwnerApi.incs {k : Call} (h : OwnerApi v a k v' new)
    (hk : ∀ fd b, k ≠ .tcpAccept s fd ∧ k ≠ .tcpConnect s b) :
    v'.log.count (.refInc (.tcp s)) = v.log.count (.refInc (.tcp s)) := by
  cases h with
  | @accept s' fd =>
    have hne : s' ≠ s := fun he => (hk fd true).1 (by rw [he])
    simp [Owners.inc, Owners.logs, Owners.setClosed, List.count_append, hne]
  | @connect s' fd b =>
    have hne : s' ≠ s := fun he => (hk 0 b).2 (by rw [he])
    simp [Owners.inc, Owners.logs, List.count_append, hne]
  | same | close => rfl
  | listen hm =>
    rcases hm with rfl | ⟨rfl, -⟩ <;>
      simp [Owners.inc, Owners.logs, Owners.setServer, List.count_append]
  | _ =>
    simp [Owners.inc, Owners.dec, Owners.logs, Owners.setActive, List.count_append]

/-- The closes of the stream that are under way: on the stack, or in the queue. -/
def closesDue (s : Sid) (v : Owners) (l : List Item) : Nat :=
  (closing l).count s + v.pendingCloses.count s

/-- **A frame releases a reference of the stream's at the end of a close**, and a close that is
begun is under way; one that is queued can cut off others. -/
theorem OwnerExec.due {f : Frame} (h : OwnerExec v f v' new) :
    f.stream = some s ∧ closing [.lib f] = [] ∧ new = [.lib (.closeDrain s)] ∧
      v'.log.count (.refDec (.tcp s)) + closesDue s v' new ≤
        v.log.count (.refDec (.tcp s)) + closesDue s v [.lib f] + 1 ∨
    ¬ (f.stream = some s ∧ closing [.lib f] = [] ∧ new = [.lib (.closeDrain s)]) ∧
      v'.log.count (.refDec (.tcp s)) + closesDue s v' new ≤
        v.log.count (.refDec (.tcp s)) + closesDue s v [.lib f] := by
  cases h with
  | same hcl _ =>
    refine .inr ⟨?_, by simp only [closesDue, hcl, Nat.le_refl]⟩
    rintro ⟨-, hnil, he⟩
    rw [he, hnil] at hcl
    cases hcl
  | @close _ s' hf hcl _ _ =>
    by_cases hs : s' = s
    · subst hs
      refine .inl ⟨hf, hcl, rfl, ?_⟩
      simp only [closesDue, hcl, Owners.setClosed, closing_cons, closing_nil, Item.closing,
        List.append_nil, List.count_singleton_self, List.count_nil]
      omega
    · have hne : f.stream ≠ some s := fun h => hs (Option.some.inj (hf ▸ h))
      refine .inr ⟨fun h => hne h.1, ?_⟩
      simp [closesDue, hcl, Owners.setClosed, Item.closing, hs]
  | @closeQueued s' =>
    refine .inr ⟨by simp, ?_⟩
    have hcut : (v.pendingCloses.takeWhile (· ≠ s')).count s ≤ v.pendingCloses.count s :=
      (List.takeWhile_sublist _).count_le s
    have hlog : (v.log ++ [Obs.closeQueued s']).count (.refDec (.tcp s)) =
        v.log.count (.refDec (.tcp s)) := by simp [List.count_append]
    show (v.log ++ [Obs.closeQueued s']).count _ + _ ≤ _
    rw [hlog]
    simp only [closesDue, closing_cons, closing_nil, Item.closing, List.append_nil,
      List.count_append, List.count_nil]
    omega
  | accept _ hm hcl _ =>
    refine .inr ⟨by simp [Frame.stream], ?_⟩
    rcases hm with rfl | ⟨peer, now, rfl⟩ <;>
      simp [Owners.logs, List.count_append, closesDue, hcl, Item.closing]
  | stop _ hcl _ =>
    refine .inr ⟨by simp [Frame.stream], ?_⟩
    simp [Owners.dec, Owners.logs, Owners.setActive, List.count_append, closesDue, hcl,
      Item.closing]
  | rearm =>
    refine .inr ⟨by simp [Frame.stream], ?_⟩
    simp [Owners.inc, Owners.logs, Owners.setActive, List.count_append, closesDue, Item.closing]
  | @pending s' rest _ hp hcl _ =>
    refine .inr ⟨by simp [Frame.stream], ?_⟩
    have he : s' :: rest = [s'] ++ rest := rfl
    simp only [closesDue, hcl, hp, he, List.count_append, closing_cons, closing_nil, Item.closing,
      List.append_nil, List.count_nil]
    omega
  | @pendingDec s' =>
    refine .inr ⟨by simp [Frame.stream], ?_⟩
    by_cases hs : s' = s
    · subst hs
      simp [Owners.dec, Owners.logs, List.count_append, closesDue, Item.closing]
      omega
    · simp [Owners.dec, Owners.logs, List.count_append, closesDue, Item.closing, hs]
  | signal =>
    exact .inr ⟨by simp [Frame.stream], le_rfl⟩
  | taskDec =>
    refine .inr ⟨by simp [Frame.stream], ?_⟩
    simp [Owners.dec, Owners.logs, List.count_append, closesDue, Item.closing]

theorem OwnerApi.due {k : Call} (h : OwnerApi v a k v' new) :
    k.closesStream = some s ∧ new = [.lib (.closeDrain s)] ∧
      v'.log.count (.refDec (.tcp s)) + closesDue s v' new =
        v.log.count (.refDec (.tcp s)) + closesDue s v [] + 1 ∨
    new ≠ [.lib (.closeDrain s)] ∧
      v'.log.count (.refDec (.tcp s)) + closesDue s v' new =
        v.log.count (.refDec (.tcp s)) + closesDue s v [] := by
  cases h with
  | same hcl _ =>
    refine .inr ⟨fun he => ?_, by simp only [closesDue, hcl, closing_nil]⟩
    rw [he] at hcl
    cases hcl
  | @close s' _ =>
    by_cases hs : s' = s
    · subst hs
      refine .inl ⟨rfl, rfl, ?_⟩
      simp only [closesDue, Owners.setClosed, closing_cons, closing_nil, Item.closing,
        List.append_nil, List.count_singleton_self, List.count_nil]
      omega
    · exact .inr ⟨by simp [hs], by simp [closesDue, Owners.setClosed, Item.closing, hs]⟩
  | listen hm =>
    refine .inr ⟨by simp, ?_⟩
    rcases hm with rfl | ⟨rfl, -⟩ <;>
      simp [Owners.inc, Owners.logs, Owners.setServer, List.count_append, closesDue]
  | _ =>
    refine .inr ⟨by simp, ?_⟩
    simp [Owners.inc, Owners.dec, Owners.logs, Owners.setActive, Owners.setClosed,
      List.count_append, closesDue]

/-! ## What the log counts -/

/-- What the stream's entries add to a count of the log's. -/
theorem countP_of_log {p : Obs → Bool} (hp : ∀ o, p o = true → isCustodyObs s o = true)
    {l : List Obs} (hl : (w'.streamView s).log = (w.streamView s).log ++ l) :
    w'.log.countP p = w.log.countP p + l.countP p := by
  rw [← countP_stream hp w'.log, ← countP_stream hp w.log, ← List.countP_append]
  exact congrArg (List.countP p) hl

theorem countP_of_keeps {p : Obs → Bool} (hp : ∀ o, p o = true → isCustodyObs s o = true)
    (h : (w.streamView s).Keeps s (w'.streamView s)) : w'.log.countP p = w.log.countP p := by
  obtain ⟨l, hl, hidle⟩ := h.log
  rw [countP_of_log hp hl, countP_idle hp hidle, Nat.add_zero]

theorem countP_of_close (h : w'.streamView s = (w.streamView s).close s) :
    w'.log.countP (isCloseOf s) = w.log.countP (isCloseOf s) + 1 ∧
      w'.log.countP (isAddOf s) = w.log.countP (isAddOf s) := by
  have hl : (w'.streamView s).log = (w.streamView s).log ++
      [.ctl (.tcp s) (w.tcp s).fd .del, .closed s (w.tcp s).fd] := by
    rw [h]
    rfl
  constructor
  · have hone : [.ctl (.tcp s) (w.tcp s).fd .del, .closed s (w.tcp s).fd].countP (isCloseOf s) = 1 := by
      simp [isCloseOf]
    rw [countP_of_log (fun _ => isCloseOf_isCustodyObs) hl, hone]
  · have hzero : [.ctl (.tcp s) (w.tcp s).fd .del, .closed s (w.tcp s).fd].countP (isAddOf s) = 0 := by
      simp [isAddOf]
    rw [countP_of_log (fun _ => isAddOf_isCustodyObs) hl, hzero, Nat.add_zero]

theorem countP_of_opens (h : (w.streamView s).Opens s (w'.streamView s)) :
    w'.log.countP (isCloseOf s) = w.log.countP (isCloseOf s) := by
  obtain ⟨l, hl, hc⟩ : ∃ l, (w'.streamView s).log = (w.streamView s).log ++ l ∧
      l.countP (isCloseOf s) = 0 := by
    generalize w'.streamView s = v' at h
    cases h with
    | failed => exact ⟨_, rfl, by simp [isCloseOf]⟩
    | opened => exact ⟨_, rfl, by simp [isCloseOf]⟩
  rw [countP_of_log (fun _ => isCloseOf_isCustodyObs) hl, hc, Nat.add_zero]

/-- **Each open that registers the descriptor takes one reference.** -/
theorem opens_counted (r : Run AnyStep c) :
    c.world.log.count (.refInc (.tcp s)) = c.world.log.countP (isAddOf s) := by
  refine r.invariant (P := fun c => c.world.log.count (.refInc (.tcp s)) =
    c.world.log.countP (isAddOf s)) ?_ fun c x c' _ h _ hs => ?_
  · rintro c ⟨k, fd, -, -, rfl⟩
    rfl
  have hadd : ∀ o, isAddOf s o = true → isCustodyObs s o = true := fun _ => isAddOf_isCustodyObs
  have alone : ∀ {w' : World}, w'.streamView s = c.world.streamView s →
      w'.log.countP (isAddOf s) = c.world.log.countP (isAddOf s) := fun hb =>
    countP_of_keeps hadd (hb ▸ .refl)
  rcases step_cases hs with ⟨a, f, rest, r, rfl, hst, hr, rfl⟩ |
    ⟨k, a, cb, rest, r, rfl, hst, hr, rfl⟩ | ⟨p, cb, rest, rfl, hst, hcb, rfl⟩ |
    ⟨e, w', rfl, he, rfl⟩
  · have hinc := (exec_owner hr).1.incs (s := s)
    rw [count_owners_log rfl, count_owners_log rfl] at hinc
    rw [hinc, h]
    by_cases hf : f.stream = some s
    · rcases (exec_stream hf hr).custody with ⟨hk, -⟩ | ⟨-, -, hv, -⟩
      · exact (countP_of_keeps hadd hk).symm
      · exact (countP_of_close hv).2.symm
    · exact (alone (exec_streamView hf hr)).symm
  · by_cases hk : ∃ fd b, k = .tcpAccept s fd ∨ k = .tcpConnect s b
    · -- the entries of the call are known
      obtain ⟨fd, b, rfl | rfl⟩ := hk <;> cases hr
      · show (pdTcpAccept c.world s fd a).log.count _ = (pdTcpAccept c.world s fd a).log.countP _
        rw [pdTcpAccept_log, List.count_append, List.countP_append, h]
        simp [isAddOf]
      · show (pdTcpConnect c.world s b a).log.count _ = (pdTcpConnect c.world s b a).log.countP _
        obtain ⟨fd, l, hl, rfl | rfl | rfl⟩ := pdTcpConnect_log (w := c.world) (s := s) (b := b)
          (a := a)
        all_goals
          rw [hl, List.count_append, List.countP_append, h]
          simp [isAddOf]
    · have hinc := (api_owner hr).incs (s := s) fun fd b =>
        ⟨fun he => hk ⟨fd, b, .inl he⟩, fun he => hk ⟨fd, b, .inr he⟩⟩
      rw [count_owners_log rfl, count_owners_log rfl] at hinc
      rw [hinc, h]
      by_cases hks : k.stream = some s
      · rcases (api_stream hks hr).custody with ⟨hkeep, -⟩ | ⟨-, -, hv, -⟩ | ⟨ho, -⟩
        · exact (countP_of_keeps hadd hkeep).symm
        · exact (countP_of_close hv).2.symm
        · exact absurd ho hk
      · exact (alone (api_streamView hks hr)).symm
  · exact h
  · have hinc : w'.log.count (.refInc (.tcp s)) = c.world.log.count (.refInc (.tcp s)) := by
      rw [← count_owners_log rfl, ← count_owners_log rfl]
      rcases env_owner he with ho | ⟨t, -, ho⟩ <;> rw [ho]
    rw [hinc, h]
    exact (alone (env_streamView he)).symm

/-- **Each close releases at most one reference**, when its turn in the queue has come. -/
theorem closes_counted (r : Run AnyStep c) :
    c.world.log.count (.refDec (.tcp s)) + closesDue s c.world.owners c.stack ≤
      c.world.log.countP (isCloseOf s) := by
  refine r.invariant (P := fun c => c.world.log.count (.refDec (.tcp s)) +
    closesDue s c.world.owners c.stack ≤ c.world.log.countP (isCloseOf s)) ?_
    fun c x c' _ h _ hs => ?_
  · rintro c ⟨k, fd, -, -, rfl⟩
    exact le_rfl
  have hclose : ∀ o, isCloseOf s o = true → isCustodyObs s o = true :=
    fun _ => isCloseOf_isCustodyObs
  have alone : ∀ {w' : World}, w'.streamView s = c.world.streamView s →
      w'.log.countP (isCloseOf s) = c.world.log.countP (isCloseOf s) := fun hb =>
    countP_of_keeps hclose (hb ▸ .refl)
  -- what is due on the stack is due in its parts
  have split : ∀ (v : Owners) (l m : List Item),
      closesDue s v (l ++ m) = closesDue s v l + (closing m).count s := by
    intro v l m
    simp only [closesDue, closing_append, List.count_append]
    omega
  rcases step_cases hs with ⟨a, f, rest, r, rfl, hst, hr, rfl⟩ |
    ⟨k, a, cb, rest, r, rfl, hst, hr, rfl⟩ | ⟨p, cb, rest, rfl, hst, hcb, rfl⟩ |
    ⟨e, w', rfl, he, rfl⟩
  · have hstack : c.stack = [.lib f] ++ rest := hst
    rw [hstack, split] at h
    show r.1.log.count _ + closesDue s r.1.owners (r.2 ++ rest) ≤ _
    rw [split]
    have hdue := (exec_owner hr).1.due (s := s)
    simp only [count_owners_log (w := c.world) (o := .refDec (.tcp s)) rfl,
      count_owners_log (w := r.1) (o := .refDec (.tcp s)) rfl] at hdue
    by_cases hf : f.stream = some s
    · rcases (exec_stream hf hr).custody with ⟨hk, hne⟩ | ⟨-, -, hv, hc, hn⟩
      · rw [countP_of_keeps hclose hk]
        rcases hdue with ⟨-, hc, hn, -⟩ | ⟨-, hdue⟩
        · exact absurd ⟨hc, hn⟩ hne
        · omega
      · rw [(countP_of_close hv).1]
        rcases hdue with ⟨-, -, -, hdue⟩ | ⟨hne, -⟩
        · omega
        · exact absurd ⟨hf, hc, hn⟩ hne
    · rw [alone (exec_streamView hf hr)]
      rcases hdue with ⟨hf', -⟩ | ⟨-, hdue⟩
      · exact absurd hf' hf
      · omega
  · have hstack : ∀ v, closesDue s v c.stack = closesDue s v [] + (closing c.stack).count s :=
      fun v => split v [] c.stack
    rw [hstack] at h
    show r.1.log.count _ + closesDue s r.1.owners (r.2 ++ .app cb :: rest) ≤ _
    rw [← hst, split]
    have hdue := (api_owner hr).due (s := s)
    simp only [count_owners_log (w := c.world) (o := .refDec (.tcp s)) rfl,
      count_owners_log (w := r.1) (o := .refDec (.tcp s)) rfl] at hdue
    by_cases hks : k.stream = some s
    · have hkeep : r.2 ≠ [.lib (.closeDrain s)] →
          r.1.log.countP (isCloseOf s) = c.world.log.countP (isCloseOf s) := by
        intro hne
        rcases (api_stream hks hr).custody with ⟨hk, -⟩ | ⟨-, -, -, hn⟩ | ⟨-, ho, -⟩
        · exact countP_of_keeps hclose hk
        · exact absurd hn hne
        · exact countP_of_opens ho
      rcases hdue with ⟨hk, hn, hdue⟩ | ⟨hne, hdue⟩
      · rcases (api_stream hks hr).custody with ⟨-, hne⟩ | ⟨-, -, hv, -⟩ | ⟨-, -, hnil⟩
        · exact absurd hn hne
        · rw [(countP_of_close hv).1]
          omega
        · rw [hn] at hnil
          cases hnil
      · rw [hkeep hne]
        omega
    · rw [alone (api_streamView hks hr)]
      rcases hdue with ⟨hk', -⟩ | ⟨-, hdue⟩
      · refine absurd ?_ hks
        cases k <;> cases hk'
        rfl
      · omega
  · rw [hst] at h
    exact h
  · have ho : w'.log.count (.refDec (.tcp s)) = c.world.log.count (.refDec (.tcp s)) ∧
        w'.owners.pendingCloses = c.world.owners.pendingCloses := by
      rw [← count_owners_log rfl, ← count_owners_log rfl]
      rcases env_owner he with ho | ⟨t, -, ho⟩ <;> rw [ho] <;> exact ⟨rfl, rfl⟩
    show w'.log.count _ + closesDue s w'.owners c.stack ≤ _
    rw [alone (env_streamView he), ho.1, closesDue, ho.2]
    exact h

/-! ## Closes -/

theorem pdTcpClose_log (hst : (w.tcp s).status ≠ .closed) : (pdTcpClose w s a).1.log =
    w.log ++ [.ctl (.tcp s) (w.tcp s).fd .del, .closed s (w.tcp s).fd] := by
  simp [pdTcpClose, hst, goOn, pd_eventDel, World.logObs, World.setKernel, World.setErrno,
    World.setTcp]

/-- The kernel's side of the descriptor is as it was. -/
def Kernel.Spares (k k' : Kernel) (fd : Fd) : Prop :=
  k'.isOpen fd = k.isOpen fd ∧ k'.interest fd = k.interest fd

/-- `pd_tcp_close` leaves all descriptors but that of the field alone. -/
theorem pdTcpClose_spares {fd : Fd} (hfd : (w.tcp s).fd ≠ fd) :
    w.kernel.Spares (pdTcpClose w s a).1.kernel fd := by
  have hdel : ∀ (k : Kernel) (f : Flags) (r : SysRes),
      k.Spares (k.ctl .del (w.tcp s).fd (.tcp s) f r).1 fd := by
    intro k f r
    unfold Kernel.ctl
    split
    · exact ⟨rfl, rfl⟩
    · split <;> simp [Kernel.Spares, hfd.symm]
  have hclose : ∀ (k : Kernel) (r : SysRes), k.Spares (k.close (w.tcp s).fd r).1 fd := by
    intro k r
    unfold Kernel.close
    split
    · exact ⟨rfl, rfl⟩
    · simp [Kernel.Spares, hfd.symm]
  by_cases hst : (w.tcp s).status = .closed
  · simp [pdTcpClose, hst, goOn, Kernel.Spares]
  · have h1 := hdel w.kernel (w.tcp s).flags (a.sys 0)
    have h2 := hclose (w.kernel.ctl .del (w.tcp s).fd (.tcp s) (w.tcp s).flags (a.sys 0)).1 (a.sys 1)
    have h3 : w.kernel.Spares _ fd := ⟨h2.1.trans h1.1, h2.2.trans h1.2⟩
    simpa [pdTcpClose, hst, goOn, pd_eventDel, World.logObs, World.setKernel, World.setErrno,
      World.setTcp] using h3

/-- A step that closes the stream is `pd_tcp_close`. -/
theorem step_closes (hx : x.closes c s = true) (hs : step c x = some c') :
    (c.world.tcp s).status ≠ .closed ∧ ∃ a, c'.world = (pdTcpClose c.world s a).1 := by
  rcases step_cases hs with ⟨a, f, rest, r, rfl, hst, hr, rfl⟩ |
    ⟨k, a, cb, rest, r, rfl, hst, hr, rfl⟩ | ⟨p, cb, rest, rfl, hst, hcb, rfl⟩ |
    ⟨e, w', rfl, he, rfl⟩
  · simp only [Act.closes, hst, Bool.and_eq_true, decide_eq_true_eq] at hx
    refine ⟨hx.2, a, ?_⟩
    replace hx := hx.1
    cases f with
    | close s' =>
      obtain rfl : s' = s := of_decide_eq_true hx
      cases hr
      rfl
    | clientIoRest s' ev =>
      simp only [Frame.closes, Bool.and_eq_true, decide_eq_true_eq] at hx
      obtain ⟨rfl, hev⟩ := hx
      cases hr
      simp only [clientIoRest, hev, ↓reduceIte]
    | _ => cases hx
  · simp only [Act.closes, Bool.and_eq_true, decide_eq_true_eq] at hx
    refine ⟨hx.2, a, ?_⟩
    replace hx := hx.1
    cases k with
    | tcpClose s' =>
      obtain rfl : s' = s := of_decide_eq_true hx
      cases hr
      rfl
    | _ => cases hx
  · simp [Act.closes] at hx
  · simp [Act.closes] at hx

theorem Run.closesItsOwn (r : Run (ClosesOwned s) c) : ClosesItsOwn s c.world.log := by
  have h := r.ownView
  constructor
  · refine h.past.of_filter.mono fun past o hp fd ht => ?_
    rw [← owned_filter]
    exact hp (isCustodyObs_isStreamObs ht.custody) fd ht
  · have hany : Run AnyStep c := r.mono fun _ _ _ => trivial
    have hopens := opens_counted (s := s) hany
    have hcloses := closes_counted (s := s) hany
    have hbal : (c.world.log.filter (isStreamObs s)).countP (isCloseOf s) +
        (if (owned s (c.world.streamView s).log).isSome then 1 else 0) ≤
        (c.world.log.filter (isStreamObs s)).countP (isAddOf s) := h.balance
    rw [countP_stream (p := isCloseOf s) fun _ => isCloseOf_isCustodyObs,
      countP_stream (p := isAddOf s) fun _ => isAddOf_isCustodyObs] at hbal
    omega

/-- **A stream closes what it owns, and releases what it took**, in a run in which every
`pd_tcp_close` finds it closed already or with a descriptor of its own; and the first that finds
it otherwise does not. A close of its own descriptor leaves every other as it was. -/
theorem closes_own_iff (r : Run (ClosesOwned s) c) : ClosesItsOwn s c.world.log ∧
    ∀ x c', step c x = some c' →
      (ClosesOwned s c x ↔ ClosesItsOwn s c'.world.log) ∧
      (ClosesOwned s c x → x.closes c s = true → ∀ fd, owned s c.world.log ≠ some fd →
        c.world.kernel.Spares c'.world.kernel fd) := by
  refine ⟨r.closesItsOwn, fun x c' hs => ⟨⟨fun hok => Run.closesItsOwn (r.step hok hs), ?_⟩, ?_⟩⟩
  · intro h hx
    obtain ⟨hst, a, hw⟩ := step_closes hx hs
    have hown := h.own c.world.log (.ctl (.tcp s) (c.world.tcp s).fd .del)
      [.closed s (c.world.tcp s).fd] (by rw [hw, pdTcpClose_log hst]) _ (.inl rfl)
    rw [hown]
    rfl
  · intro hok hx fd hfd
    obtain ⟨-, a, hw⟩ := step_closes hx hs
    obtain ⟨fd', hown⟩ := Option.isSome_iff_exists.mp (hok hx)
    have heq := owned_fd r hown
    rw [hw]
    apply pdTcpClose_spares
    rintro rfl
    exact hfd (heq ▸ hown)

/-- A stream that is accepted, closed, and released when the loop has come to its close. -/
theorem closes_own_one : ∃ c, Run (ClosesOwned 0) c ∧ c.world.log.count (.refDec (.tcp 0)) = 1 ∧
    c.world.refs = 0 ∧ ClosesItsOwn 0 c.world.log := by
  have hplay : ∃ c, Run (ClosesOwned 0) c ∧ c.world.log.count (.refDec (.tcp 0)) = 1 ∧
      c.world.refs = 0 := by
    have r : Run (ClosesOwned 0) _ := Run.play (Cfg.start_init [5])
      [.api (.tcpAccept 0 5) (.ok 0 []), .api (.tcpClose 0) (.ok 0 []), .lib (.ok 0 []),
        .api .ioRun (.ok 0 []), .lib (.ok 0 []), .lib (.ok 0 []), .lib (.ok 0 []),
        .lib (.ok 0 [])] rfl
    exact ⟨_, r, rfl, rfl⟩
  obtain ⟨c, r, hone, hzero⟩ := hplay
  exact ⟨c, r, hone, hzero, (closes_own_iff r).1⟩

/-- Two streams that were never opened are closed beside one that is open: the counter falls below
0. And a stream whose `pd_tcp_connect` failed is closed when another has its number: the library
closes the other's descriptor. -/
theorem not_closes_own : (¬ ∀ s c, Run AnyStep c → ClosesItsOwn s c.world.log) ∧
    (∃ c, Run AnyStep c ∧ c.world.log.count (.refInc (.tcp 0)) = 0 ∧
      c.world.log.count (.refDec (.tcp 0)) = 1 ∧ c.world.refs = 2 ^ 64 - 1) ∧
    ∃ c, Run AnyStep c ∧ owned 1 c.world.log = some 5 ∧ .closed 0 5 ∈ c.world.log ∧
      (c.world.tcp 1).status = .active ∧ c.world.kernel.isOpen 5 = false := by
  have hwrap : ∃ c, Run AnyStep c ∧ c.world.log.count (.refInc (.tcp 0)) = 0 ∧
      c.world.log.count (.refDec (.tcp 0)) = 1 ∧ c.world.refs = 2 ^ 64 - 1 := by
    have r : Run AnyStep _ := Run.play (Cfg.start_init [5])
      [.api (.tcpAccept 1 5) (.ok 0 []), .api (.tcpClose 0) (.ok 0 []), .lib (.ok 0 []),
        .api (.tcpClose 2) (.ok 0 []), .lib (.ok 0 []), .api .ioRun (.ok 0 []), .lib (.ok 0 []),
        .lib (.ok 0 []), .lib (.ok 0 []), .lib (.ok 0 []), .lib (.ok 0 []), .lib (.ok 0 [])] rfl
    exact ⟨_, r, rfl, rfl, rfl⟩
  have hstale : ∃ c, Run AnyStep c ∧ owned 1 c.world.log = some 5 ∧ .closed 0 5 ∈ c.world.log ∧
      (c.world.tcp 1).status = .active ∧ c.world.kernel.isOpen 5 = false := by
    have r : Run AnyStep _ := Run.play (Cfg.start_init [])
      [.api (.tcpConnect 0 false) (.failsAt 5 4 101 (by decide)), .env (.openFd 5),
        .api (.tcpAccept 1 5) (.ok 0 []), .api (.tcpClose 0) (.ok 0 [])] rfl
    exact ⟨_, r, rfl, by decide, rfl, rfl⟩
  refine ⟨fun h => ?_, hwrap, hstale⟩
  obtain ⟨c, r, hinc, hdec, -⟩ := hwrap
  have hle := (h 0 c r).refs
  omega

end

end Pandio
