import Pandio.Unix.AnyPoller
import Pandio.Unix.Forgotten
import Pandio.Unix.Inflow

/- When a stream's memory may be freed. The library calls `on_close` of a stream in
   `pd__tcp_pending_close`, after the events of the iteration and the timers, so a stream that
   has had its turn there is in no event that waits to be handled, in no list and in no
   function that is under way. The application may free it, and the operations it passed to
   it, in `on_close`.

   That holds of streams that are opened once after `pd_tcp_init`, as long as `pd_io_run` is
   not run from a callback, which would deliver the pending closes in the middle of an outer
   iteration, and as long as the poller reports a stream only while it has the descriptor.

   The functions of tcp_unix.c and the two pollers are the same in this; the loop is that
   of any poller. -/
namespace Pandio
open World

/-! ## The contract -/

/-- The item is a step of the library that works for the stream. -/
def Item.holds (s : Sid) : Item → Bool
  | .lib f => f.stream = some s
  | .app _ => false

/-- The stream has left `pending_closes`: its `on_close` is called then, if it is set. -/
def HadTurn (s : Sid) (c : Cfg) : Prop :=
  .lib (.pendingCloseDec s) ∈ c.stack ∨ .refDec (.tcp s) ∈ c.world.log

/-- The stream was neither opened nor closed since `pd_tcp_init`. -/
def Fresh (s : Sid) (log : List Obs) : Prop := ∀ o ∈ log, opensFd s o = false

/-- The call runs the loop. -/
def Call.runsLoop : Call → Bool
  | .ioRun => true
  | _ => false

/-- The stream is opened once, and not used after its `on_close`; `pd_io_run` is not called from a
callback; and the poller reports the stream while it has its descriptor. -/
def LetsGo (s : Sid) (c : Cfg) : LoopAct → Prop
  | .step (.api k _) =>
    (k.opens s = true → Fresh s c.world.log) ∧ (k.stream = some s → ¬ HadTurn s c) ∧
      (k.runsLoop = true → c.stack = [.app .main])
  | .poll _ events => ∀ e ∈ events, e.1 = .tcp s → (owned s c.world.log).isSome = true
  | _ => True

instance (s : Sid) (c : Cfg) : Decidable (HadTurn s c) := inferInstanceAs (Decidable (_ ∨ _))

instance (s : Sid) (log : List Obs) : Decidable (Fresh s log) :=
  inferInstanceAs (Decidable (∀ _ ∈ _, _))

instance (s : Sid) (c : Cfg) : (x : LoopAct) → Decidable (LetsGo s c x)
  | .step (.api _ _) => inferInstanceAs (Decidable (_ ∧ _))
  | .poll _ _ => inferInstanceAs (Decidable (∀ _ ∈ _, _))
  | .step (.lib _) => .isTrue trivial
  | .step (.ret _) => .isTrue trivial
  | .step (.env _) => .isTrue trivial
  | .serverClose _ _ => .isTrue trivial

/-! ## The order of the stack -/

/-- What is below a frame of the loop, when the loop is not run from a callback. -/
def Item.below : Item → Option (List Item)
  | .lib .pendingClose | .lib (.pendingCloseDec _) =>
    some [.lib .ioAfterTick, .lib .ioNext, .app .main]
  | .lib .ioAfterTick => some [.lib .ioNext, .app .main]
  | .lib .ioNext | .lib (.ioRun _) => some [.app .main]
  | _ => none

/-- Every frame of the loop has what it should have below it. -/
def Orderly : List Item → Prop
  | [] => True
  | i :: l => (∀ m ∈ i.below, l = m) ∧ Orderly l

section
variable {s : Sid} {l m rest : List Item} {i : Item} {c c' : Cfg}

theorem Orderly.append (hl : ∀ i ∈ l, i.below = none) (hm : Orderly m) : Orderly (l ++ m) := by
  induction l with
  | nil => exact hm
  | cons i l ih =>
    refine ⟨?_, ih fun j hj => hl j (List.mem_cons_of_mem i hj)⟩
    rw [hl i List.mem_cons_self]
    simp

theorem Orderly.push {f : Frame} (h : Orderly (.lib f :: rest)) (hp : f.Pushes l) :
    Orderly (l ++ rest) := by
  obtain ⟨hf, hrest⟩ := h
  cases hp with
  | poll timeout events =>
    obtain rfl := hf _ rfl
    rw [List.append_assoc]
    refine Orderly.append ?_ ⟨by simp [Item.below], by simp [Item.below], by simp [Item.below],
      by simp [Item.below], hrest⟩
    intro i hi
    obtain ⟨e, -, rfl⟩ := List.mem_map.mp hi
    rfl
  | pollAgain timeout => exact ⟨hf, hrest⟩
  | pending | pendingDec =>
    obtain rfl := hf _ rfl
    exact ⟨by simp [Item.below], hrest⟩
  | pendingCalled =>
    obtain rfl := hf _ rfl
    exact ⟨by simp [Item.below], by simp [Item.below], hrest⟩
  | next timeout =>
    obtain rfl := hf _ rfl
    exact ⟨by simp [Item.below], hrest⟩
  | _ => exact Orderly.append (by simp [Item.below]) hrest

theorem Orderly.api {k : Call} {cb : Cb} (h : Orderly (.app cb :: rest)) (hp : k.Pushes l)
    (hk : k.runsLoop = true → .app cb :: rest = [.app .main]) :
    Orderly (l ++ .app cb :: rest) := by
  cases hp with
  | ioRun timeout => exact ⟨by simp [Item.below, hk rfl], h⟩
  | _ => exact Orderly.append (by simp [Item.below]) h

theorem Orderly.poll {w : World} {timeout : Int} {events : List (Handle × Events)}
    (h : Orderly (.lib (.ioRun timeout) :: rest)) (hp : Polls w timeout events rest c') :
    Orderly c'.stack := by
  cases hp with
  | ends => exact h.2
  | again => exact h
  | reports => exact h.push (.poll timeout events)

end

/-! ## The close of a stream -/

section
variable {s : Sid} {now : Nat} {v v' : StreamView} {l : List Item}

theorem Fresh.of_append {log m : List Obs} (h : Fresh s (log ++ m)) : Fresh s log := fun o ho =>
  h o (List.mem_append_left m ho)

theorem fresh_filter (log : List Obs) : Fresh s (log.filter (isStreamObs s)) ↔ Fresh s log := by
  refine ⟨fun h o ho => ?_, fun h o ho => h o (List.mem_filter.mp ho).1⟩
  by_contra hn
  have hopen : opensFd s o = true := by simpa using hn
  have hstream : isStreamObs s o = true := isFdObs_isStreamObs (by simp [isFdObs, hopen])
  rw [h o (List.mem_filter.mpr ⟨ho, hstream⟩)] at hopen
  cases hopen

/-- A frame closes its stream, or leaves it closed or not. -/
theorem StreamExec.closedIff {f : Frame} (h : StreamExec s now v f v' l) :
    (v'.tcp.status = .closed ↔ v.tcp.status = .closed) ∨
      v.tcp.status ≠ .closed ∧ v' = v.close s := by
  cases h with
  | close hst | ioClose _ hst => exact .inr ⟨hst, rfl⟩
  | connected _ hst | connectedCalled _ hst =>
    left
    simp [StreamView.connected, hst]
  | tryQueued hst =>
    left
    unfold StreamView.enqueue
    split <;> rfl
  | _ => exact .inl Iff.rfl

/-- A call closes its stream, opens it, or leaves it closed or not. -/
theorem StreamApi.closedIff {k : Call} (h : StreamApi s v k v' l) :
    (v'.tcp.status = .closed ↔ v.tcp.status = .closed) ∨
      (v.tcp.status ≠ .closed ∧ v' = v.close s) ∨
      k.opens s = true ∧ (v.tcp.status ≠ .closed → v'.tcp.status ≠ .closed) := by
  cases h with
  | accept => exact .inr (.inr ⟨by simp [Call.opens], by simp⟩)
  | connect => exact .inr (.inr ⟨by simp [Call.opens], id⟩)
  | close hst => exact .inr (.inl ⟨hst, rfl⟩)
  | shut hst | shutLater hst =>
    left
    simp [StreamView.setStatus, StreamView.setPollout, hst]
  | writeQueued hst =>
    left
    unfold StreamView.enqueue
    split <;> rfl
  | _ => exact .inl Iff.rfl

/-- A closed stream has no descriptor, and was opened or closed before. -/
structure ClosedView (s : Sid) (v : StreamView) : Prop where
  owned : v.tcp.status = .closed → owned s v.log = none
  used : v.tcp.status = .closed → ¬ Fresh s v.log

theorem ClosedView.keeps (h : ClosedView s v) (hk : v.Keeps s v')
    (hst : v'.tcp.status = .closed → v.tcp.status = .closed) : ClosedView s v' := by
  refine ⟨fun hc => hk.owned.trans (h.owned (hst hc)), fun hc hf => h.used (hst hc) ?_⟩
  obtain ⟨m, hm, -⟩ := hk.log
  rw [hm] at hf
  exact hf.of_append

theorem closedView_close : ClosedView s (v.close s) := by
  refine ⟨fun _ => owned_close, fun _ hf => ?_⟩
  have hclosed := hf (.closed s v.tcp.fd) (by simp [StreamView.close, StreamView.setStatus])
  simp [opensFd] at hclosed

theorem not_keeps_close : ¬ v.Keeps s (v.close s) := by
  intro h
  obtain ⟨m, hm, hidle⟩ := h.log
  have hm' : m = [.ctl (.tcp s) v.tcp.fd .del, .closed s v.tcp.fd] :=
    (List.append_cancel_left hm).symm
  have hclosed := hidle (.closed s v.tcp.fd) (by simp [hm'])
  simp [isCustodyObs] at hclosed

theorem not_opens_close : ¬ v.Opens s (v.close s) := by
  intro h
  generalize hv : v.close s = u at h
  have hlog : u.log = v.log ++ [.ctl (.tcp s) v.tcp.fd .del, .closed s v.tcp.fd] := by
    rw [← hv]
    rfl
  cases h with
  | failed => simp at hlog
  | opened => simp at hlog

end

/-! ## The invariant -/

/-- Where a stream stands: its close is under way or over if it is closed, and no step works for it
when its turn has come. -/
structure LifeInv (s : Sid) (c : Cfg) : Prop where
  orderly : Orderly c.stack
  view : ClosedView s (c.world.streamView s)
  turns : c.world.log.count (.refDec (.tcp s)) + closesDue s c.world.owners c.stack ≤
    if (c.world.tcp s).status = .closed then 1 else 0
  gone : HadTurn s c → ∀ i ∈ c.stack, i.holds s = false

section
variable {s : Sid} {c c' : Cfg} {x : LoopAct} {rest : List Item}

theorem closesDue_append (v : Owners) (l m : List Item) :
    closesDue s v (l ++ m) = closesDue s v l + (closing m).count s := by
  simp only [closesDue, closing_append, List.count_append]
  omega

/-- A stream that has had its turn is closed, not in the queue, and has no descriptor. -/
theorem LifeInv.of_turn (h : LifeInv s c) (ht : HadTurn s c) :
    (c.world.tcp s).status = .closed ∧ c.world.pendingCloses.nodes.count s = 0 ∧
      owned s c.world.log = none := by
  have hturns := h.turns
  have hpos : 0 < c.world.log.count (.refDec (.tcp s)) + (closing c.stack).count s := by
    rcases ht with ht | ht
    · have hm : s ∈ closing c.stack := List.mem_flatMap.mpr ⟨_, ht, List.mem_singleton_self s⟩
      have := List.count_pos_iff.mpr hm
      omega
    · have := List.count_pos_iff.mpr ht
      omega
  have hdue : closesDue s c.world.owners c.stack =
      (closing c.stack).count s + c.world.pendingCloses.nodes.count s := rfl
  by_cases hst : (c.world.tcp s).status = .closed
  · rw [if_pos hst] at hturns
    refine ⟨hst, by omega, ?_⟩
    rw [← owned_filter]
    exact h.view.owned hst
  · rw [if_neg hst] at hturns
    omega

/-- A frame that works for no stream or another one leaves no frame for the stream behind. -/
theorem Frame.Pushes.holds {f : Frame} {l : List Item} (h : f.Pushes l) (hs : f.stream ≠ some s)
    (hf : ∀ timeout, f ≠ .ioRun timeout) : ∀ i ∈ l, i.holds s = false := by
  cases h with
  | poll timeout events => exact absurd rfl (hf timeout)
  | _ => simp_all [Item.holds, Frame.stream]

theorem Call.Pushes.holds {k : Call} {l : List Item} (h : k.Pushes l) (hs : k.stream ≠ some s) :
    ∀ i ∈ l, i.holds s = false := by
  cases h <;> simp_all [Item.holds, Frame.stream, Call.stream]

/-- A stream's reference is released by the end of its turn. -/
theorem OwnerExec.released {v v' : Owners} {f : Frame} {l : List Item} (h : OwnerExec v f v' l)
    (hd : .refDec (.tcp s) ∈ v'.log) : .refDec (.tcp s) ∈ v.log ∨ f = .pendingCloseDec s := by
  cases h with
  | pendingDec =>
    rcases List.mem_append.mp hd with hd | hd
    · exact .inl hd
    · simp only [List.mem_singleton, Obs.refDec.injEq, Owner.tcp.injEq] at hd
      exact .inr (by rw [hd])
  | accept _ hm _ _ =>
    left
    rcases hm with rfl | ⟨peer, now, rfl⟩ <;> simpa [Owners.logs] using hd
  | closeQueued | stop | rearm | taskDec =>
    left
    simpa [Owners.logs, Owners.inc, Owners.dec, Owners.setActive] using hd
  | _ => exact .inl hd

theorem OwnerApi.released {v v' : Owners} {k : Call} {a : Answer} {l : List Item}
    (h : OwnerApi v a k v' l)
    (hd : .refDec (.tcp s) ∈ v'.log) : .refDec (.tcp s) ∈ v.log := by
  cases h with
  | same | close => exact hd
  | listen hm =>
    rcases hm with rfl | ⟨rfl, -⟩ <;> simpa [Owners.logs, Owners.inc, Owners.setServer] using hd
  | _ =>
    simpa [Owners.logs, Owners.inc, Owners.dec, Owners.setActive, Owners.setServer,
      Owners.setClosed] using hd

/-- A stream has its turn when `pd__tcp_pending_close` takes it from the queue. -/
theorem exec_hadTurn {f : Frame} {a : Answer} {r : World × List Item}
    (hr : exec c.world f a = some r) (ht : HadTurn s ⟨r.1, r.2 ++ rest⟩) :
    HadTurn s ⟨c.world, .lib f :: rest⟩ ∨ f = .pendingClose := by
  rcases ht with ht | ht
  · rcases List.mem_append.mp ht with ht | ht
    · right
      have hpush := exec_pushes hr
      generalize r.2 = l at hpush ht
      cases hpush with
      | poll timeout events => simp at ht
      | pending | pendingCalled => rfl
      | _ => simp at ht
    · exact .inl (.inl (List.mem_cons_of_mem _ ht))
  · rcases (exec_owner hr).1.released ((mem_owners_log rfl).mpr ht) with hd | rfl
    · exact .inl (.inr ((mem_owners_log rfl).mp hd))
    · exact .inl (.inl List.mem_cons_self)

/-- A step of the library that is no poll. -/
theorem LifeInv.exec {f : Frame} {a : Answer} {r : World × List Item}
    (h : LifeInv s ⟨c.world, .lib f :: rest⟩) (hf : ∀ timeout, f ≠ .ioRun timeout)
    (hr : exec c.world f a = some r) : LifeInv s ⟨r.1, r.2 ++ rest⟩ := by
  have hstack : ∀ v, closesDue s v (.lib f :: rest) =
      closesDue s v [.lib f] + (closing rest).count s := fun v => closesDue_append v [.lib f] rest
  have hturns := h.turns
  simp only [hstack] at hturns
  have hdue := (exec_owner hr).1.due (s := s)
  simp only [count_owners_log (w := c.world) (o := .refDec (.tcp s)) rfl,
    count_owners_log (w := r.1) (o := .refDec (.tcp s)) rfl] at hdue
  have hpush := exec_pushes hr
  -- the stream's own record
  have hview : ClosedView s (r.1.streamView s) ∧ (r.1.log.count (.refDec (.tcp s)) +
      (closesDue s r.1.owners r.2 + (closing rest).count s) ≤
        if (r.1.tcp s).status = .closed then 1 else 0) := by
    by_cases hs : f.stream = some s
    · have he := exec_stream hs hr
      rcases he.custody with ⟨hk, hne⟩ | ⟨-, hst, hv, hc, hn⟩
      · rcases he.closedIff with hiff | ⟨-, hv⟩
        · refine ⟨h.view.keeps hk hiff.mp, ?_⟩
          have hst : (r.1.tcp s).status = .closed ↔ (c.world.tcp s).status = .closed := hiff
          rcases hdue with ⟨-, hc, hn, -⟩ | ⟨-, hdue⟩
          · exact absurd ⟨hc, hn⟩ hne
          · simp only [hst]
            omega
        · rw [hv] at hk
          exact absurd hk not_keeps_close
      · have hst' : (r.1.tcp s).status = .closed := congrArg (fun v => v.tcp.status) hv
        have hst0 : (c.world.tcp s).status ≠ .closed := hst
        refine ⟨hv ▸ closedView_close, ?_⟩
        rcases hdue with ⟨-, -, -, hdue⟩ | ⟨hne, -⟩
        · rw [if_neg hst0] at hturns
          rw [if_pos hst']
          omega
        · exact absurd ⟨hs, hc, hn⟩ hne
    · have hv := exec_streamView hs hr
      have ht : r.1.tcp s = c.world.tcp s := congrArg (fun v => v.tcp) hv
      rw [hv, ht]
      refine ⟨h.view, ?_⟩
      rcases hdue with ⟨hs', -⟩ | ⟨-, hdue⟩
      · exact absurd hs' hs
      · omega
  refine ⟨h.orderly.push hpush, hview.1, ?_, ?_⟩
  · show r.1.log.count _ + closesDue s r.1.owners (r.2 ++ rest) ≤ _
    rw [closesDue_append]
    exact hview.2
  · intro ht i hi
    rcases exec_hadTurn hr ht with hb | rfl
    · have hgone := h.gone hb
      rcases List.mem_append.mp hi with hi | hi
      · refine hpush.holds (fun hs => ?_) hf i hi
        have hnot := hgone (.lib f) List.mem_cons_self
        simp [Item.holds, hs] at hnot
      · exact hgone i (List.mem_cons_of_mem _ hi)
    · -- nothing but the rest of the iteration is below
      obtain rfl := h.orderly.1 _ rfl
      rcases List.mem_append.mp hi with hi | hi
      · exact hpush.holds (by simp [Frame.stream]) (by simp) i hi
      · simp only [List.mem_cons, List.not_mem_nil, or_false] at hi
        rcases hi with rfl | rfl | rfl <;> rfl

/-- A call of the application. -/
theorem LifeInv.api {k : Call} {a : Answer} {cb : Cb} {r : World × List Item}
    (h : LifeInv s c) (hst : c.stack = .app cb :: rest) (hok : LetsGo s c (.step (.api k a)))
    (hr : api c.world k a = some r) : LifeInv s ⟨r.1, r.2 ++ .app cb :: rest⟩ := by
  obtain ⟨hopen, huse, hrun⟩ := hok
  have hturns := h.turns
  have hstack : ∀ v, closesDue s v c.stack = closesDue s v [] + (closing c.stack).count s :=
    fun v => closesDue_append v [] c.stack
  rw [hstack] at hturns
  have hdue := (api_owner hr).due (s := s)
  simp only [count_owners_log (w := c.world) (o := .refDec (.tcp s)) rfl,
    count_owners_log (w := r.1) (o := .refDec (.tcp s)) rfl] at hdue
  have hpush := api_pushes hr
  have hview : ClosedView s (r.1.streamView s) ∧ (r.1.log.count (.refDec (.tcp s)) +
      (closesDue s r.1.owners r.2 + (closing c.stack).count s) ≤
        if (r.1.tcp s).status = .closed then 1 else 0) := by
    by_cases hs : k.stream = some s
    · have he := api_stream hs hr
      have hfresh : k.opens s = true → (c.world.tcp s).status ≠ .closed := fun ho hc =>
        h.view.used hc ((fresh_filter _).mpr (hopen ho))
      rcases he.custody with ⟨hk, hne⟩ | ⟨-, hst, hv, hn⟩ | ⟨hk, ho, hn⟩
      · have hiff : (r.1.tcp s).status = .closed ↔ (c.world.tcp s).status = .closed := by
          rcases he.closedIff with hiff | ⟨-, hv⟩ | ⟨hopens, hopen'⟩
          · exact hiff
          · rw [hv] at hk
            exact absurd hk not_keeps_close
          · exact iff_of_false (hopen' (hfresh hopens)) (hfresh hopens)
        refine ⟨h.view.keeps hk hiff.mp, ?_⟩
        rcases hdue with ⟨-, hn, -⟩ | ⟨-, hdue⟩
        · exact absurd hn hne
        · simp only [hiff]
          omega
      · have hst' : (r.1.tcp s).status = .closed := congrArg (fun v => v.tcp.status) hv
        have hst0 : (c.world.tcp s).status ≠ .closed := hst
        refine ⟨hv ▸ closedView_close, ?_⟩
        rcases hdue with ⟨-, -, hdue⟩ | ⟨hne, -⟩
        · rw [if_neg hst0] at hturns
          rw [if_pos hst']
          omega
        · exact absurd hn hne
      · have hopens : k.opens s = true := by
          obtain ⟨fd, b, rfl | rfl⟩ := hk <;> simp [Call.opens]
        have hnot : (r.1.tcp s).status ≠ .closed := by
          rcases he.closedIff with hiff | ⟨-, hv⟩ | ⟨-, hopen'⟩
          · exact fun hc => hfresh hopens (hiff.mp hc)
          · rw [hv] at ho
            exact absurd ho not_opens_close
          · exact hopen' (hfresh hopens)
        refine ⟨⟨fun hc => absurd hc hnot, fun hc => absurd hc hnot⟩, ?_⟩
        rw [if_neg (hfresh hopens)] at hturns
        rw [if_neg hnot]
        rcases hdue with ⟨-, hn', -⟩ | ⟨-, hdue⟩
        · rw [hn] at hn'
          cases hn'
        · omega
    · have hv := api_streamView hs hr
      have ht : r.1.tcp s = c.world.tcp s := congrArg (fun v => v.tcp) hv
      rw [hv, ht]
      refine ⟨h.view, ?_⟩
      rcases hdue with ⟨hs', -⟩ | ⟨-, hdue⟩
      · refine absurd ?_ hs
        cases k <;> cases hs'
        rfl
      · omega
  refine ⟨?_, hview.1, ?_, ?_⟩
  · rw [hst] at hrun
    exact Orderly.api (hst ▸ h.orderly) hpush hrun
  · show r.1.log.count _ + closesDue s r.1.owners (r.2 ++ .app cb :: rest) ≤ _
    rw [← hst, closesDue_append]
    exact hview.2
  · intro ht i hi
    have hb : HadTurn s c := by
      rcases ht with ht | ht
      · rcases List.mem_append.mp ht with ht | ht
        · generalize r.2 = l at hpush ht
          cases hpush <;> simp at ht
        · exact .inl (hst ▸ ht)
      · have hd := (api_owner hr).released ((mem_owners_log rfl).mpr ht)
        exact .inr ((mem_owners_log rfl).mp hd)
    rcases List.mem_append.mp hi with hi | hi
    · exact hpush.holds (fun hs => huse hs hb) i hi
    · exact h.gone hb i (hst ▸ hi)

/-- A poll, which reports the stream only while it has its descriptor. -/
theorem LifeInv.poll {timeout : Int} {r : SysRes} {events : List (Handle × Events)}
    (h : LifeInv s c) (hst : c.stack = .lib (.ioRun timeout) :: rest)
    (hok : LetsGo s c (.poll r events)) (hp : Polls c.world timeout events rest c') :
    LifeInv s c' := by
  have hown := hp.owners
  have hlog : c'.world.log = c.world.log := hp.log
  have hview := hp.streamView s
  have hclosing : closing c'.stack = closing c.stack := by
    rw [hst]
    cases hp with
    | ends | again => rfl
    | reports => simp [closing_dispatches, Item.closing]
  have hturn : HadTurn s c' → HadTurn s c := by
    rintro (ht | ht)
    · rw [HadTurn, hst]
      rcases hp.frame ht with ht | ht | ⟨e, -, ht⟩ | ht | ht | ht | ht
      · exact .inl (List.mem_cons_of_mem _ ht)
      all_goals cases ht
    · exact .inr (hlog ▸ ht)
  refine ⟨(hst ▸ h.orderly).poll hp, ?_, ?_, ?_⟩
  · rw [hview]
    exact h.view
  · have ht : c'.world.tcp s = c.world.tcp s := congrArg StreamView.tcp hview
    have hturns := h.turns
    rwa [closesDue, ← hclosing, ← hown, ← ht, ← hlog] at hturns
  · intro ht i hi
    have hb := hturn ht
    have hgone := h.gone hb
    cases i with
    | app k => rfl
    | lib f =>
      rcases hp.frame hi with hi | rfl | ⟨e, he, rfl⟩ | rfl | rfl | rfl | rfl
      · exact hgone _ (hst ▸ List.mem_cons_of_mem _ hi)
      · rfl
      · -- its descriptor is closed
        by_contra hn
        have hs : e.1 = .tcp s := by
          obtain ⟨hd, ev⟩ := e
          cases hd <;> simp_all [Item.holds, Frame.stream]
        have hsome := hok e he hs
        rw [(h.of_turn hb).2.2] at hsome
        cases hsome
      all_goals rfl

/-- A step of the machine that is no poll. -/
theorem LifeInv.own {y : Act} (h : LifeInv s c) (hok : LetsGo s c (.step y))
    (hs : step c y = some c')
    (hne : ∀ a timeout rest, y = .lib a → c.stack ≠ .lib (.ioRun timeout) :: rest) :
    LifeInv s c' := by
  rcases step_cases hs with ⟨a, f, rest, r, rfl, hst, hr, rfl⟩ |
    ⟨k, a, cb, rest, r, rfl, hst, hr, rfl⟩ | ⟨p, cb, rest, rfl, hst, hcb, rfl⟩ |
    ⟨e, w', rfl, he, rfl⟩
  · have h' : LifeInv s ⟨c.world, .lib f :: rest⟩ := by
      rw [← hst]
      exact h
    refine h'.exec ?_ hr
    rintro timeout rfl
    exact hne a timeout rest rfl hst
  · exact h.api hst hok hr
  · have hpop : ∀ i, i ∈ rest → i ∈ c.stack := fun i hi => hst ▸ List.mem_cons_of_mem _ hi
    refine ⟨(hst ▸ h.orderly).2, h.view, ?_, fun ht i hi => h.gone ?_ i (hpop i hi)⟩
    · have hturns := h.turns
      rw [hst] at hturns
      exact hturns
    · exact ht.imp (hpop _) id
  · have hv := env_streamView (s := s) he
    have hlog : w'.log.count (.refDec (.tcp s)) = c.world.log.count (.refDec (.tcp s)) ∧
        w'.owners.pendingCloses = c.world.owners.pendingCloses := by
      rw [← count_owners_log rfl, ← count_owners_log rfl]
      rcases env_owner he with ho | ⟨t, -, ho⟩ <;> rw [ho] <;> exact ⟨rfl, rfl⟩
    refine ⟨h.orderly, hv ▸ h.view, ?_, fun ht => h.gone ?_⟩
    · have ht : w'.tcp s = c.world.tcp s := congrArg (fun v => v.tcp) hv
      have hturns := h.turns
      rwa [closesDue, ← hlog.2, ← hlog.1, ← ht] at hturns
    · refine ht.imp id fun hd => ?_
      have hcount := List.count_pos_iff.mpr hd
      rw [hlog.1] at hcount
      exact List.count_pos_iff.mp hcount

theorem LifeInv.step (h : LifeInv s c) (hok : LetsGo s c x) (hs : loopStep c x = some c') :
    LifeInv s c' := by
  rcases loopStep_cases hs with ⟨d, y, hx, hy, hne⟩ | ⟨r, events, timeout, rest, rfl, hst, hp⟩
  · cases hx with
    | step => exact h.own hok hy hne
    | serverClose l a =>
      have hl : LifeInv s (c.listens l) := ⟨h.orderly, h.view, h.turns, h.gone⟩
      exact hl.own (by simp [LetsGo, Call.opens, Call.stream, Call.runsLoop]) hy hne
  · exact h.poll hst hok hp

theorem LoopRun.lifeInv (r : LoopRun (LetsGo s) c) : LifeInv s c := by
  refine r.invariant (P := LifeInv s) ?_ fun c x c' _ h hok hs => h.step hok hs
  rintro c ⟨k, fd, -, -, rfl⟩
  refine ⟨⟨by simp [Item.below], trivial⟩, ⟨by simp [streamView, World.init, pdTcpInit],
    by simp [streamView, World.init, pdTcpInit]⟩, le_rfl, ?_⟩
  rintro (ht | ht)
  · simp at ht
  · simp [World.init] at ht

end

/-! ## Freeing the stream -/

section
variable {s : Sid} {c c' : Cfg} {x : LoopAct} (t : Tcp) (o : Op → Option WriteOp)

theorem HadTurn.own {y : Act} (ht : HadTurn s c) (hs : Pandio.step c y = some c') :
    HadTurn s c' := by
  have grow : ∀ {w : World}, (∀ o ∈ c.world.owners.log, o ∈ w.owners.log) →
      .refDec (.tcp s) ∈ c.world.log → .refDec (.tcp s) ∈ w.log := by
    intro w hlog hd
    exact (mem_owners_log rfl).mp (hlog _ ((mem_owners_log rfl).mpr hd))
  rcases step_cases hs with ⟨a, f, rest, r, rfl, hst, hr, rfl⟩ |
    ⟨k, a, cb, rest, r, rfl, hst, hr, rfl⟩ | ⟨p, cb, rest, rfl, hst, hcb, rfl⟩ |
    ⟨e, w', rfl, he, rfl⟩
  · rcases ht with ht | ht
    · rw [hst] at ht
      rcases List.mem_cons.mp ht with ht | ht
      · cases ht
        cases hr
        right
        simp [pendingCloseDec, decRefs, goOn, World.logObs]
      · exact .inl (List.mem_append_right _ ht)
    · exact .inr (grow (fun o ho => (exec_owner hr).1.mem_log ho) ht)
  · rw [← hst]
    exact ht.imp (List.mem_append_right _) (grow fun o ho => (api_owner hr).mem_log ho)
  · refine ht.imp (fun hm => ?_) id
    rw [hst] at hm
    exact (List.mem_cons.mp hm).resolve_left (by simp)
  · refine ht.imp id (grow fun o ho => ?_)
    rcases env_owner he with hw | ⟨k, -, hw⟩ <;> rw [hw] <;> exact ho

/-- A turn that has come is not taken back. -/
theorem HadTurn.step (ht : HadTurn s c) (hs : loopStep c x = some c') : HadTurn s c' := by
  rcases loopStep_cases hs with ⟨d, y, hx, hy, hne⟩ | ⟨r, events, timeout, rest, rfl, hst, hp⟩
  · cases hx with
    | step => exact ht.own hy
    | serverClose l a =>
      have hl : HadTurn s (c.listens l) := ht
      exact hl.own hy
  · rw [HadTurn, hp.log]
    refine ht.imp (fun hm => ?_) id
    rw [hst] at hm
    have hm' := (List.mem_cons.mp hm).resolve_left (by simp)
    cases hp with
    | ends => exact hm'
    | again => exact List.mem_cons_of_mem _ hm'
    | reports => exact List.mem_append_right _ hm'

end

/-- A stream is closed in its own `on_data`, which then runs the loop: `on_close` is called while
`pd__tcp_client_io` is still to look at the stream. -/
theorem nested_loop_holds : ∃ c, LoopRun (fun _ _ => True) c ∧
    c.stack.head? = some (.app (.onClose 0)) ∧
    .lib (.clientIoRest 0 ⟨true, false, false⟩) ∈ c.stack := by
  have r : LoopRun (fun _ _ => True) _ := Machine.Reach.play (.init (Cfg.start_init [5, 6])) (l := [
    .step (.api (.tcpAccept 0 5) (.ok 0 [])), .step (.api (.setOnClose 0 true) (.ok 0 [])),
    .step (.api (.setOnData 0 true) (.ok 0 [])), .step (.api (.tcpAccept 1 6) (.ok 0 [])),
    .step (.env (.arrive 5 [1])), .step (.api .ioRun (.ok 0 [])),
    .poll (.ok 1) [(.tcp 0, ⟨true, false, false⟩)], .step (.lib (.ok 0 [])),
    .step (.ret (some 0)), .step (.lib (.ok 0 [])), .step (.lib (.ok 6144 [])),
    .step (.api (.tcpClose 0) (.ok 0 [])), .step (.lib (.ok 0 [])), .step (.api .ioRun (.ok 0 [])),
    .poll (.ok 0) [], .step (.lib (.ok 0 [])), .step (.lib (.ok 0 []))]) rfl
  exact ⟨_, r, rfl, by decide⟩

end Pandio
