import Pandio.Lib.Stack
import Pandio.Unix.OwnerSteps

/- The phases of an iteration of `pd_io_run`: poll, timers, pending closes, the
   `after_tick` hook, and back to the poll. What stands on the call stack directly
   above the frame of a later phase tells which phase the loop is in, and so what
   holds when the loop is about to block.

   A stream that `pd_tcp_close` has queued waits for its turn in
   `pd__tcp_pending_close`, which comes once in an iteration. A close that comes too
   late in it is left to the next one, and the timeout of the poll in between is that
   of the timers. -/
namespace Pandio
open World

/-! ## What stands above the loop's frames -/

/-- What may stand on the stack directly above an item: the hook's turn comes after the pending
closes, the end of an iteration after the hook, and nothing runs above a loop that is about to
poll. -/
def Above (i j : Item) : Prop :=
  match j with
  | .lib .ioAfterTick => i = .lib .pendingClose ∨ ∃ s, i = .lib (.pendingCloseDec s)
  | .lib .ioNext => i = .lib .ioAfterTick ∨ i = .app .afterTick
  | .lib (.ioRun _) => False
  | _ => True

theorem Above.of_app {i : Item} {k : Cb} : Above i (.app k) := trivial

/-- What a frame pushes stands in order, and its lowest item may stand where the frame stood. -/
theorem Frame.Pushes.phases {f : Frame} {l : List Item} (h : f.Pushes l) :
    l.IsChain Above ∧ ∀ i ∈ l.getLast?, ∀ j, Above (.lib f) j → Above i j := by
  cases h with
  | poll timeout events =>
    refine ⟨?_, by simp [Above]⟩
    rw [List.isChain_append]
    refine ⟨?_, by simp [Above], by simp [Above]⟩
    rw [List.isChain_map]
    exact (List.pairwise_of_forall fun _ _ => trivial).isChain
  | pending s | pendingCalled s =>
    refine ⟨by simp [Above], ?_⟩
    intro i hi j hj
    obtain rfl : .lib (.pendingCloseDec s) = i := by simpa using hi
    unfold Above at hj ⊢
    split at hj <;> simp_all
  | _ =>
    refine ⟨by simp [Above], ?_⟩
    intro i hi j hj
    unfold Above at hj ⊢
    split at hj <;> simp_all

/-- A later phase is never on top of what is pushed, and a poll only before a poll. -/
theorem Frame.Pushes.top {f : Frame} {i : Item} {l m : List Item} (h : f.Pushes m) (hm : m = i :: l) :
    i ≠ .lib .ioAfterTick ∧ i ≠ .lib .ioNext ∧
      ∀ timeout, i = .lib (.ioRun timeout) → f = .ioRun timeout ∨ f = .ioNext := by
  cases h with
  | poll timeout events => cases events <;> cases hm <;> simp
  | _ => cases hm <;> simp

theorem Call.Pushes.phases {c : Call} {l : List Item} (h : c.Pushes l) : l.IsChain Above := by
  cases h <;> simp

theorem Call.Pushes.top {c : Call} {i : Item} {l m : List Item} (h : c.Pushes m) (hm : m = i :: l) :
    i ≠ .lib .ioAfterTick ∧ i ≠ .lib .ioNext ∧ ∀ timeout, i = .lib (.ioRun timeout) → c = .ioRun := by
  cases h <;> cases hm <;> simp

/-! ## Turns -/

/-- The stream whose turn in the queue of closes has come, and whose reference is still held. -/
def Item.turn : Item → List Sid
  | .lib (.pendingCloseDec s) => [s]
  | _ => []

/-- The turns that are under way. -/
def turning (l : List Item) : List Sid := l.flatMap Item.turn

/-- The turns of the stream's closes that have come. -/
def turns (s : Sid) (c : Cfg) : Nat :=
  c.world.log.count (.refDec (.tcp s)) + (turning c.stack).count s

/-- A close of the stream waits for its turn. -/
def Waits (s : Sid) (c : Cfg) : Prop := turns s c < c.world.log.count (.closeQueued s)

instance (s : Sid) (c : Cfg) : Decidable (Waits s c) := inferInstanceAs (Decidable (_ < _))

/-- Every close that waits stands in the queue. -/
def Queued (v : Owners) (l : List Item) : Prop :=
  ∀ s, v.log.count (.closeQueued s) =
    v.log.count (.refDec (.tcp s)) + (turning l).count s + v.pendingCloses.count s

section
variable {v v' : Owners} {l rest : List Item} {s : Sid}

@[simp] theorem turning_nil : turning [] = [] := rfl

@[simp] theorem turning_cons (i : Item) (l : List Item) : turning (i :: l) = i.turn ++ turning l := rfl

@[simp] theorem turning_append (l m : List Item) : turning (l ++ m) = turning l ++ turning m :=
  List.flatMap_append

/-- Only `pd__tcp_pending_close` lets a turn come. -/
theorem Frame.Pushes.turning {f : Frame} (h : f.Pushes l) (hf : f ≠ .pendingClose) :
    Pandio.turning l = [] := by
  cases h with
  | poll timeout events =>
    have hevents : Pandio.turning (events.map fun e => .lib (.dispatch e.1 e.2)) = [] := by
      rw [Pandio.turning, List.flatMap_map]
      exact List.flatMap_eq_nil_iff.mpr fun _ _ => rfl
    simp [hevents, Item.turn]
  | pending | pendingCalled => exact absurd rfl hf
  | _ => simp [Item.turn]

theorem Call.Pushes.turning {k : Call} (h : k.Pushes l) : Pandio.turning l = [] := by
  cases h <;> simp [Item.turn]

/-- **A frame of the library keeps the account**, if the stream it queues does not stand there. -/
theorem OwnerExec.queued {f : Frame} (h : OwnerExec v f v' l) (hp : f.Pushes l)
    (hq : Queued v (.lib f :: rest))
    (hfree : ∀ s, f = .closeDrain s → l = [] → s ∉ v.pendingCloses) : Queued v' (l ++ rest) := by
  intro s
  have hs := hq s
  simp only [turning_cons, turning_append, List.count_append] at hs ⊢
  by_cases hf : f = .pendingClose
  · -- a turn comes
    subst hf
    cases h with
    | same hc _ =>
      cases hp with
      | closesEnd => simpa [Item.turn] using hs
      | pending | pendingCalled => simp [Item.closing] at hc
    | close hstream => cases hstream
    | @pending n rest' _ hpend hc =>
      have hturn : turning l = [n] := by
        cases hp with
        | closesEnd => cases hc
        | pending | pendingCalled => simpa [Item.closing, Item.turn] using hc
      simp only [hpend, List.count_cons, Item.turn, List.count_nil] at hs
      simp only [hturn, List.count_cons, List.count_nil]
      omega
  · rw [hp.turning hf]
    simp only [List.count_nil, Nat.zero_add]
    cases h with
    | same hc _ =>
      have hturn : Item.turn (.lib f) = [] := by
        cases f with
        | pendingCloseDec n =>
          cases hp
          simp [Item.closing] at hc
        | _ => rfl
      simpa [hturn] using hs
    | close hstream hc =>
      have hturn : Item.turn (.lib f) = [] := by
        cases f with
        | pendingCloseDec n => cases hstream
        | _ => rfl
      simpa [hturn, Owners.setClosed] using hs
    | @closeQueued n =>
      have hfree := hfree n rfl rfl
      have hnodes : v.pendingCloses.takeWhile (· ≠ n) = v.pendingCloses := by
        rw [List.takeWhile_eq_self_iff]
        intro m hm
        simpa using fun he : m = n => hfree (he ▸ hm)
      simp only [hnodes, Owners.logs, List.count_append, List.count_singleton, Item.turn,
        List.count_nil, beq_iff_eq, Obs.closeQueued.injEq, reduceCtorEq, if_false] at hs ⊢
      omega
    | accept _ hm =>
      rcases hm with rfl | ⟨peer, now, rfl⟩ <;>
        simpa [Owners.logs, List.count_append, Item.turn] using hs
    | pendingDec =>
      simp only [Owners.dec, Owners.logs, List.count_append, List.count_singleton, Item.turn,
        beq_iff_eq, Obs.refDec.injEq, Owner.tcp.injEq, reduceCtorEq, if_false] at hs ⊢
      omega
    | pending => exact absurd rfl hf
    | _ =>
      simpa [Owners.inc, Owners.dec, Owners.logs, Owners.setActive, List.count_append, Item.turn]
        using hs

/-- **So does a call.** -/
theorem OwnerApi.queued {k : Call} {a : Answer} (h : OwnerApi v a k v' l) (hp : k.Pushes l)
    (hq : Queued v rest) : Queued v' (l ++ rest) := by
  intro s
  have hs := hq s
  rw [turning_append, hp.turning, List.nil_append]
  cases h with
  | listen hm =>
    rcases hm with rfl | ⟨rfl, -⟩ <;>
      simpa [Owners.inc, Owners.logs, Owners.setServer, List.count_append] using hs
  | _ =>
    simpa [Owners.inc, Owners.dec, Owners.logs, Owners.setActive, Owners.setClosed,
      Owners.setServer, List.count_append] using hs

end

/-! ## The invariant -/

/-- The frames of the loop stand in their order on the stack. On its top, a loop that is about to
poll does not wait while a closed stream is pending, and a loop past the pending closes has none. -/
structure PhaseInv (c : Cfg) : Prop where
  order : c.stack.IsChain Above
  poll : ∀ timeout rest, c.stack = .lib (.ioRun timeout) :: rest →
    timeout = 0 ∨ c.world.pendingCloses.nodes = []
  hook : ∀ rest, c.stack = .lib .ioAfterTick :: rest → c.world.pendingCloses.nodes = []
  next : ∀ rest, c.stack = .lib .ioNext :: rest →
    pdTimersNext c.world = 0 ∨ c.world.pendingCloses.nodes = []

/-- The application calls `pd_io_run`, or returns from the `after_tick` hook. -/
def entersLoop (c : Cfg) (x : Act) : Bool :=
  match x, c.stack with
  | .api .ioRun _, _ | .ret _, .app .afterTick :: _ => true
  | _, _ => false

section
variable {w : World} {f : Frame} {a : Answer} {r : World × List Item} {rest : List Item}

/-- `pd__tcp_pending_close` returns when the queue is empty. -/
theorem pd_tcpPendingClose_returns (h : (pd_tcpPendingClose w).2 = []) :
    (pd_tcpPendingClose w).1.pendingCloses.nodes = [] := by
  unfold pd_tcpPendingClose at h ⊢
  split
  · rename_i hpop
    exact LinkedQueue.nodes_pop_none hpop
  · rename_i hpop
    simp only [hpop] at h
    split at h <;> cases h

/-- A frame that leaves nothing on the stack hands over to the phase below it. -/
theorem exec_done (hinv : PhaseInv ⟨w, .lib f :: rest⟩) (h : exec w f a = some r)
    (hr : r.2 = []) : PhaseInv ⟨r.1, rest⟩ := by
  have hchain := hinv.order
  have habove : ∀ j tail, rest = j :: tail → Above (.lib f) j := by
    rintro j tail rfl
    exact (List.isChain_cons_cons.mp hchain).1
  refine ⟨hchain.tail, ?_, ?_, ?_⟩
  · intro timeout tail ht
    exact (habove _ _ ht).elim
  · intro tail ht
    rcases habove _ _ ht with hf | ⟨s, hf⟩
    · cases hf
      cases h
      exact pd_tcpPendingClose_returns hr
    · cases hf
      cases h
      cases hr
  · -- there is no hook
    intro tail ht
    rcases habove _ _ ht with hf | hf
    · cases hf
      cases h
      have hdrained := hinv.hook _ rfl
      unfold ioAfterTick at hr ⊢
      split
      · rename_i hh
        rw [if_pos hh] at hr
        cases hr
      · exact .inr hdrained
    · cases hf

/-- A frame that goes on, or calls back. -/
theorem exec_pushed (hinv : PhaseInv ⟨w, .lib f :: rest⟩) (h : exec w f a = some r)
    {i : Item} {l : List Item} (hr : r.2 = i :: l) : PhaseInv ⟨r.1, r.2 ++ rest⟩ := by
  have hp := exec_pushes h
  obtain ⟨hl, hlast⟩ := hp.phases
  have hchain := hinv.order
  have horder := Stack.chain_replace hchain hl hlast
  obtain ⟨hhook, hnext, hpoll⟩ := hp.top hr
  refine ⟨horder, ?_, ?_, ?_⟩
  · intro timeout tail ht
    rw [hr, List.cons_append, List.cons.injEq] at ht
    rcases hpoll timeout ht.1 with rfl | rfl
    · -- the poll was interrupted
      rcases hinv.poll timeout rest rfl with h0 | hnil
      · exact .inl h0
      · refine .inr ?_
        simp only [exec, ioRun] at h
        split at h
        · cases h
          cases hr
        · split at h
          · split at h <;> cases h
            exact hnil
          · cases h
            exact hnil
    · cases h
      cases hr
      cases ht.1
      rcases hinv.next rest rfl with h0 | hnil
      · exact .inl h0
      · exact .inr hnil
  · intro tail ht
    rw [hr, List.cons_append, List.cons.injEq] at ht
    exact absurd ht.1 hhook
  · intro tail ht
    rw [hr, List.cons_append, List.cons.injEq] at ht
    exact absurd ht.1 hnext

end

theorem env_pendingCloses {w w' : World} {e : Env} (h : env w e = some w') :
    w'.pendingCloses = w.pendingCloses ∧ pdTimersNext w' = pdTimersNext w := by
  cases e <;> simp only [env] at h <;> (try split at h) <;> cases h <;> exact ⟨rfl, rfl⟩

section
variable {c c' : Cfg} {x : Act}

theorem PhaseInv.step (hinv : PhaseInv c) (hok : entersLoop c x = true →
      pdTimersNext c.world = 0 ∨ c.world.pendingCloses.nodes = [])
    (hs : step c x = some c') : PhaseInv c' := by
  rcases step_cases hs with ⟨a, f, rest, r, rfl, hst, hr, rfl⟩ |
    ⟨k, a, cb, rest, r, rfl, hst, hr, rfl⟩ | ⟨p, cb, rest, rfl, hst, hcb, rfl⟩ |
    ⟨e, w', rfl, he, rfl⟩
  · have hinv' : PhaseInv ⟨c.world, .lib f :: rest⟩ := by
      rw [← hst]
      exact hinv
    cases hl : r.2 with
    | nil => exact exec_done hinv' hr hl
    | cons i l =>
      rw [← hl]
      exact exec_pushed hinv' hr hl
  · have hp := api_pushes hr
    have hchain := hinv.order
    rw [hst] at hchain
    have horder := Stack.chain_push hchain hp.phases fun _ _ => Above.of_app
    cases hl : r.2 with
    | nil =>
      rw [hl] at horder
      exact ⟨horder, by simp, by simp, by simp⟩
    | cons i l =>
      obtain ⟨hhook, hnext, hpoll⟩ := hp.top hl
      rw [hl] at horder
      refine ⟨horder, ?_, ?_, ?_⟩
      · intro timeout tail ht
        rw [List.cons_append, List.cons.injEq] at ht
        obtain rfl := hpoll timeout ht.1
        cases hr
        cases hl
        cases ht.1
        exact hok rfl
      · intro tail ht
        rw [List.cons_append, List.cons.injEq] at ht
        exact absurd ht.1 hhook
      · intro tail ht
        rw [List.cons_append, List.cons.injEq] at ht
        exact absurd ht.1 hnext
  · have hchain := hinv.order
    rw [hst] at hchain
    have habove : ∀ j tail, rest = j :: tail → Above (.app cb) j := by
      rintro j tail rfl
      exact (List.isChain_cons_cons.mp hchain).1
    refine ⟨hchain.tail, ?_, ?_, ?_⟩
    · intro timeout tail ht
      exact (habove _ _ ht).elim
    · intro tail ht
      rcases habove _ _ ht with h | ⟨s, h⟩ <;> cases h
    · intro tail ht
      rcases habove _ _ ht with h | h
      · cases h
      · cases h
        exact hok (by simp [entersLoop, hst])
  · obtain ⟨hpend, hnext⟩ := env_pendingCloses he
    refine ⟨hinv.order, ?_, ?_, ?_⟩
    · intro timeout tail ht
      rw [hpend]
      exact hinv.poll timeout tail ht
    · intro tail ht
      rw [hpend]
      exact hinv.hook tail ht
    · intro tail ht
      rw [hpend, hnext]
      exact hinv.next tail ht

end

/-! ## Closes that come late -/

/-- The stream that the step puts on `pending_closes`. -/
def queues (c : Cfg) (x : Act) : Option Sid :=
  match x, c.stack with
  | .lib _, .lib (.closeDrain s) :: _ => if (c.world.tcp s).writes = [] then some s else none
  | _, _ => none

/-- The step ends a call of `pd__tcp_pending_close`. -/
def endsPendingClose (c c' : Cfg) : Bool :=
  match c.stack with
  | .lib .pendingClose :: rest => c'.stack = rest
  | _ => false

/-- Whether `pd_tcp_close` has queued a stream, and no `pd__tcp_pending_close` has returned since;
after a step, from before it. -/
def closedLate (c : Cfg) (late : Bool) (x : Act) (c' : Cfg) : Bool :=
  if (queues c x).isSome then true
  else if endsPendingClose c c' then false
  else late

/-- A configuration, and whether a close was late. -/
abbrev CloseCfg := Cfg × Bool

abbrev closeStep : CloseCfg → Act → Option CloseCfg := Machine.watch step closedLate

/-- No stream has been closed yet. -/
def CloseCfg.Init (p : CloseCfg) : Prop := p.1.Init ∧ p.2 = false

/-- The earliest timer is due at the loop's time, and not before. -/
def DueNow (w : World) : Prop := ∃ t, heapPeek w.timers = some t ∧ (w.timer t).timeout = w.now

instance (w : World) : Decidable (DueNow w) :=
  match h : heapPeek w.timers with
  | none => .isFalse (by simp [DueNow, h])
  | some t => decidable_of_iff ((w.timer t).timeout = w.now) (by simp [DueNow, h])

/-- When the application calls `pd_io_run` or returns from the `after_tick` hook, `pd_tcp_close` has
queued no stream since the last return of `pd__tcp_pending_close`, unless a timer is due just then. -/
def NoneLeft (p : CloseCfg) (x : Act) : Prop :=
  entersLoop p.1 x = true → p.2 = true → DueNow p.1.world

instance (p : CloseCfg) (x : Act) : Decidable (NoneLeft p x) :=
  inferInstanceAs (Decidable (_ → _ → _))

/-- Nor does `pd_tcp_close` queue a stream of which a close waits. -/
def ClosesInTime (p : CloseCfg) (x : Act) : Prop :=
  (∀ s ∈ queues p.1 x, ¬ Waits s p.1) ∧ NoneLeft p x

instance (p : CloseCfg) (x : Act) : Decidable (ClosesInTime p x) :=
  inferInstanceAs (Decidable ((∀ s ∈ queues p.1 x, _) ∧ _))

abbrev CloseRun (ok : CloseCfg → Act → Prop) : CloseCfg → Prop :=
  Machine.Reach closeStep ok CloseCfg.Init

section
variable {c c' : Cfg} {p p' : CloseCfg} {x : Act}

theorem DueNow.timersNext {w : World} (h : DueNow w) : pdTimersNext w = 0 := by
  obtain ⟨t, ht, hdue⟩ := h
  have hsub : ((w.timer t).timeout + 2 ^ 64 - w.now) % 2 ^ 64 = 0 := by
    rw [hdue, Nat.add_sub_cancel_left, Nat.mod_self]
  simp only [pdTimersNext, ht, hsub]
  rfl

theorem mem_queue_iff (h : Queued c.world.owners c.stack) {s : Sid} :
    s ∈ c.world.pendingCloses.nodes ↔ Waits s c := by
  have hs := h s
  rw [count_owners_log rfl, count_owners_log rfl] at hs
  rw [Waits, turns, hs, ← List.count_pos_iff]
  show 0 < c.world.pendingCloses.nodes.count s ↔ _ < _ + c.world.pendingCloses.nodes.count s
  omega

/-- `pd_tcp_close` returns when it has queued the stream. -/
theorem queues_closeDrain {a : Answer} {s : Sid} {rest : List Item} {r : World × List Item}
    (hst : c.stack = .lib (.closeDrain s) :: rest) (hr : exec c.world (.closeDrain s) a = some r)
    (hl : r.2 = []) : queues c (.lib a) = some s := by
  have hw : (c.world.tcp s).writes = [] := by
    simp only [exec, closeDrain] at hr
    split at hr
    · rw [callWrite_items hr] at hl
      cases hl
    · assumption
  simp [queues, hst, hw]

/-- **A step keeps the account.** -/
theorem Queued.step (h : Queued c.world.owners c.stack) (hfree : ∀ s ∈ queues c x, ¬ Waits s c)
    (hs : Pandio.step c x = some c') : Queued c'.world.owners c'.stack := by
  have hq := h
  rcases step_cases hs with ⟨a, f, rest, r, rfl, hst, hr, rfl⟩ |
    ⟨k, a, cb, rest, r, rfl, hst, hr, rfl⟩ | ⟨q, cb, rest, rfl, hst, hcb, rfl⟩ |
    ⟨e, w', rfl, he, rfl⟩
  · rw [hst] at hq
    refine (exec_owner hr).1.queued (exec_pushes hr) hq fun s hf hl hm => ?_
    subst hf
    exact hfree s (queues_closeDrain hst hr hl) ((mem_queue_iff h).mp hm)
  · rw [hst] at hq
    exact (api_owner hr).queued (api_pushes hr) hq
  · rw [hst] at hq
    exact hq
  · rcases env_owner he with ho | ⟨t, -, ho⟩ <;> rw [ho] <;> exact hq

/-- An empty queue stays empty in a step that queues nothing. -/
theorem queue_nil_step (h : c.world.pendingCloses.nodes = []) (hq : queues c x = none)
    (hs : step c x = some c') : c'.world.pendingCloses.nodes = [] := by
  have h : c.world.owners.pendingCloses = [] := h
  show c'.world.owners.pendingCloses = []
  rcases step_cases hs with ⟨a, f, rest, r, rfl, hst, hr, rfl⟩ |
    ⟨k, a, cb, rest, r, rfl, hst, hr, rfl⟩ | ⟨q, cb, rest, rfl, hst, hcb, rfl⟩ |
    ⟨e, w', rfl, he, rfl⟩
  · have ho := (exec_owner hr).1
    obtain ⟨w', l⟩ := r
    dsimp only at ho ⊢
    generalize w'.owners = v' at ho ⊢
    cases ho with
    | closeQueued => cases hq.symm.trans (queues_closeDrain hst hr rfl)
    | pending hpend => cases h.symm.trans hpend
    | _ => exact h
  · have ho := api_owner hr
    generalize r.1.owners = v' at ho ⊢
    generalize r.2 = l at ho
    cases ho <;> exact h
  · exact h
  · rcases env_owner he with ho | ⟨t, -, ho⟩ <;> rw [ho] <;> exact h

/-- So does one that ends `pd__tcp_pending_close`. -/
theorem endsPendingClose_step (hend : endsPendingClose c c' = true) (hs : step c x = some c') :
    c'.world.pendingCloses.nodes = [] := by
  have hframe : ∃ rest, c.stack = .lib .pendingClose :: rest ∧ c'.stack = rest := by
    unfold endsPendingClose at hend
    split at hend
    · exact ⟨_, by assumption, by simpa using hend⟩
    · cases hend
  obtain ⟨rest, hst, hst'⟩ := hframe
  obtain ⟨a, r, rfl, hr, hnil, rfl⟩ := step_ends hst hst' hs
  cases hr
  exact pd_tcpPendingClose_returns hnil

/-- The queue holds what waits, and is empty unless a close was late. -/
structure CloseInv (p : CloseCfg) : Prop where
  queued : Queued p.1.world.owners p.1.stack
  inTime : p.2 = false → p.1.world.pendingCloses.nodes = []
  phase : PhaseInv p.1

theorem CloseInv.step (hinv : CloseInv p) (hok : ClosesInTime p x) (hs : closeStep p x = some p') :
    CloseInv p' := by
  obtain ⟨hs, hlate⟩ := Machine.watch_eq hs
  refine ⟨hinv.queued.step hok.1 hs, fun hp' => ?_, hinv.phase.step (fun hx => ?_) hs⟩
  · rw [hlate, closedLate] at hp'
    split at hp'
    · cases hp'
    · rename_i hq
      split at hp'
      · rename_i hend
        exact endsPendingClose_step hend hs
      · exact queue_nil_step (hinv.inTime hp') (by simpa using hq) hs
  · cases hp : p.2 with
    | true => exact .inl (hok.2 hx hp).timersNext
    | false => exact .inr (hinv.inTime hp)

theorem CloseRun.inv (r : CloseRun ClosesInTime p) : CloseInv p := by
  refine r.invariant (P := CloseInv) ?_ fun p x p' _ hinv hok hs => hinv.step hok hs
  rintro ⟨c, late⟩ ⟨⟨k, fd, -, -, rfl⟩, -⟩
  exact ⟨fun s => rfl, fun _ => rfl, ⟨by simp, by simp, by simp, by simp⟩⟩

theorem CloseCfg.start_init (fds : List Fd) : CloseCfg.Init (Cfg.start fds, false) :=
  ⟨Cfg.start_init fds, rfl⟩

end

end Pandio
