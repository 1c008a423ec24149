import Pandio.Iocp.Ledger

/- Closing streams, in runs that keep to `CloseOk`: each is finished
   once, when nothing is outstanding, and has one turn in `pending_closes`. Runs in
   which that fails follow. -/
namespace Pandio.Iocp
open Pandio.Iocp.World

/-! ## The queue -/

/-- `pending_closes`, and the turns in it so far. -/
structure Turns where
  queue : IntrusiveQueue Sid
  pushed : List Sid
  popped : List Sid
  /-- The streams whose unit of `ctx->refs` was given back. -/
  done : List Sid

def Obs.pushedOf : Obs → Option Sid
  | .pushed s => some s
  | _ => none

def Obs.poppedOf : Obs → Option Sid
  | .popped s => some s
  | _ => none

def Obs.doneOf : Obs → Option Sid
  | .refDec s => some s
  | _ => none

def World.turns (w : World) : Turns :=
  { queue := w.pendingCloses, pushed := w.log.filterMap Obs.pushedOf
    popped := w.log.filterMap Obs.poppedOf, done := w.log.filterMap Obs.doneOf }

/-- The streams whose `on_close` was called, or skipped, and whose unit is not given back. -/
def decsOf : List Item → List Sid := List.filterMap fun
  | .lib (.pendingCloseDec s) => some s
  | _ => none

/-- What a step does to the queue; `d` and `d'` are the rounds under way. -/
inductive TurnStep (t : Turns) (d : List Sid) : Turns → List Sid → Prop where
  | same : TurnStep t d t d
  | push {s : Sid} {q : IntrusiveQueue Sid} : (t.queue.queueInitNode s).queuePush s = some q →
      TurnStep t d { t with queue := q, pushed := t.pushed ++ [s] } d
  | pop {s : Sid} {q : IntrusiveQueue Sid} : t.queue.queueEmpty = false →
      t.queue.queuePop = some (s, q) →
      TurnStep t d { t with queue := q, popped := t.popped ++ [s] } (s :: d)
  | finished {s : Sid} {d' : List Sid} : d = s :: d' →
      TurnStep t d { t with done := t.done ++ [s] } d'

section
variable (w : World) (s : Sid)

/-- The entries about the queue. -/
def isTurnObs : Obs → Bool
  | .pushed _ | .popped _ | .refDec _ => true
  | _ => false

theorem logObs_turns {o : Obs} (h : isTurnObs o = false) : (w.logObs o).turns = w.turns := by
  have hnone : o.pushedOf = none ∧ o.poppedOf = none ∧ o.doneOf = none := by
    cases o <;> simp_all [isTurnObs, Obs.pushedOf, Obs.poppedOf, Obs.doneOf]
  simp [World.turns, logObs, hnone.1, hnone.2.1, hnone.2.2]

/-- A stream is pushed. -/
theorem push_turns (q : IntrusiveQueue Sid) :
    ((w.setPendingCloses q).logObs (.pushed s)).turns =
      { w.turns with queue := q, pushed := w.turns.pushed ++ [s] } := by
  simp [World.turns, logObs, setPendingCloses, Obs.pushedOf, Obs.poppedOf, Obs.doneOf]

/-- A stream has its turn. -/
theorem pop_turns (q : IntrusiveQueue Sid) :
    ((w.setPendingCloses q).logObs (.popped s)).turns =
      { w.turns with queue := q, popped := w.turns.popped ++ [s] } := by
  simp [World.turns, logObs, setPendingCloses, Obs.pushedOf, Obs.poppedOf, Obs.doneOf]

theorem done_turns : (w.logObs (.refDec s)).turns =
    { w.turns with done := w.turns.done ++ [s] } := by
  simp [World.turns, logObs, Obs.pushedOf, Obs.poppedOf, Obs.doneOf]

@[simp] theorem setTcp_turns (t : Tcp) : (w.setTcp s t).turns = w.turns := rfl

@[simp] theorem setSock_turns (k : Sock) : (w.setSock s k).turns = w.turns := rfl

@[simp] theorem setFlags_turns (f : StreamFlags) : (w.setFlags s f).turns = w.turns := rfl

@[simp] theorem setStatus_turns (st : TcpStatus) : (w.setStatus s st).turns = w.turns := rfl

@[simp] theorem setOp_turns (o : Op) (r : WriteOp) : (w.setOp s o r).turns = w.turns := rfl

@[simp] theorem setPort_turns (l : List Packet) : (w.setPort l).turns = w.turns := rfl

@[simp] theorem setRefs_turns (n : Nat) : (w.setRefs n).turns = w.turns := rfl

@[simp] theorem setResult_turns (n : Int) : (w.setResult n).turns = w.turns := rfl

@[simp] theorem goOn_turns (fs : List Frame) : (w.goOn fs).1.turns = w.turns := rfl

@[simp] theorem call_turns (k : Cb) (fs : List Frame) : (w.call k fs).1.turns = w.turns :=
  logObs_turns w rfl

@[simp] theorem cancelIoEx_turns : (w.cancelIoEx s).turns = w.turns := rfl

@[simp] theorem cancelIo_turns : (w.cancelIo s).turns = w.turns := rfl

@[simp] theorem closesocket_turns : (w.closesocket s).turns = w.turns := rfl

end

/-- The queue stays as it is, or the stream is pushed. -/
def Pushes (t t' : Turns) : Prop := ∀ d, TurnStep t d t' d

section
variable {w w' : World} {s : Sid} {a : Answer} {r : World × List Item}

theorem pushes_of_eq {t t' : Turns} (h : t' = t) : Pushes t t' := fun _ => h ▸ .same

theorem pd_tcpTryClose_turns (h : pd_tcpTryClose w s = some w') : Pushes w.turns w'.turns := by
  unfold pd_tcpTryClose at h
  split at h
  · cases h
    exact pushes_of_eq rfl
  · split at h
    · cases h
      exact pushes_of_eq rfl
    · obtain ⟨q, hq, rfl⟩ := Option.map_eq_some_iff.mp h
      intro d
      rw [push_turns, logObs_turns _ rfl, closesocket_turns]
      exact .push hq

theorem pdTcpClose_turns (h : pdTcpClose w s = some w') : Pushes w.turns w'.turns := by
  unfold pdTcpClose at h
  split at h
  · cases h
    exact pushes_of_eq rfl
  · have hp := pd_tcpTryClose_turns h
    have hcancel : ∀ (c : Prop) [Decidable c] (w1 w2 : World), w1.turns = w.turns →
        w2.turns = w.turns → (if c then w1 else w2).turns = w.turns := by
      intro c _ w1 w2 h1 h2
      split
      · exact h1
      · exact h2
    rw [setFlags_turns, hcancel] at hp
    · exact hp
    · exact hcancel _ _ _ rfl rfl
    · exact hcancel _ _ _ rfl rfl

theorem callOnData_turns {buf : Option Nat} {size : Int} {bytes : List UInt8} {fs : List Frame}
    (h : callOnData w s buf size bytes fs = some r) : r.1.turns = w.turns := by
  unfold callOnData at h
  split at h <;> cases h
  exact call_turns ..

theorem pd_tcpPostRecv_turns {fs : List Frame} (h : pd_tcpPostRecv w s fs = some r) :
    r.1.turns = w.turns := by
  unfold pd_tcpPostRecv at h
  split at h <;> cases h
  exact call_turns ..

theorem postRecv_turns (h : postRecv w s a = some r) : r.1.turns = w.turns := by
  simp only [postRecv] at h
  split at h
  · rw [callOnData_turns h, setTcp_turns]
  · split at h
    · rw [callOnData_turns h, setSock_turns, logObs_turns _ rfl, setTcp_turns]
    · rw [callOnData_turns h, logObs_turns _ rfl, setTcp_turns]
    · cases h
      rw [goOn_turns, setFlags_turns, setSock_turns, logObs_turns _ rfl, setTcp_turns]

theorem writeDone_turns : (writeDone w s).turns = w.turns := by
  simp only [writeDone]
  split
  · split
    · exact logObs_turns _ rfl
    · rfl
  · rfl

/-- Only `pd__tcp_pending_close` leaves a reference to give up. -/
theorem exec_decs {f : Frame} (hf : f ≠ .pendingClose) (hd : ∀ s, f ≠ .pendingCloseDec s)
    (h : exec w f a = some r) : decsOf r.2 = [] := by
  apply List.filterMap_eq_nil_iff.mpr
  intro i hi
  cases i with
  | app k => rfl
  | lib f' =>
    cases hfs : f.stream with
    | some s =>
      have := (exec_view hfs h).items f' hi
      cases f' <;> first | rfl | cases this
    | none =>
      cases f with
      | timersRun =>
        cases h
        simp only [timersRun] at hi
        split at hi <;> simp_all [World.call, World.goOn]
      | pendingClose => exact absurd rfl hf
      | pendingCloseDec s => exact absurd rfl (hd s)
      | ioRun =>
        cases h
        simp only [ioRun] at hi
        split at hi
        · cases hi
        · simp only [World.goOn, List.mem_map, List.mem_append, List.mem_cons] at hi
          obtain ⟨f'', hf'', he⟩ := hi
          cases he
          rcases hf'' with ⟨p, _, rfl⟩ | rfl | rfl | rfl | rfl | hn <;> first | rfl | cases hn
      | ioAfterTick =>
        cases h
        simp only [ioAfterTick] at hi
        split at hi <;> simp_all [World.call, World.goOn]
      | ioNext =>
        cases h
        simp_all [ioNext, World.goOn]
      | _ => cases hfs

/-- What a frame other than those of `pd__tcp_pending_close` does to the queue. -/
theorem exec_turns {f : Frame} (hf : f ≠ .pendingClose) (hd : ∀ s, f ≠ .pendingCloseDec s)
    (h : exec w f a = some r) : Pushes w.turns r.1.turns ∧ decsOf r.2 = [] := by
  refine ⟨?_, exec_decs hf hd h⟩
  cases f with
  | postRecv s => exact pushes_of_eq (postRecv_turns h)
  | readIoRest s =>
    simp only [exec, readIoRest] at h
    split at h
    · obtain ⟨w', hw', rfl⟩ := Option.map_eq_some_iff.mp h
      exact pd_tcpTryClose_turns hw'
    · split at h
      · exact pushes_of_eq (pd_tcpPostRecv_turns h)
      · cases h
        exact pushes_of_eq rfl
  | writeIoRest s =>
    simp only [exec, writeIoRest] at h
    split at h
    · obtain ⟨w', hw', rfl⟩ := Option.map_eq_some_iff.mp h
      have hp := pd_tcpTryClose_turns hw'
      rw [writeDone_turns] at hp
      exact hp
    · cases h
      exact pushes_of_eq writeDone_turns
  | connectIoRest s =>
    cases h
    simp only [connectIoRest]
    split <;> exact pushes_of_eq (by simp)
  | dispatch p =>
    cases p with
    | recv s x =>
      simp only [exec, dispatch, pd_tcpReadIo] at h
      split at h
      · exact pushes_of_eq (by rw [callOnData_turns h, logObs_turns _ rfl, setFlags_turns])
      · obtain ⟨w', hw', rfl⟩ := Option.map_eq_some_iff.mp h
        have hp := pdTcpClose_turns hw'
        rw [logObs_turns _ rfl, setFlags_turns] at hp
        exact hp
    | send s op =>
      cases h
      simp only [pd_tcpWriteIo]
      split <;> exact pushes_of_eq (by simp)
    | connect s st =>
      simp only [exec, dispatch, pd_tcpConnectIo] at h
      split at h
      · exact pushes_of_eq (by rw [pd_tcpPostRecv_turns h, logObs_turns _ rfl])
      · cases h
        split <;> exact pushes_of_eq (by simp)
  | timersRun =>
    cases h
    simp only [timersRun]
    split <;> exact pushes_of_eq (by simp)
  | pendingClose => exact absurd rfl hf
  | pendingCloseDec s => exact absurd rfl (hd s)
  | ioRun =>
    cases h
    simp only [ioRun]
    split <;> exact pushes_of_eq (by simp)
  | ioAfterTick =>
    cases h
    simp only [ioAfterTick]
    split <;> exact pushes_of_eq (by simp)
  | ioNext =>
    cases h
    exact pushes_of_eq rfl

theorem api_decs {k : Call} (h : api w k a = some r) : decsOf r.2 = [] := by
  apply List.filterMap_eq_nil_iff.mpr
  intro i hi
  cases i with
  | app k => rfl
  | lib f' =>
    cases hks : k.stream with
    | some s =>
      have := (api_view hks h).items f' hi
      cases f' <;> first | rfl | cases this
    | none =>
      have hne := api_items (s := 0) (by rw [hks]; simp) h f' hi
      cases k with
      | release =>
        simp only [api] at h
        split at h <;> cases h
        cases hi
      | ioRun =>
        cases h
        simp_all [pdIoRun, World.goOn]
      | hold | setAfterTick b =>
        cases h
        cases hi
      | _ => cases hks

/-- What a call does to the queue. -/
theorem api_turns {k : Call} (h : api w k a = some r) :
    Pushes w.turns r.1.turns ∧ decsOf r.2 = [] := by
  refine ⟨?_, api_decs h⟩
  cases k with
  | tcpAccept s =>
    simp only [api, pdTcpAccept] at h
    exact pushes_of_eq (by rw [pd_tcpPostRecv_turns h, logObs_turns _ rfl]; rfl)
  | tcpConnect s b =>
    cases h
    simp only [pdTcpConnect, goOn_turns]
    split
    · exact pushes_of_eq rfl
    · split <;> exact pushes_of_eq rfl
  | tcpWrite s op x =>
    simp only [api] at h
    split at h
    · simp only [pdTcpWrite, callWrite] at h
      apply pushes_of_eq
      split at h
      · split at h <;> cases h
        exact call_turns ..
      · split at h
        · split at h <;> cases h
          rw [call_turns, logObs_turns _ rfl, setOp_turns]
        · split at h <;> cases h
          rw [call_turns, logObs_turns _ rfl, setOp_turns]
        · cases h
          rw [goOn_turns, setTcp_turns, setSock_turns, logObs_turns _ rfl, setOp_turns]
    · cases h
  | tcpClose s =>
    obtain ⟨w', hw', rfl⟩ := Option.map_eq_some_iff.mp h
    have hp := pdTcpClose_turns hw'
    rw [logObs_turns _ rfl] at hp
    exact hp
  | tcpShutdown s =>
    cases h
    simp only [pdTcpShutdown, goOn_turns]
    split
    · exact pushes_of_eq rfl
    · split
      · exact pushes_of_eq (logObs_turns _ rfl)
      · exact pushes_of_eq rfl
  | tcpPause s =>
    cases h
    apply pushes_of_eq
    simp only [pdTcpPause, goOn_turns]
    split
    · rw [cancelIoEx_turns, setFlags_turns, logObs_turns _ rfl]
    · rw [setFlags_turns, logObs_turns _ rfl]
  | tcpResume s =>
    simp only [api, pdTcpResume] at h
    apply pushes_of_eq
    split at h
    · cases h
      rw [goOn_turns, setFlags_turns, logObs_turns _ rfl]
    · rw [pd_tcpPostRecv_turns h, setFlags_turns, logObs_turns _ rfl]
  | release =>
    simp only [api] at h
    split at h <;> cases h
    exact pushes_of_eq rfl
  | _ =>
    cases h
    exact pushes_of_eq rfl

theorem env_turns {e : Env} (h : env w e = some w') : w'.turns = w.turns := by
  have hend : ∀ {s : Sid} {bytes st}, w.endRecv s bytes st = some w' → w'.turns = w.turns := by
    intro s bytes st h
    simp only [World.endRecv] at h
    split at h <;> cases h
    rfl
  cases e with
  | recvDone s n =>
    simp only [env] at h
    split at h
    · exact hend h
    · split at h
      · exact hend h
      · cases h
  | recvFail s => exact hend h
  | _ =>
    simp only [env] at h
    split at h <;> cases h
    rfl

end

/-- **What a step does to the queue of closes.** -/
theorem step_turns {c c' : Cfg} {x : Act} (hs : step c x = some c') :
    TurnStep c.world.turns (decsOf c.stack) c'.world.turns (decsOf c'.stack) := by
  rcases step_cases hs with ⟨a, f, rest, r, rfl, hst, hr, rfl⟩ |
    ⟨k, a, cb, rest, r, rfl, hst, hr, rfl⟩ | ⟨p, cb, rest, rfl, hst, hcb, rfl⟩ |
    ⟨e, w', rfl, he, rfl⟩
  · by_cases hpc : f = .pendingClose
    · subst hpc
      simp only [exec, pd_tcpPendingClose] at hr
      split at hr
      · cases hr
        rw [hst]
        exact .same
      · rename_i hne
        obtain ⟨⟨s, q⟩, hpop, rfl⟩ := Option.map_eq_some_iff.mp hr
        have hstep := TurnStep.pop (t := c.world.turns) (d := decsOf c.stack)
          (Bool.eq_false_of_not_eq_true hne) hpop
        rw [hst] at hstep ⊢
        split
        · rw [call_turns, pop_turns]
          exact hstep
        · rw [goOn_turns, pop_turns]
          exact hstep
    · by_cases hdec : ∃ s, f = .pendingCloseDec s
      · obtain ⟨s, rfl⟩ := hdec
        cases hr
        have hstep : TurnStep c.world.turns (decsOf c.stack)
            { c.world.turns with done := c.world.turns.done ++ [s] } (decsOf rest) :=
          .finished (by rw [hst]; rfl)
        have hturns : (pendingCloseDec c.world s).1.turns =
            { c.world.turns with done := c.world.turns.done ++ [s] } := done_turns _ s
        rw [hturns]
        exact hstep
      · obtain ⟨hp, hi⟩ := exec_turns hpc (fun s he => hdec ⟨s, he⟩) hr
        have hd : decsOf c.stack = decsOf rest := by
          rw [hst]
          cases f <;> first | rfl | exact absurd ⟨_, rfl⟩ hdec
        have hd' : decsOf (r.2 ++ rest) = decsOf rest := by
          rw [decsOf, List.filterMap_append]
          exact congrArg (· ++ _) hi
        rw [hd, hd']
        exact hp _
  · obtain ⟨hp, hi⟩ := api_turns hr
    have hd' : decsOf (r.2 ++ .app cb :: rest) = decsOf (.app cb :: rest) := by
      rw [decsOf, List.filterMap_append]
      exact congrArg (· ++ _) hi
    rw [hst, hd']
    exact hp _
  · rw [hst]
    exact .same
  · rw [env_turns he]
    exact .same

/-! ## Runs -/

/-- The queue holds, in order, the streams that were pushed and had no turn yet. -/
def QueueInv (t : Turns) (d : List Sid) : Prop :=
  ∃ l, t.queue.Represents l ∧ t.pushed = t.popped ++ l ∧ t.popped.Perm (t.done ++ d)

/-- A stream that is pushed for the first time is not in the queue. -/
theorem TurnStep.queueInv {t t' : Turns} {d d' : List Sid} (h : TurnStep t d t' d')
    (hn : t'.pushed.Nodup) (hq : QueueInv t d) : QueueInv t' d' := by
  obtain ⟨l, hl, hp, hd⟩ := hq
  cases h with
  | same => exact ⟨l, hl, hp, hd⟩
  | @push s q hpush =>
    have hs : s ∉ t.pushed := fun hm => by
      have := List.nodup_append.mp hn
      exact this.2.2 s hm s (List.mem_singleton_self s) rfl
    have hsl : s ∉ l := fun hm => hs (hp ▸ List.mem_append_right _ hm)
    obtain ⟨q', hq', hrep⟩ := (hl.queueInitNode hsl).push hsl
    rw [hpush] at hq'
    cases hq'
    exact ⟨l ++ [s], hrep, by rw [hp, List.append_assoc], hd⟩
  | @pop s q hne hpop =>
    cases l with
    | nil =>
      rw [hl.queueEmpty] at hne
      cases hne
    | cons a l =>
      obtain ⟨q', hq', hrep⟩ := hl.pop
      rw [hpop] at hq'
      cases hq'
      refine ⟨l, hrep, by rw [hp, List.append_assoc]; rfl, ?_⟩
      have hsnoc := (List.perm_append_singleton s t.popped).trans (hd.cons s)
      exact hsnoc.trans List.perm_middle.symm
  | @finished s d' hds =>
    refine ⟨l, hl, hp, ?_⟩
    rw [hds] at hd
    rw [List.append_assoc]
    exact hd

theorem count_pushed (log : List Obs) (s : Sid) :
    (log.filterMap Obs.pushedOf).count s = (log.filter (isObs s)).count (.pushed s) := by
  rw [List.count_filter (by simp [isObs])]
  induction log with
  | nil => rfl
  | cons o log ih =>
    rw [List.filterMap_cons, List.count_cons, ← ih]
    cases o with
    | pushed s' =>
      rw [show (Obs.pushed s').pushedOf = some s' from rfl, List.count_cons]
      by_cases hs : s' = s <;> simp [hs]
    | _ => simp [Obs.pushedOf]

/-- **What closing a stream comes to.** -/
structure Closes (c : Cfg) (s : Sid) : Prop where
  /-- The socket is closed and the stream queued together, and not twice. -/
  once : c.world.log.count (.closesocket s) = c.world.log.count (.pushed s) ∧
    c.world.log.count (.pushed s) ≤ 1
  /-- They are when everything has ended. -/
  finished : .close s ∈ c.world.log → c.recvs s = 0 → c.sends s = 0 →
    .lib (.readIoRest s) ∉ c.stack → c.world.log.count (.pushed s) = 1
  /-- They are not before, and nothing is outstanding afterwards. -/
  waits : .pushed s ∈ c.world.log → c.recvs s = 0 ∧ c.sends s = 0
  /-- The queue is in order, and a stream in it is there once. -/
  queued : ∃ l, c.world.pendingCloses.Represents l ∧
    c.world.turns.pushed = c.world.turns.popped ++ l
  /-- `on_close` has its turn once, and `ctx->refs--` follows it. -/
  turn : c.world.turns.popped.Nodup ∧
    c.world.turns.popped.Perm (c.world.turns.done ++ decsOf c.stack)

theorem Run.pushed_nodup {c : Cfg} (r : Run CloseOk c) : c.world.turns.pushed.Nodup := by
  rw [List.nodup_iff_count_le_one]
  intro s
  have h := r.ledger s
  show (c.world.log.filterMap Obs.pushedOf).count s ≤ 1
  rw [count_pushed]
  show (c.ledger s).pushes ≤ 1
  by_cases hst : (c.ledger s).status = .closed
  · rcases h.closed hst with h | h <;> omega
  · rw [h.fresh hst]
    exact Nat.zero_le _

theorem Run.queueInv {c : Cfg} (r : Run CloseOk c) :
    QueueInv c.world.turns (decsOf c.stack) := by
  induction r with
  | init hi =>
    rw [hi]
    exact ⟨[], .init, rfl, .nil⟩
  | step r hok hs ih => exact (step_turns hs).queueInv (Run.pushed_nodup (r.step hok hs)) ih

/-- **Every stream is finished once**, in every run that keeps to `CloseOk`. -/
theorem stream_closes {c : Cfg} (r : Run CloseOk c) (s : Sid) : Closes c s := by
  have h := r.ledger s
  have hcount : ∀ o, isObs s o = true →
      c.world.log.count o = (c.world.view s).log.count o := fun o ho => (List.count_filter ho).symm
  have hp : c.world.log.count (.pushed s) = (c.ledger s).pushes := hcount _ (by simp [isObs])
  have hcl : c.world.log.count (.closesocket s) = (c.ledger s).closes :=
    hcount _ (by simp [isObs])
  obtain ⟨l, hl, hpush, hdone⟩ := r.queueInv
  refine ⟨⟨?_, ?_⟩, ?_, ?_, ⟨l, hl, hpush⟩, ?_, hdone⟩
  · rw [hp, hcl]
    exact h.closes
  · rw [hp]
    by_cases hst : (c.ledger s).status = .closed
    · rcases h.closed hst with h | h <;> omega
    · rw [h.fresh hst]
      exact Nat.zero_le _
  · intro hm hr hs hnr
    have hcalled : (c.ledger s).called := List.mem_filter.mpr ⟨hm, by simp [isObs]⟩
    have hreads : (c.ledger s).reads = 0 := count_readIoRest hnr
    have hr : (c.ledger s).recvs = 0 := hr
    have hs : (c.ledger s).sends = 0 := hs
    rw [hp]
    rcases h.closed (h.called hcalled) with h | h <;> omega
  · intro hm
    have hpos : 0 < (c.ledger s).pushes := by
      rw [← hp]
      exact List.count_pos_iff.mpr hm
    have hst : (c.ledger s).status = .closed := by
      by_contra hst
      rw [h.fresh hst] at hpos
      exact Nat.lt_irrefl 0 hpos
    rcases h.closed hst with ⟨_, hr, hs, _⟩ | ⟨h0, _⟩
    · exact ⟨hr, hs⟩
    · omega
  · exact (List.nodup_append.mp (hpush ▸ r.pushed_nodup)).1

/-- Data arrives, and the application closes the stream before it is handled. -/
theorem stream_closes_after_data : ∃ c, Run CloseOk c ∧ .close 0 ∈ c.world.log ∧
    c.recvs 0 = 0 ∧ c.sends 0 = 0 ∧ .lib (.readIoRest 0) ∉ c.stack ∧ Closes c 0 := by
  have r : Run CloseOk _ := Machine.Reach.play (.init rfl) (l :=
    [.api (.setOnData 0 true) .pending, .api (.tcpAccept 0) .pending, .ret (some 7), .lib .pending,
      .env (.arrive 0 [1]), .env (.recvDone 0 1), .api (.tcpClose 0) .pending,
      .api .ioRun .pending, .lib .pending, .lib .pending, .ret none, .lib .pending]) rfl
  exact ⟨_, r, by decide, rfl, rfl, by decide, stream_closes r 0⟩

/-- **A stream that waits for data is closed and never finished**: its receive ends with nothing,
and `pd__tcp_read_io` calls `pd_tcp_close`, which returns. **A stream that is closed in `on_data`
is finished twice.** -/
theorem not_stream_closes :
    (∃ c, Run (fun _ _ => True) c ∧ .close 0 ∈ c.world.log ∧ c.recvs 0 = 0 ∧ c.sends 0 = 0 ∧
      .lib (.readIoRest 0) ∉ c.stack ∧ c.world.log.count (.pushed 0) = 0) ∧
    ∃ c, Run (fun _ _ => True) c ∧ .close 0 ∈ c.world.log ∧ c.recvs 0 = 0 ∧ c.sends 0 = 0 ∧
      .lib (.readIoRest 0) ∉ c.stack ∧ c.world.log.count (.pushed 0) = 2 := by
  constructor
  · have r : Run (fun _ _ => True) _ := Machine.Reach.play (.init rfl) (l :=
      [.api (.setOnData 0 true) .pending, .api (.tcpAccept 0) .pending, .ret (some 7),
        .lib .pending, .api (.tcpClose 0) .pending, .api .ioRun .pending, .lib .pending,
        .lib .pending]) rfl
    exact ⟨_, r, by decide, rfl, rfl, by decide, rfl⟩
  · have r : Run (fun _ _ => True) _ := Machine.Reach.play (.init rfl) (l :=
      [.api (.setOnData 0 true) .pending, .api (.tcpAccept 0) .pending, .ret (some 7),
        .lib .pending, .env (.arrive 0 [1]), .env (.recvDone 0 1), .api .ioRun .pending,
        .lib .pending, .lib .pending, .api (.tcpClose 0) .pending, .ret none, .lib .pending]) rfl
    exact ⟨_, r, by decide, rfl, rfl, by decide, rfl⟩

end Pandio.Iocp
