import Pandio.Lib.Past
import Pandio.Unix.StreamSteps

/- What the library does with a stream's descriptor after it has closed it. `FdStep`
   lists what a step may do to the descriptor. A closed stream is left alone as long
   as no frame that is about to use the descriptor waits on the stack while the
   stream is closed, and no event or call reaches a function that does not look at
   the status. -/
namespace Pandio
open World

/-! ## The view of one stream's descriptor -/

/-- A system call on the descriptor for the stream, or one of its callbacks about the
connection. -/
def usesFd (s : Sid) : Obs → Bool
  | .read s' _ _ | .write s' _ _ _ | .shutdown s' _ | .sockError s' _ | .ctl (.tcp s') _ _
  | .cb (.onData s' _ _ _) _ | .cb (.onConnect s' _) _ => s' = s
  | _ => false

/-- The stream gets or loses its descriptor. -/
def opensFd (s : Sid) : Obs → Bool
  | .opened s' _ | .closed s' _ => s' = s
  | _ => false

/-- The stream has been closed, and not opened again. -/
def closedLast (s : Sid) (log : List Obs) : Bool :=
  match (log.filter (opensFd s)).getLast? with
  | some (.closed _ _) => true
  | _ => false

structure FdView where
  log : List Obs
  status : TcpStatus

def isFdObs (s : Sid) (o : Obs) : Bool := usesFd s o || opensFd s o

def World.fdView (w : World) (s : Sid) : FdView :=
  { log := w.log.filter (isFdObs s), status := (w.tcp s).status }

/-- The descriptor is used. -/
structure Uses (s : Sid) (v v' : FdView) : Prop where
  status : v.status = .closed → v'.status = .closed
  log : ∃ l, v'.log = v.log ++ l ∧ ∀ o ∈ l, usesFd s o = true

/-- What a step may do to a stream's descriptor. A step that is not `careless` uses it only if
the stream is not closed; a step that `closes` may close it. -/
inductive FdStep (s : Sid) (careless closes : Prop) (v : FdView) : FdView → Prop where
  | same : FdStep s careless closes v v
  | use {v' : FdView} : v.status ≠ .closed ∨ careless → Uses s v v' → FdStep s careless closes v v'
  | close {fd fd' : Fd} : closes → v.status ≠ .closed → FdStep s careless closes v
      { log := v.log ++ [.ctl (.tcp s) fd' .del, .closed s fd], status := .closed }
  | opened {fd : Fd} {l : List Obs} {st : TcpStatus} : (∀ o ∈ l, usesFd s o = true) →
      FdStep s careless closes v { log := v.log ++ .opened s fd :: l, status := st }

theorem isFdObs_isStreamObs {s : Sid} {o : Obs} (h : isFdObs s o = true) :
    isStreamObs s o = true := by
  cases o with
  | cb k now => cases k <;> simp_all [isFdObs, usesFd, opensFd, isStreamObs]
  | ctl hd fd c => cases hd <;> simp_all [isFdObs, usesFd, opensFd, isStreamObs]
  | _ => simp_all [isFdObs, usesFd, opensFd, isStreamObs]

/-! ## What the functions do to their stream's descriptor -/

/-- A stream's descriptor, as the view of the stream has it. -/
def StreamView.fdView (v : StreamView) (s : Sid) : FdView :=
  { log := v.log.filter (isFdObs s), status := v.tcp.status }

theorem streamView_fdView (w : World) (s : Sid) : (w.streamView s).fdView s = w.fdView s := by
  have hsub : (w.log.filter (isStreamObs s)).filter (isFdObs s) = w.log.filter (isFdObs s) := by
    rw [List.filter_filter]
    apply List.filter_congr
    intro o _
    by_cases ho : isFdObs s o = true
    · simp [ho, isFdObs_isStreamObs ho]
    · simp [ho]
  simp only [StreamView.fdView, streamView, World.fdView, hsub]

theorem fdView_eq {w w' : World} {s : Sid} (h : w'.streamView s = w.streamView s) :
    w'.fdView s = w.fdView s := by
  rw [← streamView_fdView, h, streamView_fdView]

section
variable {s : Sid} {v v' : StreamView} {careless closes : Prop}

/-- A step that logs only uses of the descriptor, and entries that are not about it. -/
theorem FdStep.of_log {l : List Obs} (hl : v'.log = v.log ++ l)
    (hst : v.tcp.status = .closed → v'.tcp.status = .closed)
    (hopen : v.tcp.status ≠ .closed ∨ careless) (hno : ∀ o ∈ l, opensFd s o = false) :
    FdStep s careless closes (v.fdView s) (v'.fdView s) := by
  refine .use hopen ⟨hst, l.filter (isFdObs s), by simp [StreamView.fdView, hl], ?_⟩
  intro o ho
  obtain ⟨hmem, hfd⟩ := List.mem_filter.mp ho
  simpa [isFdObs, hno o hmem] using hfd

/-- A step that logs nothing about the descriptor. -/
theorem FdStep.of_same {l : List Obs} (hl : v'.log = v.log ++ l)
    (hst : v'.tcp.status = v.tcp.status) (hno : l.filter (isFdObs s) = []) :
    FdStep s careless closes (v.fdView s) (v'.fdView s) := by
  have h : v'.fdView s = v.fdView s := by simp [StreamView.fdView, hl, hst, hno]
  exact h ▸ .same

theorem FdStep.of_close (hc : closes) (hst : v.tcp.status ≠ .closed) :
    FdStep s careless closes (v.fdView s) ((v.close s).fdView s) := by
  have h : (v.close s).fdView s =
      { log := (v.fdView s).log ++ [.ctl (.tcp s) v.tcp.fd .del, .closed s v.tcp.fd]
        status := .closed } := by
    simp [StreamView.fdView, StreamView.close, StreamView.setStatus, isFdObs, usesFd, opensFd]
  rw [h]
  exact .close hc hst

end

/-! ## What a step does to the descriptor -/

/-- The frame uses the stream's descriptor without looking at the status. -/
def Frame.careless (s : Sid) : Frame → Bool
  | .readAlloc s' | .readTry s' _ | .writeTry s' _ | .writeLoop s' => s' = s
  | _ => false

/-- The frame closes the stream if it is not closed. -/
def Frame.closes (s : Sid) : Frame → Bool
  | .close s' => s' = s
  | .clientIoRest s' ev => s' = s && ev.close
  | _ => false

/-- The call uses the stream's descriptor without looking at the status. -/
def Call.careless (s : Sid) : Call → Bool
  | .tcpPause s' | .tcpResume s' => s' = s
  | _ => false

/-- The call closes the stream if it is not closed. -/
def Call.closes (s : Sid) : Call → Bool
  | .tcpClose s' => s' = s
  | _ => false

section
variable {w : World} {s : Sid} {a : Answer} {r : World × List Item} {v v' : StreamView}

theorem enqueue_log {o : Obs} (op : Op) (ho : opensFd s o = false) :
    ∃ l, ((v.logs [o]).enqueue s op).log = v.log ++ l ∧
      ((v.logs [o]).enqueue s op).tcp.status = v.tcp.status ∧ ∀ o ∈ l, opensFd s o = false := by
  unfold StreamView.enqueue
  split
  · exact ⟨[o], rfl, rfl, by simpa using ho⟩
  · refine ⟨[o, .ctl (.tcp s) v.tcp.fd .mod], ?_, rfl, ?_⟩
    · simp [StreamView.logs, StreamView.setWrites, StreamView.setPollout]
    · have hctl : opensFd s (.ctl (.tcp s) v.tcp.fd .mod) = false := rfl
      simp [ho, hctl]

theorem StreamExec.fdStep {now : Nat} {f : Frame} {l : List Item}
    (h : StreamExec s now v f v' l) :
    FdStep s (f.careless s = true) (f.closes s = true) (v.fdView s) (v'.fdView s) := by
  cases h with
  | closeAgain | buffer | ioClosed | ioStale | ioWrite | ioNothing | client | connectNothing =>
    exact .same
  | cancel | closeQueued | clientRead =>
    exact .of_same rfl rfl (by simp [isFdObs, usesFd, opensFd])
  | close hst => exact .of_close (by simp [Frame.closes]) hst
  | ioClose hev hst => exact .of_close (by simp [Frame.closes, hev]) hst
  | @tryQueued op bytes hst =>
    obtain ⟨m, hm, hs, hno⟩ := enqueue_log (s := s) (v := v) (o := .write s v.tcp.fd op bytes) op rfl
    exact .of_log hm (fun h => hs.trans h) (.inr (by simp [Frame.careless])) hno
  | connectHungUp hh hst | connectFailed hh hst => exact .of_log rfl id (.inl hst) (by simp [opensFd])
  | connected hh hst =>
    exact .of_log rfl (fun h => absurd h hst) (.inl hst) (by simp [opensFd])
  | connectedCalled hh hst =>
    refine .of_log (l := [.ctl (.tcp s) v.tcp.fd .mod, .cb (.onConnect s 0) now]) ?_
      (fun h => absurd h hst) (.inl hst) (by simp [opensFd])
    simp [StreamView.connected, StreamView.logs]
  | _ => exact .of_log rfl id (.inr (by simp [Frame.careless])) (by simp [opensFd])

theorem StreamApi.fdStep {c : Call} {l : List Item} (h : StreamApi s v c v' l) :
    FdStep s (c.careless s = true) (c.closes s = true) (v.fdView s) (v'.fdView s) := by
  cases h with
  | connectNothing | closeAgain | shutNothing => exact .same
  | accept | connect =>
    simp only [StreamView.fdView, logs_log, List.filter_append]
    simp [isFdObs, usesFd, opensFd]
    exact .opened (by simp [usesFd])
  | setOnData | setOnClose =>
    exact .of_same (List.append_nil _).symm rfl rfl
  | connectRefused => exact .of_same rfl rfl (by simp [isFdObs, usesFd, opensFd])
  | writeRefused | write => exact .of_same rfl rfl (by simp [isFdObs, usesFd, opensFd])
  | @writeQueued op r hst hw =>
    obtain ⟨m, hm, hs, hno⟩ := enqueue_log (s := s) (v := v) (o := .accepted s op) op rfl
    exact .of_log hm (fun h => hs.trans h) (.inl (by simp [hst])) hno
  | close hst => exact .of_close (by simp [Call.closes]) hst
  | shut hst hw | shutLater hst hw =>
    exact .of_log rfl (fun h => by simp [hst] at h) (.inl (by simp [hst])) (by simp [opensFd])
  | pause | resume => exact .of_log rfl id (.inr (by simp [Call.careless])) (by simp [opensFd])

theorem exec_fdStep {f : Frame} (h : exec w f a = some r) :
    FdStep s (f.careless s = true) (f.closes s = true) (w.fdView s) (r.1.fdView s) := by
  by_cases hf : f.stream = some s
  · rw [← streamView_fdView, ← streamView_fdView]
    exact (exec_stream hf h).fdStep
  · rw [fdView_eq (exec_streamView hf h)]
    exact .same

theorem api_fdStep {c : Call} (h : api w c a = some r) :
    FdStep s (c.careless s = true) (c.closes s = true) (w.fdView s) (r.1.fdView s) := by
  by_cases hc : c.stream = some s
  · rw [← streamView_fdView, ← streamView_fdView]
    exact (api_stream hc h).fdStep
  · rw [fdView_eq (api_streamView hc h)]
    exact .same

end

/-! ## The condition -/

/-- The step closes the stream. -/
def Act.closes (c : Cfg) (x : Act) (s : Sid) : Bool :=
  match x, c.stack with
  | .lib _, .lib f :: _ => f.closes s && (c.world.tcp s).status ≠ .closed
  | .api k _, _ => k.closes s && (c.world.tcp s).status ≠ .closed
  | _, _ => false

/-- The step begins to use the stream's descriptor without looking at the status: a readable
event of a stream with `on_data`, `pd_tcp_pause`, or `pd_tcp_resume`. -/
def Act.reaches (c : Cfg) (x : Act) (s : Sid) : Bool :=
  match x, c.stack with
  | .lib _, .lib (.dispatch (.tcp s') ev) :: _ =>
    s' = s && (c.world.tcp s).handler = some .clientIo && ev.pollin && (c.world.tcp s).onData
  | .api k _, _ => k.careless s
  | _, _ => false

/-- The item of the stack is going to use the stream's descriptor. -/
def Item.careless (s : Sid) : Item → Bool
  | .lib f => f.careless s
  | .app _ => false

/-- The stream is not closed from a callback from which `pd__tcp_read` or `pd__tcp_write` goes on
with the stream, and it is not paused, resumed or told that it can be read when it is closed. -/
def ClosesSafely (s : Sid) (c : Cfg) (x : Act) : Prop :=
  (x.closes c s = true → ∀ i ∈ c.stack, i.careless s = false) ∧
  (x.reaches c s = true → (c.world.tcp s).status ≠ .closed)

instance (s : Sid) (c : Cfg) (x : Act) : Decidable (ClosesSafely s c x) :=
  inferInstanceAs (Decidable (_ ∧ _))

/-! ## The invariant -/

/-- An entry that uses the stream's descriptor does not come after its close. -/
def OpenUse (s : Sid) (past : List Obs) (o : Obs) : Prop :=
  usesFd s o = true → closedLast s past = false

/-- A stream that has been closed and not opened again is marked so, and nothing on the stack is
going to use its descriptor. -/
structure FdInv (s : Sid) (c : Cfg) : Prop where
  status : closedLast s c.world.log = true → (c.world.tcp s).status = .closed
  idle : closedLast s c.world.log = true → ∀ i ∈ c.stack, i.careless s = false
  past : Past (OpenUse s) (c.world.log.filter (isFdObs s))

theorem closedLast_filter {s : Sid} (log : List Obs) :
    closedLast s (log.filter (isFdObs s)) = closedLast s log := by
  have : ((log.filter (isFdObs s)).filter (opensFd s)) = log.filter (opensFd s) := by
    rw [List.filter_filter]
    apply List.filter_congr
    intro o _
    by_cases ho : opensFd s o = true <;> simp [isFdObs, ho]
  simp only [closedLast, this]

theorem closedLast_append {s : Sid} {log l : List Obs} (h : ∀ o ∈ l, usesFd s o = true) :
    closedLast s (log ++ l) = closedLast s log := by
  have : l.filter (opensFd s) = [] := by
    rw [List.filter_eq_nil_iff]
    intro o ho hopen
    have := h o ho
    cases o <;> simp_all [usesFd, opensFd]
  simp only [closedLast, List.filter_append, this, List.append_nil]

section
variable {s : Sid} {careless closes : Prop} {v v' : FdView}

/-- A step that is not careless with a closed stream leaves it closed, and closes no other. -/
theorem FdStep.closedLast (h : FdStep s careless closes v v') (hc : closedLast s v'.log = true) :
    closedLast s v.log = true ∧ (v.status = .closed → v'.status = .closed) ∨
    closes ∧ v.status ≠ .closed ∧ v'.status = .closed := by
  cases h with
  | same => exact .inl ⟨hc, id⟩
  | use _ hu =>
    obtain ⟨l, hl, hl'⟩ := hu.log
    rw [hl, closedLast_append hl'] at hc
    exact .inl ⟨hc, hu.status⟩
  | close hcl hst => exact .inr ⟨hcl, hst, rfl⟩
  | @opened fd l st hl =>
    have hopen : Pandio.closedLast s (v.log ++ [.opened s fd]) = false := by
      simp [Pandio.closedLast, opensFd]
    simp only at hc
    rw [List.append_cons, closedLast_append hl, hopen] at hc
    cases hc

/-- Entries that use the descriptor of a stream that is not closed. -/
theorem past_uses {log l : List Obs} (hl : ∀ o ∈ l, usesFd s o = true)
    (hc : closedLast s log = false) (hp : Past (OpenUse s) log) : Past (OpenUse s) (log ++ l) := by
  induction l generalizing log with
  | nil => simpa using hp
  | cons o l ih =>
    have ho : ∀ o' ∈ [o], usesFd s o' = true := by
      rintro o' ho'
      exact hl o' (by simp_all)
    rw [List.append_cons]
    apply ih (fun o' h => hl o' (List.mem_cons_of_mem o h))
    · rwa [closedLast_append ho]
    · exact hp.snoc fun _ => hc

theorem FdStep.past (h : FdStep s careless closes v v')
    (hst : Pandio.closedLast s v.log = true → v.status = .closed)
    (hcl : Pandio.closedLast s v.log = true → ¬ careless)
    (hp : Past (OpenUse s) v.log) : Past (OpenUse s) v'.log := by
  have hopen : v.status ≠ .closed → Pandio.closedLast s v.log = false := by
    intro h
    by_contra hc
    exact h (hst (by simpa using hc))
  cases h with
  | same => exact hp
  | use hu hl =>
    obtain ⟨l, hl, hl'⟩ := hl.log
    rw [hl]
    refine past_uses hl' ?_ hp
    rcases hu with hu | hu
    · exact hopen hu
    · by_contra hc
      exact hcl (by simpa using hc) hu
  | close _ hne =>
    exact hp.snoc₂ (fun _ => hopen hne) (by simp [OpenUse, usesFd])
  | @opened fd l st hl =>
    rw [List.append_cons]
    refine past_uses hl ?_ (hp.snoc (by simp [OpenUse, usesFd]))
    simp [Pandio.closedLast, opensFd]

end

/-! ## Runs -/

section
variable {w : World} {s : Sid} {a : Answer} {r : World × List Item}

theorem Frame.Pushes.careful {f : Frame} {l : List Item} (h : f.Pushes l) (hf : f.careless s = false)
    (hio : ∀ ev, f ≠ .clientIoRest s ev) (hd : ∀ ev, f ≠ .dispatch (.tcp s) ev) :
    ∀ i ∈ l, i.careless s = false := by
  cases h <;> simp_all [Item.careless, Frame.careless]
  all_goals grind [Item.careless, Frame.careless]

/-- A frame that closes a stream leaves nothing careless on the stack. -/
theorem Frame.Pushes.of_closes {f : Frame} {l : List Item} (h : f.Pushes l)
    (hf : f.closes s = true) : ∀ i ∈ l, i.careless s = false := by
  cases h <;> simp_all [Item.careless, Frame.careless, Frame.closes]

/-- With a closed stream, a frame leaves something careless on the stack only if it was careless,
or dispatched a readable event. -/
theorem exec_careful {f : Frame} (h : exec w f a = some r) (hst : (w.tcp s).status = .closed)
    (hf : f.careless s = false)
    (hd : ∀ ev, f = .dispatch (.tcp s) ev → (w.tcp s).handler = some .clientIo →
      ev.pollin = true → (w.tcp s).onData = false) :
    ∀ i ∈ r.2, i.careless s = false := by
  by_cases hio : ∃ ev, f = .clientIoRest s ev
  · obtain ⟨ev, rfl⟩ := hio
    cases h
    simp only [clientIoRest, pdTcpClose, pd_tcpWrite, hst, ↓reduceIte]
    split <;> (try split) <;> simp [goOn]
  · by_cases hdis : ∃ ev, f = .dispatch (.tcp s) ev
    · obtain ⟨ev, rfl⟩ := hdis
      have hdata := hd ev rfl
      simp only [exec, dispatch] at h
      split at h <;> cases h
      · rename_i hh
        simp only [pd_tcpClientIo, pd_tcpRead]
        split
        · rename_i hin
          simp [hdata hh hin, goOn, Item.careless, Frame.careless]
        · simp [goOn, Item.careless, Frame.careless]
      · simp [pd_tcpConnectIo, hst, goOn]
    · exact (exec_pushes h).careful hf (fun ev he => hio ⟨ev, he⟩) fun ev he => hdis ⟨ev, he⟩

theorem api_careful {c : Call} (h : api w c a = some r) (hst : (w.tcp s).status = .closed) :
    ∀ i ∈ r.2, i.careless s = false := by
  have hp := api_pushes h
  by_cases ht : ∃ s' op wr, c = .tcpWrite s' op wr
  · obtain ⟨s', op, wr, rfl⟩ := ht
    by_cases hs : s' = s
    · subst hs
      simp only [api] at h
      split at h
      · simp only [pdTcpWrite, setOp, hst] at h
        split at h
        · split at h <;> cases h
          simp [Item.careless]
        · simp at *
      · cases h
    · generalize r.2 = l at hp
      cases hp <;> simp [Item.careless, Frame.careless, hs]
  · generalize r.2 = l at hp
    cases hp with
    | writeTry s' op wr => exact absurd ⟨s', op, wr, rfl⟩ ht
    | _ => simp [Item.careless, Frame.careless]

theorem env_fdView {e : Env} {w' : World} (h : env w e = some w') : w'.fdView s = w.fdView s :=
  fdView_eq (env_streamView h)

theorem Call.Pushes.of_closes {c : Call} {l : List Item} (h : c.Pushes l)
    (hc : c.closes s = true) : ∀ i ∈ l, i.careless s = false := by
  cases h <;> simp_all [Item.careless, Frame.careless, Call.closes]

end

section
variable {c c' : Cfg} {x : Act} {s : Sid}

/-- A step of the library or a call of the application keeps the invariant. -/
theorem FdInv.push {careless closes : Prop} {l rest : List Item} {w w' : World}
    (hinv : FdInv s ⟨w, l ++ rest⟩)
    (hs : FdStep s careless closes (w.fdView s) (w'.fdView s)) {new : List Item}
    (hcareless : closedLast s w.log = true → ¬ careless)
    (hnew : closedLast s w.log = true → ∀ i ∈ new, i.careless s = false)
    (hclose : closes → (w.tcp s).status ≠ .closed → ∀ i ∈ new ++ rest, i.careless s = false) :
    FdInv s ⟨w', new ++ rest⟩ := by
  have hl : ∀ w : World, closedLast s w.log = closedLast s (w.fdView s).log :=
    fun w => (closedLast_filter w.log).symm
  have hst : closedLast s (w.fdView s).log = true → (w.fdView s).status = .closed := by
    rw [← hl]
    exact hinv.status
  simp only [hl] at hcareless hnew
  constructor
  · intro hc
    rw [hl] at hc
    rcases hs.closedLast hc with ⟨hold, hkeep⟩ | ⟨_, _, hclosed⟩
    · exact hkeep (hst hold)
    · exact hclosed
  · intro hc
    rw [hl] at hc
    rcases hs.closedLast hc with ⟨hold, hkeep⟩ | ⟨hcl, hopen, _⟩
    · intro i hi
      rcases List.mem_append.mp hi with hi | hi
      · exact hnew hold i hi
      · exact hinv.idle (by rwa [hl]) i (List.mem_append_right l hi)
    · exact hclose hcl hopen
  · exact hs.past hst hcareless hinv.past

/-- A step that is not about the stream. -/
theorem FdInv.pop {l rest : List Item} {w w' : World} (hinv : FdInv s ⟨w, l ++ rest⟩)
    (hv : w'.fdView s = w.fdView s) : FdInv s ⟨w', rest⟩ := by
  have hs : FdStep s False False (w.fdView s) (w'.fdView s) := hv ▸ .same
  have hnil : ∀ i ∈ ([] : List Item), i.careless s = false := by simp
  exact hinv.push hs (fun _ => id) (fun _ => hnil) False.elim

theorem FdInv.step (hinv : FdInv s c) (hok : ClosesSafely s c x) (hs : step c x = some c') :
    FdInv s c' := by
  obtain ⟨hclose, hreach⟩ := hok
  rcases step_cases hs with ⟨a, f, rest, r, rfl, hst, hr, rfl⟩ |
    ⟨k, a, cb, rest, r, rfl, hst, hr, rfl⟩ | ⟨p, cb, rest, rfl, hst, hcb, rfl⟩ |
    ⟨e, w', rfl, he, rfl⟩
  · have hinv' : FdInv s ⟨c.world, [.lib f] ++ rest⟩ := by
      simpa [← hst] using hinv
    have hf : closedLast s c.world.log = true → f.careless s = false := fun hc =>
      hinv.idle hc (.lib f) (by simp [hst])
    refine hinv'.push (exec_fdStep hr) (fun hc => by simp [hf hc]) ?_ ?_
    · intro hc
      refine exec_careful hr (hinv.status hc) (hf hc) ?_
      rintro ev rfl hh hin
      by_contra hdata
      exact hreach (by simp [Act.reaches, hst, hh, hin, hdata]) (hinv.status hc)
    · intro hcl hopen i hi
      rcases List.mem_append.mp hi with hi | hi
      · exact (exec_pushes hr).of_closes hcl i hi
      · exact hclose (by simp [Act.closes, hst, hcl, hopen]) i (by simp [hst, hi])
  · have hinv' : FdInv s ⟨c.world, [] ++ .app cb :: rest⟩ := by
      simpa [← hst] using hinv
    refine hinv'.push (api_fdStep hr) ?_ (fun hc => api_careful hr (hinv.status hc)) ?_
    · intro hc hk
      exact hreach (by simp [Act.reaches, hk]) (hinv.status hc)
    · intro hcl hopen i hi
      rcases List.mem_append.mp hi with hi | hi
      · exact (api_pushes hr).of_closes hcl i hi
      · exact hclose (by simp [Act.closes, hcl, hopen]) i (by simpa [hst] using hi)
  · have hinv' : FdInv s ⟨c.world, [.app cb] ++ rest⟩ := by
      simpa [← hst] using hinv
    exact hinv'.pop rfl
  · have hinv' : FdInv s ⟨c.world, [] ++ c.stack⟩ := hinv
    exact hinv'.pop (env_fdView he)

/-- **A closed stream is left alone** on every run that closes it safely: after `pd_tcp_close` has
closed its descriptor, nothing is done with a descriptor for it, and neither `on_data` nor
`on_connect` is called, until it is opened again. -/
theorem closed_stream_left_alone {c : Cfg} (r : Run (ClosesSafely s) c) :
    Past (OpenUse s) c.world.log := by
  have h : FdInv s c := by
    refine r.invariant (P := FdInv s) ?_ fun c x c' _ hinv hok hs => hinv.step hok hs
    rintro c ⟨k, fd, -, -, rfl⟩
    refine ⟨?_, ?_, Past.nil⟩
    all_goals simp [World.init, closedLast]
  refine h.past.of_filter.mono fun past o hp hu => ?_
  rw [← closedLast_filter]
  exact hp (by simp [isFdObs, hu]) hu

/-- Two streams; the first is closed in its own `on_data`, in the middle of a readable event, and
the second takes its descriptor's number. -/
theorem closed_stream_left_alone_reused : ∃ c, Run (ClosesSafely 0) c ∧
    c.world.log.filter (isFdObs 0) = [.opened 0 5, .ctl (.tcp 0) 5 .add, .read 0 5 [1],
      .cb (.onData 0 (some 0) 1 [1]) 0, .ctl (.tcp 0) 5 .del, .closed 0 5] ∧
    (c.world.tcp 1).fd = 5 ∧ Past (OpenUse 0) c.world.log := by
  have r : Run (ClosesSafely 0) _ := Run.play (Cfg.start_init [5, 6])
    [.api (.tcpAccept 0 5) (.ok 0 []), .api (.setOnData 0 true) (.ok 0 []),
      .api (.tcpAccept 1 6) (.ok 0 []), .env (.arrive 5 [1]), .api .ioRun (.ok 0 []),
      .lib (.ok 0 [(5, ⟨true, false, false, false, false⟩)]), .lib (.ok 0 []), .ret (some 0),
      .lib (.ok 0 []), .lib (.ok 6144 []), .api (.tcpClose 0) (.ok 0 []), .lib (.ok 0 []),
      .env (.openFd 5), .api (.tcpAccept 1 5) (.ok 0 []), .ret none, .lib (.ok 0 []),
      .lib (.ok 0 [])] rfl
  exact ⟨_, r, rfl, rfl, closed_stream_left_alone r⟩

/-- A stream is closed in the callback of a write that `pd__tcp_write` has finished, another
stream takes its descriptor's number, and `pd__tcp_write` changes its registration. -/
theorem closed_stream_written : ∃ c, Run AnyStep c ∧
    c.world.log = [.opened 0 5, .ctl (.tcp 0) 5 .add, .refInc (.tcp 0), .accepted 0 0,
      .write 0 5 0 [1], .ctl (.tcp 0) 5 .mod, .write 0 5 0 [2], .called 0 0 0,
      .ctl (.tcp 0) 5 .del, .closed 0 5, .closeQueued 0, .opened 1 5, .ctl (.tcp 1) 5 .add,
      .refInc (.tcp 1), .ctl (.tcp 0) 5 .mod] := by
  have r : Run AnyStep _ := Run.play (Cfg.start_init [5])
    [.api (.tcpAccept 0 5) (.ok 0 []),
      .api (.tcpWrite 0 0 (pdWriteInit [1, 2] true (by decide))) (.ok 0 []), .lib (.ok 1 []),
      .api .ioRun (.ok 0 []), .lib (.ok 0 [(5, ⟨false, true, false, false, false⟩)]),
      .lib (.ok 0 []), .lib (.ok 0 []), .lib (.ok 1 []),
      .api (.tcpClose 0) (.ok 0 []), .lib (.ok 0 []), .env (.openFd 5),
      .api (.tcpAccept 1 5) (.ok 0 []), .ret none, .lib (.ok 0 [])] rfl
  exact ⟨_, r, rfl⟩

theorem not_closed_stream_left_alone :
    ¬ ∀ c, Run AnyStep c → ∀ s, Past (OpenUse s) c.world.log := by
  intro h
  obtain ⟨c, r, hlog⟩ := closed_stream_written
  have hmod := h c r 0 c.world.log.dropLast (.ctl (.tcp 0) 5 .mod) [] (by rw [hlog]; rfl)
    (by simp [usesFd])
  rw [hlog] at hmod
  simp [closedLast, opensFd] at hmod

end

end Pandio
