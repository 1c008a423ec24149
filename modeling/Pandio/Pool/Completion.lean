import Pandio.Pool.Journey

/- Finished tasks and the notifier of their context. A worker pushes a task on
   `finished_tasks` and sends under `mux`; the loop reads the notifier without it and
   drains the queue after that. -/
namespace Pandio.Threadpool

/-! ## The notifier -/

/-- The descriptor is readable after a send, also after one that was refused. -/
theorem Notifier.send_readable (n : Notifier) : n.send.readable = true := by
  cases n with
  | eventfd n =>
    simp only [Notifier.send]
    split <;> simp only [Notifier.readable, decide_eq_true_eq] <;> omega
  | pipe b c h =>
    simp only [Notifier.send]
    split <;> simp only [Notifier.readable, decide_eq_true_eq] <;> omega

/-! ## What becomes of a finished task -/

/-- Somebody is about to drain the finished tasks of `c`, or will be told to. -/
def Pool.Announced (s : Pool) (c : CtxId) : Prop :=
  (s.ctx c).notifier.readable = true ∨ (∃ ds, (s.ctx c).drains = .signaled :: ds) ∨
    ∃ (i : Wid) (k : TaskId), s.threads[i]? = some (.pushed k) ∧ (s.task k).ctx = c

/-- `task_signaled` is never set, and finished tasks are announced. -/
structure Notified (s : Pool) : Prop where
  signaled : ∀ c, (s.ctx c).taskSignaled = false
  announced : ∀ c, (s.ctx c).finishedTasks ≠ [] → s.Announced c

section
variable {s s' : Pool} {ts ts' : List Point} {i i' : Wid} {a b : Point} {act : Act} {k : TaskId}
  {pl : TaskId → Option Place}

theorem pushed_keep (h : ts[i]? = some b) (hb : ∀ k, b ≠ .pushed k)
    (hk : ts[i']? = some (.pushed k)) : (ts.set i a)[i']? = some (.pushed k) := by
  rw [getElem?_set_of h]
  split
  · rename_i hi
    rw [← hi, h] at hk
    exact absurd (Option.some.inj hk) (hb k)
  · exact hk

/-- A step that keeps the contexts, the tasks and the workers between push and notification. -/
theorem Notified.still (h : Notified s) (hctx : s'.ctx = s.ctx) (htask : s'.task = s.task)
    (hts : ∀ (i : Wid) (k : TaskId), s.threads[i]? = some (.pushed k) →
      s'.threads[i]? = some (.pushed k)) : Notified s' := by
  refine ⟨fun c => by rw [hctx]; exact h.signaled c, fun c hc => ?_⟩
  rw [hctx] at hc
  unfold Pool.Announced
  rw [hctx, htask]
  rcases h.announced c hc with hr | hd | ⟨i, k, hi, hk⟩
  · exact .inl hr
  · exact .inr (.inl hd)
  · exact .inr (.inr ⟨i, k, hts i k hi, hk⟩)

/-- A step that changes context `c`. -/
theorem Notified.ctx {c : CtxId} {x : Ctx} (h : Notified s) (hctx : s'.ctx = Function.update s.ctx c x)
    (htask : s'.task = s.task) (hsig : x.taskSignaled = false)
    (hts : ∀ (i : Wid) (k : TaskId), s.threads[i]? = some (.pushed k) → (s.task k).ctx ≠ c →
      s'.threads[i]? = some (.pushed k))
    (hc : x.finishedTasks ≠ [] → s'.Announced c) : Notified s' := by
  refine ⟨fun d => ?_, fun d hd => ?_⟩
  · rw [hctx, Function.update_apply]
    split
    · exact hsig
    · exact h.signaled d
  · by_cases hdc : d = c
    · subst hdc
      rw [hctx, Function.update_self] at hd
      exact hc hd
    · rw [hctx, Function.update_of_ne hdc] at hd
      unfold Pool.Announced
      rw [hctx, Function.update_of_ne hdc, htask]
      rcases h.announced d hd with hr | hd | ⟨i, k, hi, hk⟩
      · exact .inl hr
      · exact .inr (.inl hd)
      · exact .inr (.inr ⟨i, k, hts i k hi (hk ▸ hdc), hk⟩)

/-- A `pd__task_done` goes on. -/
theorem Notified.goOn {c : CtxId} {x : Ctx} {l : List Obs} (h : Notified s)
    (hfin : x.finishedTasks = (s.ctx c).finishedTasks) (hsig : x.taskSignaled = (s.ctx c).taskSignaled)
    (hnot : x.notifier = (s.ctx c).notifier) (hd : ∀ ds, (s.ctx c).drains ≠ .signaled :: ds) :
    Notified { s with ctx := Function.update s.ctx c x, log := l } := by
  refine h.ctx rfl rfl (hsig.trans (h.signaled c)) (fun _ _ hi _ => hi) fun hne => ?_
  rw [hfin] at hne
  rcases h.announced c hne with hr | ⟨ds, hd'⟩ | hp
  · left
    simp only [Function.update_self, hnot]
    exact hr
  · exact absurd hd' (hd ds)
  · exact .inr (.inr hp)

theorem Move.notified (m : Move s act s') (hok : SubmitsOnce s act) (hw : Waiting s)
    (hp : Placed s pl) (h : Notified s) : Notified s' := by
  cases m with
  | refused _ => exact h.still rfl rfl fun _ _ => id
  | @submitted c k work done _ _ =>
    have hk : pl k = none := hp.pending hok
    refine ⟨fun d => ?_, fun d hd => ?_⟩
    · simp only [Function.update_apply]
      split
      · exact h.signaled c
      · exact h.signaled d
    · have hsame : ∀ {d}, (Function.update s.ctx c { s.ctx c with refs := (s.ctx c).refs + 1 } d) =
          { s.ctx d with refs := if d = c then (s.ctx d).refs + 1 else (s.ctx d).refs } := by
        intro d
        rw [Function.update_apply]
        split
        · rename_i hdc
          rw [hdc]
        · rfl
      simp only [hsame] at hd
      unfold Pool.Announced
      simp only [hsame]
      rcases h.announced d hd with hr | hd' | ⟨i, k', hi, hk'⟩
      · exact .inl hr
      · exact .inr (.inl hd')
      · -- a pushed task is not submitted
        have hne : k' ≠ k := by
          intro hkk
          rw [← hkk, hp.pushed i k' hi] at hk
          cases hk
        exact .inr (.inr ⟨i, k', hi, by rw [Function.update_of_ne hne]; exact hk'⟩)
  | enqueued _ _ hsig =>
    refine h.still rfl rfl fun i k hi => ?_
    rcases hsig with hsig | ⟨_, rfl⟩
    · exact hsig.get hi (by simp)
    · exact hi
  | slept hl _ _ | popNull hl _ _ _ | popped hl _ _ _ =>
    refine h.still rfl rfl fun i' k hi => ?_
    rcases hl.point with ⟨hb, _⟩ | ⟨hb, _⟩
    · exact pushed_keep hb (by simp) hi
    · exact pushed_keep hb (by simp) hi
  | exited hl _ hsig =>
    refine h.still rfl rfl fun i' k hi => ?_
    rcases hl.point with ⟨hb, _⟩ | ⟨hb, _⟩
    · exact pushed_keep (hsig.get hb (by decide)) (by simp) (hsig.get hi (by simp))
    · exact pushed_keep (hsig.get hb (by decide)) (by simp) (hsig.get hi (by simp))
  | called hb _ | skipped hb _ | returned hb | woke hb =>
    exact h.still rfl rfl fun i' k hi => pushed_keep hb (by simp) hi
  | @pushed i j k c x hb hf hc hx =>
    subst hx
    refine h.ctx rfl rfl (h.signaled c) (fun _ _ hi _ => pushed_keep hb (by simp) hi) fun _ => ?_
    exact .inr (.inr ⟨i, k, by simp [getElem?_set_of hb], hc.symm⟩)
  | @sent i j k c x hb hc hx =>
    subst hx
    -- `task_signaled` is never set, so the notification is sent
    have hx : (if (s.ctx c).taskSignaled then s.ctx c
        else { s.ctx c with notifier := (s.ctx c).notifier.send }) =
        { s.ctx c with notifier := (s.ctx c).notifier.send } := by
      rw [h.signaled c]
      rfl
    refine h.ctx rfl rfl (by rw [hx]; exact h.signaled c) (fun i' k' hi hne => ?_) fun _ => .inl ?_
    · rw [getElem?_set_of hb]
      split
      · rename_i hii
        rw [← hii, hb] at hi
        cases hi
        exact absurd hc.symm hne
      · exact hi
    · simp only [Function.update_self, hx]
      exact Notifier.send_readable _
  | @read c x n hx _ _ =>
    subst hx
    exact h.ctx rfl rfl (h.signaled c) (fun _ _ hi _ => hi) fun _ =>
      .inr (.inl ⟨(s.ctx c).drains, by simp only [Function.update_self]⟩)
  | @drained c x ds hx hf hd =>
    subst hx
    -- nothing finished is left
    exact h.ctx rfl rfl rfl (fun _ _ hi _ => hi) fun hne => absurd rfl hne
  | doneCalled hx hd _ | doneSkipped hx hd _ | doneReturned hx hd | drainReturned hx hd =>
    subst hx
    exact h.goOn rfl rfl rfl (by simp [hd])
  | readNothing _ | endedBefore _ | initBefore _ => exact h
  | ended _ _ _ hsig => exact h.still rfl rfl fun i k hi => hsig.get hi (by simp)
  | joined _ hex =>
    exact h.still rfl rfl fun i k hi => absurd (hex _ (List.mem_of_getElem? hi)) (by simp)
  | init _ _ => exact h.still rfl rfl fun _ _ => id
  | created hs =>
    have hnil : s.threads = [] := hw.no_threads (.inr hs)
    exact h.still rfl rfl fun i k hi => absurd hi (by simp [hnil])

theorem Run.notified (r : Run SubmitsOnce s) : Notified s := by
  refine r.invariant (fun s h => ?_) fun s a s' r h hok hs => ?_
  · refine ⟨fun c => ?_, fun c hc => ?_⟩
    · obtain ⟨n, _, hn⟩ := h.1 c
      rw [hn]
    · obtain ⟨n, _, hn⟩ := h.1 c
      rw [hn] at hc
      exact absurd rfl hc
  · obtain ⟨pl, hp⟩ := Run.placed r
    exact (step_move hs).notified hok (Run.waiting r) hp h

end

/-- **No lost completion.** While no worker is between the push and the notification, finished tasks
have a readable notifier or a loop that is about to drain them. -/
theorem no_lost_completion {s : Pool} (r : Run SubmitsOnce s) (hf : s.muxFree = true) (c : CtxId)
    (hc : (s.ctx c).finishedTasks ≠ []) :
    (s.ctx c).notifier.readable = true ∨ ∃ ds, (s.ctx c).drains = .signaled :: ds := by
  rcases (Run.notified r).announced c hc with hr | hd | ⟨i, k, hi, _⟩
  · exact .inl hr
  · exact .inr hd
  · simp only [Pool.muxFree, List.all_eq_true] at hf
    exact absurd (hf _ (List.mem_of_getElem? hi)) (by simp)

/-- A task is finished while the loop stands between the read and the drain for another one. -/
theorem no_lost_completion_two : ∃ s, Run SubmitsOnce s ∧ (s.ctx 0).finishedTasks = [7, 8] ∧
    ((s.ctx 0).notifier.readable = true ∨ ∃ ds, (s.ctx 0).drains = .signaled :: ds) := by
  have hplay : (Machine.play step SubmitsOnce start [.init 1, .create,
      .submit 0 7 true false, .enqueue 7 0, .submit 0 8 true true, .enqueue 8 0, .worker 0 0, .worker 0 0, .worker 0 0, .worker 0 0,
      .worker 0 0, .notifierIo 0, .worker 0 0, .worker 0 0, .worker 0 0, .worker 0 0,
      .worker 0 0]).map (fun s => ((s.ctx 0).finishedTasks, s.muxFree)) = some ([7, 8], true) := by
    rfl
  obtain ⟨s, hs, he⟩ := Option.map_eq_some_iff.mp hplay
  obtain ⟨hfin, hfree⟩ := Prod.mk.inj he
  have r : Run SubmitsOnce s := Machine.Reach.play (.init start_init) hs
  exact ⟨s, r, hfin, no_lost_completion r hfree 0 (by rw [hfin]; decide)⟩

end Pandio.Threadpool
