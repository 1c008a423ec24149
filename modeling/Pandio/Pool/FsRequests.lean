import Pandio.Pool.Fs
import Pandio.Pool.Shutdown

/- What becomes of the requests of fs_unix.c. A request is under way from the call that
   issues it to its callback, and `ctx->refs` counts it all that time; so when the loop
   returns, with `ctx->refs` 0, every request was called back, or the pool has refused
   it. The status of a callback is that of the system call made for that request.

   `ctx->refs` here is the pool's share of it: the loop returns only if that is 0 too. -/
namespace Pandio.Threadpool

/-! ## What is to become of a request -/

/-- The entries about a request of a context. -/
def FsObs.isAbout (k : TaskId) (c : CtxId) : FsObs → Bool
  | .issued k' c' _ | .performed k' c' _ | .called k' c' _ => k' = k ∧ c' = c

def fsEntries (k : TaskId) (c : CtxId) (log : List FsObs) : List FsObs :=
  log.filter (FsObs.isAbout k c)

/-- The status says whether the request could be performed. -/
def Tells (r : SysRes) (status : Int) : Prop :=
  match r with
  | .ok _ => status = 0
  | .err _ => status < 0

/-- A request that was served: whether the pool ran when it was issued, what became of it, and the
status of its callback. -/
structure ServedRequest where
  running : Bool
  res : SysRes
  status : Int
  tells : Tells res status

def ServedRequest.entries (k : TaskId) (c : CtxId) (v : ServedRequest) : List FsObs :=
  [.issued k c v.running, .performed k c v.res, .called k c v.status]

/-- Every request of the context was performed, or failed, and called back, once each time it was
issued, and no copy of a path made for one of them is left. -/
structure Served (s : Fs) (c : CtxId) : Prop where
  calls : ∀ k, ∃ past : List ServedRequest,
    fsEntries k c s.log = past.flatMap (ServedRequest.entries k c)
  copies : ∀ p x, s.copies p = some x → x.ctx ≠ c

/-! ## The invariant -/

/-- A request that is over: refused by the pool, or served. -/
def visit (k : TaskId) (c : CtxId) : Option ServedRequest → List FsObs
  | none => [.issued k c false]
  | some v => { v with running := true }.entries k c

/-- What the log has of the request that is under way. -/
inductive Begun (k : TaskId) (c : CtxId) : Option PdFs → Phase → List FsObs → Prop where
  | idle {o : Option PdFs} : Begun k c o .idle []
  | other {o : Option PdFs} {ph : Phase} : (∀ x, o = some x → x.ctx ≠ c) → Begun k c o ph []
  | before {x : PdFs} : x.ctx = c → Begun k c (some x) .before [.issued k c true]
  | after {x : PdFs} {r : SysRes} : x.ctx = c → Tells r x.status →
      Begun k c (some x) .after [.issued k c true, .performed k c r]

structure FsInv (s : Fs) (ph : TaskId → Phase) : Prop where
  entries : ∀ k c, ∃ (past : List (Option ServedRequest)) (now : List FsObs),
    fsEntries k c s.log = past.flatMap (visit k c) ++ now ∧ Begun k c (s.op k) (ph k) now
  task : ∀ k o, s.op k = some o → ph k ≠ .idle →
    s.pool.task k = ⟨o.ctx, true, true⟩ ∧ o.params ≠ .unknown
  /-- A copy belongs to a request before its work function, or is lost. -/
  copies : ∀ p x, s.copies p = some x →
    (∃ k o, s.op k = some o ∧ o.path = some p ∧ ph k = .before ∧ o.ctx = x.ctx) ∨
      ∃ k, .issued k x.ctx false ∈ s.log

section
variable {s s' : Fs} {ph ph' : TaskId → Phase} {k : TaskId} {c : CtxId} {o q : PdFs} {e : FsObs}
  {p p' : Pool} {pl : TaskId → Option Place} {a : Act}

theorem fsEntries_append (l m : List FsObs) :
    fsEntries k c (l ++ m) = fsEntries k c l ++ fsEntries k c m := List.filter_append ..

theorem Begun.none {ph : Phase} {now : List FsObs} (h : Begun k c none ph now) : now = [] := by
  cases h <;> rfl

theorem Begun.nil {o : Option PdFs} {now : List FsObs} (h : Begun k c o .idle now) : now = [] := by
  cases h <;> rfl

theorem Begun.elsewhere {ph : Phase} {now : List FsObs} (h : Begun k c (some o) ph now)
    (hc : o.ctx ≠ c) : now = [] := by
  cases h with
  | idle | other _ => rfl
  | before hx => exact absurd hx hc
  | after hx _ => exact absurd hx hc

/-- A step of the pool that no request takes part in. -/
theorem FsInv.quiet (h : FsInv s ph) (hphase : ∀ k o, s.op k = some o → ph' k = ph k)
    (htask : ∀ k o, s.op k = some o → p'.task k = s.pool.task k) : FsInv (s.setPool p') ph' := by
  refine ⟨fun k c => ?_, fun k o hk hne => ?_, fun p x hx => ?_⟩
  · obtain ⟨past, now, hlog, hnow⟩ := h.entries k c
    refine ⟨past, now, hlog, ?_⟩
    show Begun k c (s.op k) (ph' k) now
    cases hk : s.op k with
    | none =>
      rw [hk] at hnow
      rw [hnow.none]
      exact .other (by simp)
    | some o =>
      rw [hphase k o hk, ← hk]
      exact hnow
  · rw [hphase k o hk] at hne
    rw [show (s.setPool p').pool.task k = s.pool.task k from htask k o hk]
    exact h.task k o hk hne
  · rcases h.copies p x hx with ⟨k, o, hk, hpath, hbefore, hctx⟩ | hlost
    · exact .inl ⟨k, o, hk, hpath, (hphase k o hk).trans hbefore, hctx⟩
    · exact .inr hlost

/-- A step that one request takes part in. -/
theorem FsInv.carry (h : FsInv s ph) (hk : s.op k = some o)
    (hop : s'.op = Function.update s.op k (some q)) (hctx : q.ctx = o.ctx)
    (hlog : s'.log = s.log ++ [e])
    (habout : ∀ k' c', e.isAbout k' c' = true → k' = k ∧ c' = o.ctx)
    (hother : ∀ k', k' ≠ k → ∀ x, s.op k' = some x →
      ph' k' = ph k' ∧ s'.pool.task k' = s.pool.task k')
    (hself : ph' k ≠ .idle → s'.pool.task k = ⟨q.ctx, true, true⟩ ∧ q.params ≠ .unknown)
    (htrace : ∀ now, Begun k o.ctx (some o) (ph k) now →
      ∃ (past' : List (Option ServedRequest)) (now' : List FsObs),
        now ++ [e] = past'.flatMap (visit k o.ctx) ++ now' ∧ Begun k o.ctx (some q) (ph' k) now')
    (hcopies : ∀ p x, s'.copies p = some x →
      (∃ k o, s'.op k = some o ∧ o.path = some p ∧ ph' k = .before ∧ o.ctx = x.ctx) ∨
        ∃ k, .issued k x.ctx false ∈ s'.log)
    (hmine : e.isAbout k o.ctx = true) : FsInv s' ph' := by
  refine ⟨fun k' c' => ?_, fun k' x hx hne => ?_, hcopies⟩
  · obtain ⟨past, now, hentries, hnow⟩ := h.entries k' c'
    rw [hlog, fsEntries_append, hentries, hop]
    by_cases hk' : k' = k
    · subst hk'
      rw [Function.update_self]
      by_cases hc' : c' = o.ctx
      · subst hc'
        rw [hk] at hnow
        obtain ⟨past', now', hsplit, hnow'⟩ := htrace now hnow
        have he : fsEntries k' o.ctx [e] = [e] := by simp [fsEntries, hmine]
        refine ⟨past ++ past', now', ?_, hnow'⟩
        rw [he, List.append_assoc, hsplit, List.flatMap_append, List.append_assoc]
      · have he : fsEntries k' c' [e] = [] := by
          simp only [fsEntries, List.filter_eq_nil_iff, List.mem_singleton]
          rintro _ rfl hab
          exact hc' (habout _ _ hab).2
        rw [hk] at hnow
        have hnil := hnow.elsewhere (Ne.symm hc')
        refine ⟨past, [], by rw [he, hnil]; simp, .other ?_⟩
        intro x hx
        cases hx
        rw [hctx]
        exact Ne.symm hc'
    · rw [Function.update_of_ne hk']
      have he : fsEntries k' c' [e] = [] := by
        simp only [fsEntries, List.filter_eq_nil_iff, List.mem_singleton]
        rintro _ rfl hab
        exact hk' (habout _ _ hab).1
      refine ⟨past, now, by rw [he, List.append_nil], ?_⟩
      cases hx : s.op k' with
      | none =>
        rw [hx] at hnow
        rw [hnow.none]
        exact .other (by simp)
      | some x =>
        rw [(hother k' hk' x hx).1, ← hx]
        exact hnow
  · rw [hop] at hx
    by_cases hk' : k' = k
    · subst hk'
      rw [Function.update_self] at hx
      cases hx
      exact hself hne
    · rw [Function.update_of_ne hk'] at hx
      obtain ⟨hph, htask⟩ := hother k' hk' x hx
      rw [htask]
      exact h.task k' x hx (hph ▸ hne)

end

/-! ## The steps -/

/-- The fields of a task are set by `pd_task_submit` alone. -/
theorem Move.task {s s' : Pool} {a : Act} (m : Move s a s') (k : TaskId)
    (h : ∀ c w d, a ≠ .submit c k w d) : s'.task k = s.task k := by
  cases m with
  | @submitted c k' work done _ _ =>
    have hk : k ≠ k' := fun hk => h c work done (by rw [hk])
    exact Function.update_of_ne hk ..
  | _ => rfl

section
variable {s s' : Fs} {ph ph' : TaskId → Phase} {k : TaskId} {c : CtxId} {o o' : PdFs}
  {pl : TaskId → Option Place}

/-- The invariant, with the phases of the places. -/
def FsPlaced (s : Fs) : Prop :=
  ∃ pl, Placed s.pool pl ∧ FsInv s fun k => phaseOf (pl k)

/-- A request that is not under way is initialised. -/
theorem FsInv.reset (h : FsInv s ph) (hidle : ph k = .idle) : FsInv (s.setOp k o) ph := by
  refine ⟨fun k' c => ?_, fun k' x hx hne => ?_, fun p x hx => ?_⟩
  · obtain ⟨past, now, hlog, hnow⟩ := h.entries k' c
    refine ⟨past, now, hlog, ?_⟩
    by_cases hk : k' = k
    · subst hk
      rw [hidle] at hnow ⊢
      rw [hnow.nil]
      exact .idle
    · show Begun k' c (Function.update s.op k (some o) k') (ph k') now
      rw [Function.update_of_ne hk]
      exact hnow
  · have hk : k' ≠ k := fun hk => hne (hk ▸ hidle)
    have hx : Function.update s.op k (some o) k' = some x := hx
    rw [Function.update_of_ne hk] at hx
    exact h.task k' x hx hne
  · rcases h.copies p x hx with ⟨k', o', hk', hpath, hbefore, hctx⟩ | hlost
    · have hne : k' ≠ k := by
        rintro rfl
        rw [hidle] at hbefore
        cases hbefore
      refine .inl ⟨k', o', ?_, hpath, hbefore, hctx⟩
      show Function.update s.op k (some o) k' = some o'
      rw [Function.update_of_ne hne]
      exact hk'
    · exact .inr hlost

/-- Whatever is called, a task is submitted, and memory for a path is taken if need be. -/
theorem fsIssue_submits {q : FsCall} (h : fsIssue s k o q = some s') : ∃ p x params,
    s' = fsSubmit (s.strdup p x) k o params ∧ x.ctx = o.ctx ∧ params ≠ .unknown ∧
      ({ o with params := params } : PdFs).path = p ∧ ∀ q, p = some q → s.copies q = none := by
  cases q with
  | «open» path p oflag mode =>
    simp only [fsIssue] at h
    split at h
    · rename_i hfree
      cases h
      refine ⟨p, _, _, rfl, rfl, by simp, rfl, ?_⟩
      rintro q rfl
      simpa using hfree
    · cases h
  | read | write | stat | close =>
    cases h
    exact ⟨none, ⟨"", o.ctx⟩, _, rfl, rfl, by simp, rfl, by simp⟩

theorem FsInv.issue {p : Option Ptr} {x : PathCopy} {params : FsParams} (h : FsInv s ph)
    (hk : s.op k = some o) (hidle : ph k = .idle) (hx : x.ctx = o.ctx) (hparams : params ≠ .unknown)
    (hpath : ({ o with params := params } : PdFs).path = p)
    (hphase : ∀ k', ph' k' = s.pool.phaseAfter k' (ph k') (.submit o.ctx k true true)) :
    FsInv (fsSubmit (s.strdup p x) k o params) ph' := by
  have hsame : (s.strdup p x).op = s.op ∧ (s.strdup p x).log = s.log ∧
      (s.strdup p x).pool = s.pool := by cases p <;> exact ⟨rfl, rfl, rfl⟩
  have hother : ∀ k', k' ≠ k → ph' k' = ph k' := by
    intro k' hk'
    rw [hphase]
    simp [Pool.phaseAfter, Ne.symm hk']
  -- a pool that is not running refuses the task
  have hself : ph' k = if s.pool.running = true then .before else .idle := by
    rw [hphase, hidle]
    simp only [Pool.phaseAfter, Pool.running, true_and]
    congr 1
    simp [and_comm]
  refine FsInv.carry (q := { o with params := params }) (e := .issued k o.ctx s.pool.running)
    (s := s) h hk ?_ rfl ?_ ?_ ?_ ?_ ?_ ?_ (by simp [FsObs.isAbout])
  · show Function.update (s.strdup p x).op k _ = _
    rw [hsame.1]
  · show (s.strdup p x).log ++ [.issued k o.ctx (s.strdup p x).pool.running] = _
    rw [hsame.2.1, hsame.2.2]
  · intro k' c' he
    simp only [FsObs.isAbout, decide_eq_true_eq] at he
    exact ⟨he.1.symm, he.2.symm⟩
  · intro k' hk' y _
    refine ⟨hother k' hk', ?_⟩
    show (pdTaskSubmit (s.strdup p x).pool o.ctx k true true).task k' = _
    rw [hsame.2.2]
    exact (step_move (s := s.pool) (a := .submit o.ctx k true true) rfl).task k' (by
      intro _ _ _ hsub
      cases hsub
      exact hk' rfl)
  · intro hne
    rw [hself] at hne
    have hrun : s.pool.running = true := by
      by_contra hrun
      simp [hrun] at hne
    refine ⟨?_, hparams⟩
    show (pdTaskSubmit (s.strdup p x).pool o.ctx k true true).task k = _
    rw [hsame.2.2]
    simp only [Pool.running, Bool.and_eq_true, decide_eq_true_eq, Bool.not_eq_true'] at hrun
    simp [pdTaskSubmit, hrun.1, hrun.2, Pool.setSubmitting, Pool.setCtx, Pool.setTask]
  · intro now hnow
    rw [hidle] at hnow
    rw [hnow.nil]
    cases hrun : s.pool.running with
    | false =>
      refine ⟨[none], [], rfl, ?_⟩
      rw [hself, hrun]
      exact .idle
    | true =>
      refine ⟨[], [.issued k o.ctx true], rfl, ?_⟩
      rw [hself, hrun]
      exact .before rfl
  · intro q y hy
    show (∃ k' o', Function.update (s.strdup p x).op k _ k' = some o' ∧ _) ∨
      ∃ k', _ ∈ (s.strdup p x).log ++ [.issued k o.ctx (s.strdup p x).pool.running]
    rw [hsame.1, hsame.2.1, hsame.2.2]
    -- a copy from before is still a request's, or lost
    have old : s.copies q = some y →
        (∃ k' o', Function.update s.op k (some { o with params := params }) k' = some o' ∧
          o'.path = some q ∧ ph' k' = .before ∧ o'.ctx = y.ctx) ∨
        ∃ k', .issued k' y.ctx false ∈ s.log ++ [.issued k o.ctx s.pool.running] := by
      intro hold
      rcases h.copies q y hold with ⟨k', o', hk', hpath', hbefore, hctx⟩ | ⟨k', hlost⟩
      · have hne : k' ≠ k := by
          rintro rfl
          rw [hidle] at hbefore
          cases hbefore
        exact .inl ⟨k', o', by rw [Function.update_of_ne hne]; exact hk', hpath',
          (hother k' hne).trans hbefore, hctx⟩
      · exact .inr ⟨k', List.mem_append_left _ hlost⟩
    cases p with
    | none => exact old hy
    | some p =>
      by_cases hq : q = p
      · subst hq
        have hy : Function.update s.copies q (some x) q = some y := hy
        rw [Function.update_self] at hy
        cases hy
        cases hrun : s.pool.running with
        | false => exact .inr ⟨k, by rw [hx]; simp⟩
        | true =>
          refine .inl ⟨k, _, Function.update_self .., hpath, ?_, hx.symm⟩
          rw [hself, hrun]
          rfl
      · have hy : Function.update s.copies p (some x) q = some y := hy
        rw [Function.update_of_ne hq] at hy
        exact old hy

/-- The status after the system call tells how it went. -/
theorem work_tells {r : SysCall} (hp : o.params ≠ .unknown) : Tells r.res (o.work r.res).status := by
  have hstatus : (o.work r.res).status = fsStatus r.res := by
    unfold PdFs.work pdFsOpenWork pdFsWriteWork pdFsReadWork pdFsStatWork pdFsCloseWork
    split
    · rename_i h
      exact absurd h hp
    · rfl
    all_goals (try split) <;> simp_all
  rw [hstatus]
  cases hr : r.res with
  | ok n => rfl
  | err e =>
    have he := r.errno_pos e hr
    show -(e : Int) < 0
    omega

theorem work_ctx {r : SysRes} : (o.work r).ctx = o.ctx := by
  unfold PdFs.work pdFsOpenWork pdFsWriteWork pdFsReadWork pdFsStatWork pdFsCloseWork
  split <;> (try split) <;> rfl

theorem work_params {r : SysRes} (hp : o.params ≠ .unknown) : (o.work r).params ≠ .unknown := by
  unfold PdFs.work pdFsOpenWork pdFsWriteWork pdFsReadWork pdFsStatWork pdFsCloseWork
  split <;> (try split) <;> simp_all

/-- A work function returns. -/
theorem FsInv.work {r : SysCall} {p' : Pool} (h : FsInv s ph) (hk : s.op k = some o)
    (hbefore : ph k = .before) (hafter : ph' k = .after)
    (hother : ∀ k', k' ≠ k → ph' k' = ph k') (htask : p'.task = s.pool.task) :
    FsInv ((fsWork s k o r.res).setPool p') ph' := by
  obtain ⟨hset, hparams⟩ := h.task k o hk (by rw [hbefore]; simp)
  have hfree : (s.free o.path).op = s.op ∧ (s.free o.path).log = s.log := by
    unfold Fs.free
    split <;> exact ⟨rfl, rfl⟩
  refine FsInv.carry (q := o.work r.res) (e := .performed k o.ctx r.res) h hk ?_ work_ctx ?_ ?_ ?_ ?_
    ?_ ?_ (by simp [FsObs.isAbout])
  · show Function.update (s.free o.path).op k _ = _
    rw [hfree.1]
  · show (s.free o.path).log ++ _ = _
    rw [hfree.2]
  · intro k' c' he
    simp only [FsObs.isAbout, decide_eq_true_eq] at he
    exact ⟨he.1.symm, he.2.symm⟩
  · intro k' hk' x _
    exact ⟨hother k' hk', congrFun htask k'⟩
  · intro _
    rw [work_ctx]
    exact ⟨(congrFun htask k).trans hset, work_params hparams⟩
  · intro now hnow
    rw [hbefore] at hnow
    have hnow : now = [.issued k o.ctx true] := by
      cases hnow with
      | other hx => exact absurd rfl (hx o rfl)
      | before _ => rfl
    refine ⟨[], [.issued k o.ctx true, .performed k o.ctx r.res], by rw [hnow]; rfl, ?_⟩
    rw [hafter]
    exact .after work_ctx (work_tells hparams)
  · intro p x hx
    have hx : (s.free o.path).copies p = some x := hx
    have hold : s.copies p = some x ∧ o.path ≠ some p := by
      cases hpath : o.path with
      | none =>
        rw [hpath] at hx
        exact ⟨hx, by simp⟩
      | some q =>
        rw [hpath] at hx
        have hx : Function.update s.copies q none p = some x := hx
        by_cases hq : p = q
        · rw [hq, Function.update_self] at hx
          cases hx
        · rw [Function.update_of_ne hq] at hx
          exact ⟨hx, fun h => hq (Option.some.inj h).symm⟩
    show (∃ k' o', Function.update (s.free o.path).op k _ k' = some o' ∧ _) ∨
      ∃ k', _ ∈ (s.free o.path).log ++ _
    rw [hfree.1, hfree.2]
    rcases h.copies p x hold.1 with ⟨k', o', hk', hpath', hb, hctx⟩ | ⟨k', hlost⟩
    · have hne : k' ≠ k := by
        rintro rfl
        rw [hk] at hk'
        cases hk'
        exact hold.2 hpath'
      exact .inl ⟨k', o', by rw [Function.update_of_ne hne]; exact hk', hpath',
        (hother k' hne).trans hb, hctx⟩
    · exact .inr ⟨k', List.mem_append_left _ hlost⟩

/-- The callback of a request is called. -/
theorem FsInv.done {p' : Pool} (h : FsInv s ph) (hk : s.op k = some o) (hafter : ph k = .after)
    (hidle : ph' k = .idle) (hother : ∀ k', k' ≠ k → ph' k' = ph k')
    (htask : p'.task = s.pool.task) :
    FsInv ((s.logObs (.called k o.ctx o.status)).setPool p') ph' := by
  refine FsInv.carry (q := o) (e := .called k o.ctx o.status) h hk ?_ rfl rfl ?_ ?_ ?_ ?_ ?_
    (by simp [FsObs.isAbout])
  · show s.op = _
    rw [← hk, Function.update_eq_self]
  · intro k' c' he
    simp only [FsObs.isAbout, decide_eq_true_eq] at he
    exact ⟨he.1.symm, he.2.symm⟩
  · intro k' hk' x _
    exact ⟨hother k' hk', congrFun htask k'⟩
  · exact fun hne => absurd hidle hne
  · intro now hnow
    rw [hafter] at hnow
    obtain ⟨r, htells, hnow⟩ : ∃ r, Tells r o.status ∧
        now = [.issued k o.ctx true, .performed k o.ctx r] := by
      cases hnow with
      | other hx => exact absurd rfl (hx o rfl)
      | after _ htells => exact ⟨_, htells, rfl⟩
    refine ⟨[some ⟨true, r, o.status, htells⟩], [], by rw [hnow]; rfl, ?_⟩
    rw [hidle]
    exact .idle
  · intro p x hx
    rcases h.copies p x hx with ⟨k', o', hk', hpath', hb, hctx⟩ | ⟨k', hlost⟩
    · have hne : k' ≠ k := by
        rintro rfl
        rw [hafter] at hb
        cases hb
      exact .inl ⟨k', o', hk', hpath', (hother k' hne).trans hb, hctx⟩
    · exact .inr ⟨k', List.mem_append_left _ hlost⟩

/-- The worker in the work function of a request. -/
theorem working_eq {i : Wid} (h : s.working i = some (k, o)) :
    s.pool.threads[i]? = some (.working k) ∧ s.op k = some o := by
  unfold Fs.working at h
  split at h
  · rename_i k' hk'
    obtain ⟨o', ho', heq⟩ := Option.map_eq_some_iff.mp h
    cases heq
    exact ⟨hk', ho'⟩
  · cases h

/-- The loop about to call the callback of a request. -/
theorem finishing_eq (h : s.finishing c = some (k, o)) :
    (∃ q ds, (s.pool.ctx c).drains = .tasksDone (k :: q) false :: ds) ∧ s.op k = some o := by
  unfold Fs.finishing at h
  split at h
  · rename_i k' q ds hd
    split at h
    · obtain ⟨o', ho', heq⟩ := Option.map_eq_some_iff.mp h
      cases heq
      exact ⟨⟨q, ds, hd⟩, ho'⟩
    · cases h
  · cases h

/-- In a step that is no part of a request, no request goes on. -/
theorem phaseAfter_quiet {i j : Wid} (h : Placed s.pool pl) (inv : FsInv s fun k => phaseOf (pl k))
    (hw : s.working i = none) (hk : s.op k = some o) :
    s.pool.phaseAfter k (phaseOf (pl k)) (.worker i j) = phaseOf (pl k) := by
  simp only [Pool.phaseAfter]
  split
  · rename_i k' hk'
    split
    · -- a request has a work function
      rename_i hskip
      obtain ⟨rfl, hwork⟩ := hskip
      have hpl : pl k' = some (.hands i .taken) := h.holds.mem.mp (by simp [Pool.content, hk', held])
      have := (inv.task k' o hk (by rw [hpl]; simp [phaseOf])).1
      rw [this] at hwork
      cases hwork
    · rfl
  · rename_i k' hk'
    split
    · rename_i hkk
      subst hkk
      simp [Fs.working, hk', hk] at hw
    · rfl
  · rfl

theorem phaseAfter_quiet_done (h : Placed s.pool pl) (inv : FsInv s fun k => phaseOf (pl k))
    (hd : s.finishing c = none) (hk : s.op k = some o) :
    s.pool.phaseAfter k (phaseOf (pl k)) (.taskDone c) = phaseOf (pl k) := by
  simp only [Pool.phaseAfter]
  split
  · rename_i k' q ds hdrains
    split
    · -- a request has a done callback
      rename_i hkk
      subst hkk
      have hpl : pl k' = some (.tasksDone c) :=
        h.holds.mem.mp (by simp [Pool.content, hdrains, Drain.queue])
      have hset := (inv.task k' o hk (by rw [hpl]; simp [phaseOf])).1
      simp [Fs.finishing, hdrains, hset, hk] at hd
    · rfl
  · rfl

theorem FsPlaced.step {x : FsAct} (h : FsPlaced s) (r : Run SubmitsOnce s.pool)
    (hok : IssuesOnce s x) (hs : fsStep s x = some s') : FsPlaced s' := by
  obtain ⟨pl, hplaced, inv⟩ := h
  have move : ∀ {a p'}, SubmitsOnce s.pool a → Threadpool.step s.pool a = some p' →
      ∃ pl', Placed p' pl' ∧
        ∀ k, phaseOf (pl' k) = s.pool.phaseAfter k (phaseOf (pl k)) a := fun ha hp =>
    (step_move hp).placed ha (Run.waiting r) (Run.counted r) hplaced
  -- a step of the pool in which no request goes on
  have quiet : ∀ {a p'}, SubmitsOnce s.pool a → Threadpool.step s.pool a = some p' →
      (∀ k o, s.op k = some o → ∀ c w d, a ≠ .submit c k w d) →
      (∀ k o, s.op k = some o → s.pool.phaseAfter k (phaseOf (pl k)) a = phaseOf (pl k)) →
      FsPlaced (s.setPool p') := by
    intro a p' ha hp hsub hphase
    obtain ⟨pl', hplaced', hpl'⟩ := move ha hp
    refine ⟨pl', hplaced', inv.quiet (fun k o hk => ?_) fun k o hk => ?_⟩
    · exact (hpl' k).trans (hphase k o hk)
    · exact (step_move hp).task k (hsub k o hk)
  cases x with
  | init c k =>
    cases hs
    refine ⟨pl, hplaced, inv.reset ?_⟩
    rw [hplaced.pending hok]
    rfl
  | issue k q =>
    obtain ⟨o, hk, hs⟩ := Option.bind_eq_some_iff.mp hs
    obtain ⟨p, x, params, rfl, hx, hparams, hpath, _⟩ := fsIssue_submits hs
    have hpool : (s.strdup p x).pool = s.pool := by cases p <;> rfl
    obtain ⟨pl', hplaced', hpl'⟩ := move (a := .submit o.ctx k true true) hok rfl
    refine ⟨pl', ?_, inv.issue hk ?_ hx hparams hpath hpl'⟩
    · show Placed (pdTaskSubmit (s.strdup p x).pool o.ctx k true true) pl'
      rw [hpool]
      exact hplaced'
    · rw [hplaced.pending hok]
      rfl
  | pool a c =>
    have hok : SubmitsOnce s.pool a := hok
    cases a with
    | submit c k w d =>
      simp only [fsStep, fsPoolStep] at hs
      split at hs
      · rename_i hnone
        obtain ⟨p', hp, rfl⟩ := Option.map_eq_some_iff.mp hs
        -- a task of the application is not a request
        have hne : ∀ k' o, s.op k' = some o → k' ≠ k := by
          rintro k' o hk' rfl
          rw [hk'] at hnone
          cases hnone
        refine quiet hok hp (fun k' o hk' _ _ _ hsub => ?_) fun k' o hk' => ?_
        · cases hsub
          exact hne _ o hk' rfl
        · simp [Pool.phaseAfter, Ne.symm (hne k' o hk')]
      · cases hs
    | worker i j =>
      simp only [fsStep, fsPoolStep] at hs
      split at hs
      · rename_i k o hw
        obtain ⟨hthread, hk⟩ := working_eq hw
        split at hs
        · cases hs
          exact ⟨pl, hplaced, inv⟩
        · obtain ⟨p', hp, rfl⟩ := Option.map_eq_some_iff.mp hs
          obtain ⟨pl', hplaced', hpl'⟩ := move hok hp
          have hpl : pl k = some (.hands i .working) :=
            hplaced.holds.mem.mp (by simp [Pool.content, hthread, held])
          refine ⟨pl', hplaced', inv.work hk (by rw [hpl]; rfl) ?_ (fun k' hk' => ?_) ?_⟩
          · rw [hpl']
            simp [Pool.phaseAfter, hthread]
          · rw [hpl']
            simp [Pool.phaseAfter, hthread, Ne.symm hk']
          · exact funext fun k' => (step_move hp).task k' (by simp)
      · rename_i hw
        obtain ⟨p', hp, rfl⟩ := Option.map_eq_some_iff.mp hs
        exact quiet hok hp (by simp) fun k o hk => phaseAfter_quiet hplaced inv hw hk
    | taskDone d =>
      simp only [fsStep, fsPoolStep] at hs
      split at hs
      · rename_i k o hf
        obtain ⟨⟨q, ds, hd⟩, hk⟩ := finishing_eq hf
        obtain ⟨p', hp, rfl⟩ := Option.map_eq_some_iff.mp hs
        obtain ⟨pl', hplaced', hpl'⟩ := move hok hp
        have hpl : pl k = some (.tasksDone d) :=
          hplaced.holds.mem.mp (by simp [Pool.content, hd, Drain.queue])
        refine ⟨pl', hplaced', inv.done hk (by rw [hpl]; rfl) ?_ (fun k' hk' => ?_) ?_⟩
        · rw [hpl']
          simp [Pool.phaseAfter, hd]
        · rw [hpl']
          simp [Pool.phaseAfter, hd, Ne.symm hk']
        · exact funext fun k' => (step_move hp).task k' (by simp)
      · rename_i hf
        obtain ⟨p', hp, rfl⟩ := Option.map_eq_some_iff.mp hs
        exact quiet hok hp (by simp) fun k o hk => phaseAfter_quiet_done hplaced inv hf hk
    | enqueue | spurious | notifierIo | threadpoolEnd | join | init | create =>
      simp only [fsStep, fsPoolStep] at hs
      obtain ⟨p', hp, rfl⟩ := Option.map_eq_some_iff.mp hs
      exact quiet hok hp (by simp) fun _ _ _ => rfl

end

/-! ## Runs -/

section
variable {s s' : Fs} {k : TaskId} {c : CtxId}

/-- A step is a step of the pool, or none. -/
theorem fsStep_pool {x : FsAct} (hok : IssuesOnce s x) (hs : fsStep s x = some s') :
    s'.pool = s.pool ∨ ∃ a, SubmitsOnce s.pool a ∧ step s.pool a = some s'.pool := by
  have pool : ∀ {a} {g : Pool → Fs}, (∀ p, (g p).pool = p) → SubmitsOnce s.pool a →
      (step s.pool a).map g = some s' →
      s'.pool = s.pool ∨ ∃ a, SubmitsOnce s.pool a ∧ step s.pool a = some s'.pool := by
    intro a g hg ha hs
    obtain ⟨p', hp, rfl⟩ := Option.map_eq_some_iff.mp hs
    exact .inr ⟨a, ha, by rw [hg]; exact hp⟩
  cases x with
  | init c k =>
    cases hs
    exact .inl rfl
  | issue k q =>
    obtain ⟨o, _, hs⟩ := Option.bind_eq_some_iff.mp hs
    obtain ⟨p, x, params, rfl, _⟩ := fsIssue_submits hs
    refine .inr ⟨.submit o.ctx k true true, hok, ?_⟩
    have hpool : (s.strdup p x).pool = s.pool := by cases p <;> rfl
    show some (pdTaskSubmit s.pool o.ctx k true true) =
      some (pdTaskSubmit (s.strdup p x).pool o.ctx k true true)
    rw [hpool]
  | pool a r =>
    have hok : SubmitsOnce s.pool a := hok
    cases a with
    | submit | worker | taskDone =>
      simp only [fsStep, fsPoolStep] at hs
      split at hs
      · first
        | exact pool (fun _ => rfl) hok hs
        | split at hs
          · cases hs
            exact .inl rfl
          · exact pool (fun _ => rfl) hok hs
      · first
        | exact pool (fun _ => rfl) hok hs
        | cases hs
    | enqueue | spurious | notifierIo | threadpoolEnd | join | init | create =>
      simp only [fsStep, fsPoolStep] at hs
      exact pool (fun _ => rfl) hok hs

theorem FsRun.inv (r : FsRun s) : Run SubmitsOnce s.pool ∧ FsPlaced s := by
  refine Machine.Reach.invariant (P := fun s => Run SubmitsOnce s.pool ∧ FsPlaced s) ?_ ?_ r
  · rintro s ⟨hinit, hs⟩
    have hrun : Run SubmitsOnce s.pool := .init hinit
    obtain ⟨pl, hplaced⟩ := Run.placed hrun
    refine ⟨hrun, pl, hplaced, fun k c => ⟨[], [], ?_, .other ?_⟩, ?_, ?_⟩
    · rw [hs]
      rfl
    · rw [hs]
      simp
    · rw [hs]
      simp
    · rw [hs]
      simp
  · intro s x s' _ ih hok hs
    refine ⟨?_, ih.2.step ih.1 hok hs⟩
    rcases fsStep_pool hok hs with he | ⟨a, ha, hp⟩
    · rw [he]
      exact ih.1
    · exact ih.1.step ha hp

/-- The task in the hands of a worker. -/
theorem handOf_held {task : TaskId → PdTask} {st : Stage} {b : Point} (h : k ∈ held st (some b)) :
    handOf task c b = decide ((task k).ctx = c) := by
  cases b with
  | taken k' | working k' | worked k' =>
    simp only [held] at h
    split at h
    · obtain rfl := List.mem_singleton.mp h
      rfl
    · cases h
  | _ => cases h

/-- Where the pool holds no reference to a context, none of its tasks is anywhere. -/
theorem Placed.nowhere {s : Pool} {pl : TaskId → Option Place} (h : Placed s pl)
    (hrefs : RefsCounted s) (h0 : (s.ctx c).refs = 0) (hk : (s.task k).ctx = c) : pl k = none := by
  have hshare := hrefs c
  rw [h0, Pool.share] at hshare
  have hsub : s.submitting.countP (fun k => (s.task k).ctx = c) = 0 := by omega
  have htasks : s.tasks.countP (fun k => (s.task k).ctx = c) = 0 := by omega
  have hhands : s.threads.countP (handOf s.task c) = 0 := by omega
  have hfin : (s.ctx c).finishedTasks.length = 0 := by omega
  have hdrains : ((s.ctx c).drains.map Drain.refs).sum = 0 := by omega
  cases hp : pl k with
  | none => rfl
  | some x =>
    have hm : k ∈ s.content x := h.holds.mem.mpr hp
    cases x with
    | call =>
      rw [List.countP_eq_zero] at hsub
      exact absurd hk (by simpa using hsub k hm)
    | queue =>
      rw [List.countP_eq_zero] at htasks
      exact absurd hk (by simpa using htasks k hm)
    | hands i st =>
      rw [List.countP_eq_zero] at hhands
      simp only [Pool.content] at hm
      cases hi : s.threads[i]? with
      | none =>
        rw [hi] at hm
        cases hm
      | some b =>
        rw [hi] at hm
        refine absurd ?_ (hhands b (List.mem_of_getElem? hi))
        rw [handOf_held hm, hk, decide_eq_true_eq]
    | finished d =>
      have hd := h.own k d (.inl hp)
      rw [hd, hk] at hm
      rw [List.length_eq_zero_iff] at hfin
      simp [Pool.content, hfin] at hm
    | tasksDone d =>
      have hd := h.own k d (.inr hp)
      rw [hd, hk] at hm
      obtain ⟨q, hq, hkq⟩ := List.mem_flatMap.mp hm
      have hzero : q.refs = 0 := by
        have := List.le_sum_of_mem (List.mem_map_of_mem (f := Drain.refs) hq)
        omega
      cases q with
      | signaled => cases hkq
      | tasksDone l inDone =>
        have hl : l.length = 0 := by
          rw [Drain.refs] at hzero
          omega
        rw [List.length_eq_zero_iff.mp hl] at hkq
        cases hkq

/-- How often the requests of these entries were issued, and called back. -/
def issues (l : List FsObs) : Nat := l.countP fun o => match o with | .issued .. => true | _ => false

def callbacks (l : List FsObs) : Nat := l.countP fun o => match o with | .called .. => true | _ => false

theorem count_served (past : List ServedRequest) :
    issues (past.flatMap (ServedRequest.entries k c)) =
      callbacks (past.flatMap (ServedRequest.entries k c)) := by
  induction past with
  | nil => rfl
  | cons v past ih =>
    rw [List.flatMap_cons]
    simp only [issues, callbacks, List.countP_append] at ih ⊢
    rw [ih]
    rfl

theorem count_visits (past : List (Option ServedRequest)) :
    issues (past.flatMap (visit k c)) =
      callbacks (past.flatMap (visit k c)) + past.countP Option.isNone := by
  induction past with
  | nil => rfl
  | cons v past ih =>
    rw [List.flatMap_cons]
    simp only [issues, callbacks, List.countP_append, List.countP_cons] at ih ⊢
    rw [ih]
    cases v <;> simp [visit, ServedRequest.entries] <;> omega

theorem mem_visits (past : List (Option ServedRequest)) :
    .issued k c false ∈ past.flatMap (visit k c) ↔ none ∈ past := by
  rw [List.mem_flatMap]
  constructor
  · rintro ⟨v, hv, hm⟩
    cases v with
    | none => exact hv
    | some v => simp [visit, ServedRequest.entries] at hm
  · exact fun h => ⟨none, h, by simp [visit]⟩

/-- With no request refused, what is over was served. -/
theorem visits_served {past : List (Option ServedRequest)} (h : none ∉ past) :
    ∃ served : List ServedRequest,
      past.flatMap (visit k c) = served.flatMap (ServedRequest.entries k c) := by
  induction past with
  | nil => exact ⟨[], rfl⟩
  | cons v past ih =>
    obtain ⟨served, hs⟩ := ih fun hm => h (List.mem_cons_of_mem _ hm)
    cases v with
    | none => exact absurd List.mem_cons_self h
    | some v => exact ⟨{ v with running := true } :: served, by rw [List.flatMap_cons, hs]; rfl⟩

/-- When the loop of a context returns, none of its requests is under way. -/
theorem FsRun.over (r : FsRun s) (h0 : (s.pool.ctx c).refs = 0) (k : TaskId) :
    ∃ past : List (Option ServedRequest), fsEntries k c s.log = past.flatMap (visit k c) := by
  obtain ⟨hrun, pl, hplaced, inv⟩ := r.inv
  obtain ⟨past, now, hlog, hnow⟩ := inv.entries k c
  refine ⟨past, ?_⟩
  have hnil : now = [] := by
    cases hk : s.op k with
    | none =>
      rw [hk] at hnow
      exact hnow.none
    | some o =>
      by_cases hc : o.ctx = c
      · have hidle : phaseOf (pl k) = .idle := by
          by_contra hne
          have htask := (inv.task k o hk hne).1
          have := hplaced.nowhere (Run.refsCounted hrun) h0 (k := k) (by rw [htask]; exact hc)
          rw [this] at hne
          exact hne rfl
        simp only [hidle] at hnow
        exact hnow.nil
      · rw [hk] at hnow
        exact hnow.elsewhere hc
  rw [hlog, hnil, List.append_nil]

/-- **When `pd_io_run` returns, every request of the context was called back once and no path is left,
exactly if all were issued while the pool ran.** -/
theorem fs_served_iff (r : FsRun s) (h0 : (s.pool.ctx c).refs = 0) :
    Served s c ↔ ∀ k, .issued k c false ∉ s.log := by
  constructor
  · intro hserved k hm
    obtain ⟨past, hlog⟩ := r.over h0 k
    obtain ⟨served, hlog'⟩ := hserved.calls k
    have hm : .issued k c false ∈ fsEntries k c s.log :=
      List.mem_filter.mpr ⟨hm, by simp [FsObs.isAbout]⟩
    rw [hlog, mem_visits] at hm
    have hcount := count_visits (k := k) (c := c) past
    rw [← hlog, hlog', count_served] at hcount
    have hpos : 0 < past.countP Option.isNone := List.countP_pos_iff.mpr ⟨none, hm, rfl⟩
    omega
  · intro hrun
    refine ⟨fun k => ?_, fun p x hx hc => ?_⟩
    · obtain ⟨past, hlog⟩ := r.over h0 k
      have hnone : none ∉ past := by
        intro hm
        rw [← mem_visits (k := k) (c := c), ← hlog] at hm
        exact hrun k (List.mem_filter.mp hm).1
      rw [hlog]
      exact visits_served hnone
    · obtain ⟨hpool, pl, hplaced, inv⟩ := r.inv
      rcases inv.copies p x hx with ⟨k, o, hk, _, hbefore, hctx⟩ | ⟨k, hlost⟩
      · have htask := (inv.task k o hk (by simp [hbefore])).1
        have := hplaced.nowhere (Run.refsCounted hpool) h0 (k := k) (by rw [htask, hctx]; exact hc)
        rw [this] at hbefore
        cases hbefore
      · rw [hc] at hlost
        exact hrun k hlost

end

/-- `open` is interrupted, and fails with `ENOENT` when it is repeated. -/
theorem fs_served_one : ∃ s, FsRun s ∧
    s.log = [.issued 7 0 true, .performed 7 0 (.err 2), .called 7 0 (-2)] ∧ Served s 0 := by
  have hplay : (Machine.play fsStep IssuesOnce fsStart
      [.pool (.init 1) .none, .pool .create .none, .init 0 7, .issue 7 (.open "a" (some 100) 0 0),
        .pool (.enqueue 7 0) .none, .pool (.worker 0 0) .none, .pool (.worker 0 0) .none,
        .pool (.worker 0 0) (.fails EINTR (by decide)), .pool (.worker 0 0) (.fails 2 (by decide)),
        .pool (.worker 0 0) .none, .pool (.worker 0 0) .none, .pool (.notifierIo 0) .none,
        .pool (.taskDone 0) .none, .pool (.taskDone 0) .none, .pool (.taskDone 0) .none,
        .pool (.taskDone 0) .none]).map (fun s => (s.log, (s.pool.ctx 0).refs)) =
      some ([.issued 7 0 true, .performed 7 0 (.err 2), .called 7 0 (-2)], 0) := by
    decide +kernel
  obtain ⟨s, hs, he⟩ := Option.map_eq_some_iff.mp hplay
  obtain ⟨hlog, hrefs⟩ := Prod.mk.inj he
  have r : FsRun s := Machine.Reach.play (.init fsStart_init) hs
  exact ⟨s, r, hlog, (fs_served_iff r hrefs).mpr fun k => by simp [hlog]⟩

/-- A request is issued before the pool is there: the loop returns at once, the callback is not called
and the path is left. -/
theorem not_fs_served : ∃ s, FsRun s ∧ (s.pool.ctx 0).refs = 0 ∧ s.log = [.issued 7 0 false] ∧
    (s.copies 100).isSome ∧ ¬ Served s 0 := by
  have hplay : (Machine.play fsStep IssuesOnce fsStart
      [.init 0 7, .issue 7 (.open "a" (some 100) 0 0)]).map
        (fun s => ((s.pool.ctx 0).refs, s.log, (s.copies 100).isSome)) =
      some (0, [.issued 7 0 false], true) := by
    decide +kernel
  obtain ⟨s, hs, he⟩ := Option.map_eq_some_iff.mp hplay
  simp only [Prod.mk.injEq] at he
  obtain ⟨hrefs, hlog, hcopy⟩ := he
  have r : FsRun s := Machine.Reach.play (.init fsStart_init) hs
  refine ⟨s, r, hrefs, hlog, hcopy, fun h => ?_⟩
  obtain ⟨past, hpast⟩ := h.calls 7
  have hcount := count_served (k := 7) (c := 0) past
  rw [← hpast, hlog] at hcount
  exact absurd hcount (by decide)

end Pandio.Threadpool
