import Pandio.Lib.Tally
import Pandio.Unix.OpenedStreams

/- What `ctx->refs` counts. The counter is the number of active timers, registered
   listeners, opened streams that are not closed, streams in the queue of closes, and
   tasks; and while a callback of `on_close`, of a cancelled write or of a finished task
   is under way, the stream or the tasks that are then on the stack only. At the head
   of the loop there are none of these, unless such a callback called `pd_io_run`.

   Nothing here is defined by the counter: a listener is one whose registration
   succeeded and whose close did not return 0 yet, a stream is one that was opened and
   whose status is not CLOSED. The counter has 64 bits. Every object it counts has an
   address, so there are fewer than 2^64 of them; the theorem says what follows where
   there are. -/
namespace Pandio
open World

/-! ## The account -/

/-- The listener was registered, and no `pd_tcp_server_close` that returned 0 has closed it. -/
def Listening (l : Lid) (log : List Obs) : Prop :=
  (∃ o ∈ log, isListening l o = true) ∧ ∀ o ∈ log, isServerClose l o = false

/-- The sets that are counted. -/
structure Account where
  timers : Finset Tid
  listeners : Finset Lid
  streams : Finset Sid

/-- The sets are those of the state. -/
structure Account.Of (n : Account) (v : Owners) : Prop where
  timers : ∀ t, t ∈ n.timers ↔ v.active t = true
  listeners : ∀ l, l ∈ n.listeners ↔ Listening l v.log
  streams : ∀ s, s ∈ n.streams ↔ Opened s v.log ∧ v.closed s = false

def isInc : Obs → Bool
  | .refInc _ => true
  | _ => false

def isDec : Obs → Bool
  | .refDec _ => true
  | _ => false

/-- The counter is `m` up to its 64 bits, and the log's increments and decrements leave `m`. -/
structure Counts (v : Owners) (m : Nat) : Prop where
  refs : v.refs = m % 2 ^ 64
  log : Tally isInc isDec v.log m

section
variable {v v' : Owners} {new : List Item} {n : Account}

theorem opened_iff {s : Sid} {log : List Obs} : Opened s log ↔ 0 < log.countP (isOpening s) :=
  List.countP_pos_iff.symm

theorem not_opened {s : Sid} (fd : Fd) {l m : List Obs}
    (h : (l ++ .opened s fd :: m).countP (isOpening s) ≤ 1) : ¬ Opened s l := by
  rw [List.countP_append, List.countP_cons_of_pos (by simp [isOpening])] at h
  rw [opened_iff]
  omega

theorem listening_iff {l : Lid} {log : List Obs} : Listening l log ↔
    0 < log.countP (isListening l) ∧ log.countP (isServerClose l) = 0 := by
  rw [Listening, ← List.countP_pos_iff, List.countP_eq_zero]
  simp

/-- The entries that open or close what is counted by the log. -/
def isOpenOrClose : Obs → Bool
  | .opened _ _ | .listening _ _ | .serverClosed _ _ => true
  | _ => false

/-- Other entries are not looked at. -/
theorem Account.Of.logs (h : n.Of v) {m : List Obs} (hm : ∀ o ∈ m, isOpenOrClose o = false) :
    n.Of (v.logs m) := by
  have same : ∀ p : Obs → Bool, (∀ o, p o = true → isOpenOrClose o = true) →
      (v.logs m).log.countP p = v.log.countP p := by
    intro p hp
    have hzero : m.countP p = 0 := List.countP_eq_zero.mpr fun o ho hpo => by
      have := hp o hpo
      simp [hm o ho] at this
    show (v.log ++ m).countP p = _
    rw [List.countP_append, hzero, Nat.add_zero]
  refine ⟨h.timers, fun l => ?_, fun s => ?_⟩
  · rw [h.listeners l, listening_iff, listening_iff, same, same]
    all_goals
      intro o ho
      cases o <;> first | rfl | cases ho
  · rw [h.streams s, opened_iff, opened_iff, same]
    · exact Iff.rfl
    · intro o ho
      cases o <;> first | rfl | cases ho

/-- A timer becomes active. -/
theorem Account.Of.start (h : n.Of v) {t : Tid} (ht : v.active t = false) :
    ({ n with timers := insert t n.timers } : Account).Of ((v.setActive t true).inc (.timer t)) ∧
      (insert t n.timers).card = n.timers.card + 1 := by
  have hmem : t ∉ n.timers := by
    rw [h.timers t, ht]
    simp
  constructor
  · have hl := h.logs (m := [.refInc (.timer t)]) (by simp [isOpenOrClose])
    refine ⟨fun t' => ?_, hl.listeners, hl.streams⟩
    show t' ∈ insert t n.timers ↔ Function.update v.active t true t' = true
    by_cases ht' : t' = t
    · simp [ht']
    · simp [ht', h.timers t']
  · exact Finset.card_insert_of_notMem hmem

/-- A timer stops being active. -/
theorem Account.Of.stop (h : n.Of v) {t : Tid} (ht : v.active t = true) :
    ({ n with timers := n.timers.erase t } : Account).Of ((v.setActive t false).dec (.timer t)) ∧
      n.timers.card = (n.timers.erase t).card + 1 := by
  have hmem : t ∈ n.timers := (h.timers t).mpr ht
  constructor
  · have hl := h.logs (m := [.refDec (.timer t)]) (by simp [isOpenOrClose])
    refine ⟨fun t' => ?_, hl.listeners, hl.streams⟩
    show t' ∈ n.timers.erase t ↔ Function.update v.active t false t' = true
    by_cases ht' : t' = t
    · simp [ht']
    · simp [ht', h.timers t']
  · exact (Finset.card_erase_add_one hmem).symm

/-- An opened stream is closed. -/
theorem Account.Of.close (h : n.Of v) {s : Sid} (hs : v.closed s = false) (ho : Opened s v.log) :
    ({ n with streams := n.streams.erase s } : Account).Of (v.setClosed s true) ∧
      n.streams.card = (n.streams.erase s).card + 1 := by
  have hmem : s ∈ n.streams := (h.streams s).mpr ⟨ho, hs⟩
  constructor
  · refine ⟨h.timers, h.listeners, fun s' => ?_⟩
    show s' ∈ n.streams.erase s ↔ Opened s' v.log ∧ Function.update v.closed s true s' = false
    by_cases hs' : s' = s
    · simp [hs']
    · simp [hs', h.streams s']
  · exact (Finset.card_erase_add_one hmem).symm

/-- A stream is opened. -/
theorem Account.Of.open (h : n.Of v) {s : Sid} (fd : Fd) (ho : ¬ Opened s v.log)
    {closed : Sid → Bool} (hc : closed = Function.update v.closed s false) :
    ({ n with streams := insert s n.streams } : Account).Of
        (({ v with closed := closed } : Owners).logs [.opened s fd]) ∧
      (insert s n.streams).card = n.streams.card + 1 := by
  have hmem : s ∉ n.streams := fun hm => ho ((h.streams s).mp hm).1
  constructor
  · refine ⟨h.timers, fun l => ?_, fun s' => ?_⟩
    · rw [h.listeners l, listening_iff, listening_iff]
      simp [Owners.logs, List.countP_append, isListening, isServerClose]
    · show s' ∈ insert s n.streams ↔ Opened s' (v.log ++ [.opened s fd]) ∧ closed s' = false
      rw [hc, opened_iff, List.countP_append]
      by_cases hs' : s' = s
      · simp [hs', isOpening]
      · simp [hs', Ne.symm hs', h.streams s', opened_iff, isOpening]
  · exact Finset.card_insert_of_notMem hmem

/-- A listener is registered. -/
theorem Account.Of.listen (h : n.Of v) {l : Lid} (r : TcpServer) (fd : Fd)
    (hi : v.log.countP (isListening l) = 0) (hd : v.log.countP (isServerClose l) = 0) :
    ({ n with listeners := insert l n.listeners } : Account).Of
        ((v.setServer l r).logs [.ctl (.server l) fd .add, .listening l fd]) ∧
      (insert l n.listeners).card = n.listeners.card + 1 := by
  have hmem : l ∉ n.listeners := by
    rw [h.listeners l, listening_iff]
    omega
  constructor
  · refine ⟨h.timers, fun l' => ?_, fun s => ?_⟩
    · show l' ∈ insert l n.listeners ↔
        Listening l' (v.log ++ [.ctl (.server l) fd .add, .listening l fd])
      rw [listening_iff]
      by_cases hl : l' = l
      · simp [hl, List.countP_append, isListening, isServerClose, hd]
      · simp [hl, Ne.symm hl, h.listeners l', listening_iff, List.countP_append, isListening,
          isServerClose]
    · rw [h.streams s, opened_iff, opened_iff]
      simp [Owners.logs, Owners.setServer, List.countP_append, isOpening]
  · exact Finset.card_insert_of_notMem hmem

/-- A listener is closed. -/
theorem Account.Of.serverClose (h : n.Of v) {l : Lid} (fd : Fd)
    (hi : 0 < v.log.countP (isListening l)) (hd : v.log.countP (isServerClose l) = 0) :
    ({ n with listeners := n.listeners.erase l } : Account).Of (v.logs [.serverClosed l fd]) ∧
      n.listeners.card = (n.listeners.erase l).card + 1 := by
  have hmem : l ∈ n.listeners := (h.listeners l).mpr (listening_iff.mpr ⟨hi, hd⟩)
  constructor
  · refine ⟨h.timers, fun l' => ?_, fun s => ?_⟩
    · show l' ∈ n.listeners.erase l ↔ Listening l' (v.log ++ [.serverClosed l fd])
      rw [listening_iff]
      by_cases hl : l' = l
      · simp [hl, List.countP_append, isServerClose]
      · simp [hl, Ne.symm hl, h.listeners l', listening_iff, List.countP_append, isListening,
          isServerClose]
    · rw [h.streams s, opened_iff, opened_iff]
      simp [Owners.logs, List.countP_append, isOpening]
  · exact (Finset.card_erase_add_one hmem).symm

/-! ## The counter -/

variable {m : Nat}

theorem Counts.inc (h : Counts v m) (o : Owner) : Counts (v.inc o) (m + 1) := by
  refine ⟨?_, h.log.up_one rfl rfl⟩
  have := h.refs
  show (v.refs + 1) % 2 ^ 64 = (m + 1) % 2 ^ 64
  omega

theorem Counts.dec (h : Counts v (m + 1)) (o : Owner) : Counts (v.dec o) m := by
  refine ⟨?_, h.log.down_one rfl rfl⟩
  have := h.refs
  show (if v.refs = 0 then 2 ^ 64 - 1 else v.refs - 1) = m % 2 ^ 64
  split <;> omega

theorem Counts.logs (h : Counts v m) {l : List Obs} (hl : ∀ o ∈ l, isInc o = false ∧ isDec o = false) :
    Counts (v.logs l) m := ⟨h.refs, h.log.append hl⟩

/-- What is counted, with `i` closes and `j` tasks on the stack. -/
def Account.held (n : Account) (v : Owners) (i j : Nat) : Nat :=
  n.timers.card + n.listeners.card + n.streams.card + (i + v.pendingCloses.length) +
    (j + (v.finishedTasks.length + v.poolTasks.length))

/-- The counter and the log are as they were. -/
theorem Counts.move {m' : Nat} (h : Counts v m) (hr : v'.refs = v.refs) (hl : v'.log = v.log)
    (e : m = m') : Counts v' m' := by
  subst e
  exact ⟨hr ▸ h.refs, hl ▸ h.log⟩

/-- **A step of the library keeps the account**: what it takes from one place it puts in another, or
counts. -/
theorem OwnerExec.counts {f : Frame} (h : OwnerExec v f v' new) (hn : n.Of v) {i j : Nat}
    (hopen : ∀ s, f.stream = some s → Opened s v.log)
    (hfresh : ∀ s, f = .closeDrain s → s ∉ v.pendingCloses)
    (hc : Counts v (n.held v ((closing [.lib f]).length + i) ((delivering [.lib f]).length + j))) :
    ∃ n' : Account, n'.Of v' ∧
      Counts v' (n'.held v' ((closing new).length + i) ((delivering new).length + j)) := by
  cases h with
  | same hcl hdl =>
    rw [hcl, hdl]
    exact ⟨n, hn, hc⟩
  | close hf hcl hdl hs =>
    obtain ⟨hn', hcard⟩ := hn.close hs (hopen _ hf)
    rw [hcl, hdl] at hc
    refine ⟨_, hn', hc.move rfl rfl ?_⟩
    simp [Account.held, Owners.setClosed, hcard, Item.closing, Item.tasks]
    omega
  | @closeQueued s =>
    have hl := hn.logs (m := [.closeQueued s]) (by simp [isOpenOrClose])
    have htake : v.pendingCloses.takeWhile (· ≠ s) = v.pendingCloses :=
      List.takeWhile_eq_self_iff.mpr fun s' hs' => by
        simpa using fun he : s' = s => hfresh s rfl (he ▸ hs')
    refine ⟨n, ⟨hl.timers, hl.listeners, hl.streams⟩,
      (hc.logs (l := [.closeQueued s]) (by simp [isInc, isDec])).move rfl rfl ?_⟩
    rw [Account.held, Account.held, htake]
    simp [Owners.logs, Item.closing, Item.tasks]
    omega
  | accept _ hm hcl hdl =>
    rw [hcl, hdl]
    refine ⟨n, hn.logs ?_, hc.logs ?_⟩
    · rcases hm with rfl | ⟨peer, now, rfl⟩ <;> simp [isOpenOrClose]
    · rcases hm with rfl | ⟨peer, now, rfl⟩ <;> simp [isInc, isDec]
  | @stop t _ hact hcl hdl =>
    obtain ⟨hn', hcard⟩ := hn.stop hact
    rw [hcl, hdl]
    refine ⟨_, hn', Counts.dec (v := v.setActive t false) (hc.move rfl rfl ?_) _⟩
    simp [Account.held, Owners.setActive, Owners.dec, Owners.logs, hcard, Item.closing, Item.tasks]
    omega
  | @rearm t hact =>
    obtain ⟨hn', hcard⟩ := hn.start hact
    refine ⟨_, hn', (Counts.inc (v := v.setActive t true) (hc.move rfl rfl rfl) _).move rfl rfl ?_⟩
    simp [Account.held, Owners.setActive, Owners.inc, Owners.logs, hcard, Item.closing, Item.tasks]
    omega
  | pending hp hcl hdl =>
    refine ⟨n, ⟨hn.timers, hn.listeners, hn.streams⟩, hc.move rfl rfl ?_⟩
    rw [hcl, hdl]
    simp [Account.held, Item.closing, Item.tasks, hp]
    omega
  | @pendingDec s =>
    have hl := hn.logs (m := [.refDec (.tcp s)]) (by simp [isOpenOrClose])
    refine ⟨n, ⟨hl.timers, hl.listeners, hl.streams⟩, Counts.dec (v := v) (hc.move rfl rfl ?_) _⟩
    simp [Account.held, Owners.dec, Owners.logs, Item.closing, Item.tasks]
    omega
  | signal =>
    refine ⟨n, ⟨hn.timers, hn.listeners, hn.streams⟩, hc.move rfl rfl ?_⟩
    simp [Account.held, Item.closing, Item.tasks]
    omega
  | @taskDec k l =>
    have hl := hn.logs (m := [.refDec (.task k)]) (by simp [isOpenOrClose])
    refine ⟨n, ⟨hl.timers, hl.listeners, hl.streams⟩, Counts.dec (v := v) (hc.move rfl rfl ?_) _⟩
    simp [Account.held, Owners.dec, Owners.logs, Item.closing, Item.tasks]
    omega

/-- **A call of the application keeps the account.** -/
theorem OwnerApi.counts {k : Call} {a : Answer} (h : OwnerApi v a k v' new) (hn : n.Of v)
    {i j : Nat} (hclose : ∀ s ∈ k.closesStream, Opened s v.log) (hok : k.OpensOnce v'.log)
    (hadd : ∀ l b, k = .tcpListen l b → (a.sys 7).isOk = true)
    (hs : ∀ s, v.closed s = true → Opened s v.log)
    (hl : ∀ l, v.log.countP (isServerClose l) ≤ v.log.countP (isListening l))
    (hc : Counts v (n.held v i j)) :
    ∃ n' : Account, n'.Of v' ∧
      Counts v' (n'.held v' ((closing new).length + i) ((delivering new).length + j)) := by
  cases h with
  | same hcl hdl =>
    rw [hcl, hdl]
    exact ⟨n, hn, hc.move rfl rfl (by simp)⟩
  | @accept s fd =>
    have ho : ¬ Opened s v.log := not_opened fd (m := [.refInc (.tcp s)]) (by
      rw [List.append_cons]
      exact hok.1 s rfl)
    obtain ⟨hn', hcard⟩ := hn.open fd ho rfl
    have hl := hn'.logs (m := [.refInc (.tcp s)]) (by simp [isOpenOrClose])
    refine ⟨_, ⟨hl.timers, hl.listeners, hl.streams⟩, (Counts.inc (Counts.logs
      (v := v.setClosed s false) (hc.move rfl rfl rfl) (l := [.opened s fd])
      (by simp [isInc, isDec])) _).move rfl rfl ?_⟩
    simp [Account.held, Owners.setClosed, Owners.inc, Owners.logs, hcard]
    omega
  | @connect s fd b =>
    have ho : ¬ Opened s v.log := not_opened fd (m := [.refInc (.tcp s)]) (by
      rw [List.append_cons]
      exact hok.1 s rfl)
    -- a stream that is opened for the first time was not closed
    have hcl : v.closed = Function.update v.closed s false := by
      rw [eq_comm, Function.update_eq_self_iff]
      by_contra hcl
      exact ho (hs s (by simpa using hcl))
    obtain ⟨hn', hcard⟩ := hn.open fd ho hcl
    have hl := hn'.logs (m := [.refInc (.tcp s)]) (by simp [isOpenOrClose])
    refine ⟨_, ⟨hl.timers, hl.listeners, hl.streams⟩, (Counts.inc (hc.logs (l := [.opened s fd])
      (by simp [isInc, isDec])) _).move rfl rfl ?_⟩
    simp [Account.held, Owners.inc, Owners.logs, hcard]
    omega
  | @close s hcl =>
    obtain ⟨hn', hcard⟩ := hn.close hcl (hclose s rfl)
    refine ⟨_, hn', hc.move rfl rfl ?_⟩
    simp [Account.held, Owners.setClosed, hcard, Item.closing, Item.tasks]
    omega
  | @listen l b r m hm =>
    -- the registration has succeeded, so there is an entry for it
    obtain rfl : m = [.listening l r.fd] := hm.resolve_right fun hf => by
      have := hadd l b rfl
      simp [hf.2] at this
    -- the listener had no entry yet
    have hlog : (((v.setServer l r).logs [.ctl (.server l) r.fd .add, .listening l r.fd]).inc
        (.server l)).log = v.log ++ [.ctl (.server l) r.fd .add, .listening l r.fd] ++
          [.refInc (.server l)] := rfl
    have h1 := (hok.2 l rfl).1
    have h2 := hl l
    simp only [hlog, List.countP_append, List.countP_cons, List.countP_nil, isListening,
      decide_true, ↓reduceIte, Bool.false_eq_true] at h1
    obtain ⟨hn', hcard⟩ := hn.listen r r.fd (l := l) (by omega) (by omega)
    have hl := hn'.logs (m := [.refInc (.server l)]) (by simp [isOpenOrClose])
    refine ⟨_, ⟨hl.timers, hl.listeners, hl.streams⟩, (Counts.inc (Counts.logs
      (v := v.setServer l r) (hc.move rfl rfl rfl)
      (l := [.ctl (.server l) r.fd .add, .listening l r.fd]) (by simp [isInc, isDec])) _).move
        rfl rfl ?_⟩
    simp [Account.held, Owners.inc, Owners.logs, Owners.setServer, hcard]
    omega
  | @serverClose l =>
    -- it was registered once, and this is its first close
    have hlog : ((v.logs [.serverClosed l (v.server l).fd]).dec (.server l)).log =
        v.log ++ [.serverClosed l (v.server l).fd] ++ [.refDec (.server l)] := rfl
    obtain ⟨h1, h2⟩ := hok.2 l rfl
    simp only [hlog, List.countP_append, List.countP_singleton, isListening, isServerClose,
      decide_true, ↓reduceIte, Bool.false_eq_true, Nat.add_zero] at h1 h2
    obtain ⟨hn', hcard⟩ := hn.serverClose (l := l) (v.server l).fd (by omega) (by omega)
    have hl := hn'.logs (m := [.refDec (.server l)]) (by simp [isOpenOrClose])
    refine ⟨_, ⟨hl.timers, hl.listeners, hl.streams⟩, Counts.dec ((hc.logs
      (l := [.serverClosed l (v.server l).fd]) (by simp [isInc, isDec])).move rfl rfl ?_) _⟩
    simp [Account.held, Owners.dec, Owners.logs, hcard]
    omega
  | @start k t _ hact =>
    obtain ⟨hn', hcard⟩ := hn.start hact
    refine ⟨_, hn', (Counts.inc (v := v.setActive t true) (hc.move rfl rfl rfl) _).move rfl rfl ?_⟩
    simp [Account.held, Owners.setActive, Owners.inc, Owners.logs, hcard]
    omega
  | @stop t hact =>
    obtain ⟨hn', hcard⟩ := hn.stop hact
    refine ⟨_, hn', Counts.dec (v := v.setActive t false) (hc.move rfl rfl ?_) _⟩
    simp [Account.held, Owners.setActive, Owners.dec, Owners.logs, hcard]
    omega
  | @submit k b =>
    have hl := hn.logs (m := [.refInc (.task k)]) (by simp [isOpenOrClose])
    refine ⟨n, ⟨hl.timers, hl.listeners, hl.streams⟩, (Counts.inc hc _).move rfl rfl ?_⟩
    simp [Account.held, Owners.inc, Owners.logs]
    omega

/-! ## The closes under way -/

/-- A stream whose close is under way is there once, and marked as closed. -/
structure ClosesOnce (v : Owners) (z : List Sid) : Prop where
  nodup : (z ++ v.pendingCloses).Nodup
  marked : ∀ s ∈ z ++ v.pendingCloses, v.closed s = true

theorem ClosesOnce.sublist {z z' : List Sid} (h : ClosesOnce v z)
    (hs : z'.Sublist z) : ClosesOnce v z' := by
  have hsub := hs.append_right v.pendingCloses
  exact ⟨h.nodup.sublist hsub, fun s hz => h.marked s (hsub.subset hz)⟩

/-- A stream that is not closed joins. -/
theorem ClosesOnce.close {z : List Sid} {s : Sid} (h : ClosesOnce v z) (hs : v.closed s = false) :
    ClosesOnce (v.setClosed s true) (s :: z) := by
  have hnot : s ∉ z ++ v.pendingCloses := by
    intro hm
    rw [h.marked s hm] at hs
    cases hs
  refine ⟨List.nodup_cons.mpr ⟨hnot, h.nodup⟩, fun s' hm => ?_⟩
  show Function.update v.closed s true s' = true
  by_cases hs' : s' = s
  · simp [hs']
  · have hm' : s' ∈ s :: (z ++ v.pendingCloses) := hm
    simp [hs', h.marked s' ((List.mem_cons.mp hm').resolve_left hs')]

/-- The same streams, on the stack and in the queue. -/
theorem ClosesOnce.perm {z z' q : List Sid} (h : ClosesOnce v z)
    (hp : (z' ++ q).Perm (z ++ v.pendingCloses)) :
    ClosesOnce { v with pendingCloses := q } z' :=
  ⟨hp.nodup_iff.mpr h.nodup, fun s hm => h.marked s (hp.subset hm)⟩

theorem OwnerExec.closesOnce {f : Frame} (h : OwnerExec v f v' new) {z : List Sid}
    (hz : ClosesOnce v (closing [.lib f] ++ z)) : ClosesOnce v' (closing new ++ z) := by
  cases h with
  | same hcl _ => rwa [hcl]
  | close hf hcl _ hs =>
    rw [hcl] at hz
    exact hz.close hs
  | @closeQueued s =>
    have hnot : s ∉ v.pendingCloses := fun hm =>
      (List.nodup_cons.mp hz.nodup).1 (List.mem_append_right _ hm)
    have htake : v.pendingCloses.takeWhile (· ≠ s) = v.pendingCloses :=
      List.takeWhile_eq_self_iff.mpr fun s' hs' => by
        simpa using fun he : s' = s => hnot (he ▸ hs')
    have hp : ClosesOnce { v with pendingCloses := v.pendingCloses ++ [s] } (closing [] ++ z) := by
      apply hz.perm
      simp only [closing_cons, closing_nil, Item.closing, List.nil_append, List.append_nil,
        List.cons_append]
      rw [← List.append_assoc]
      exact List.perm_append_singleton s _
    rw [htake]
    exact ⟨hp.nodup, hp.marked⟩
  | @pending s rest _ hp hcl _ =>
    apply hz.perm
    rw [hcl, hp]
    simp only [closing_cons, closing_nil, Item.closing, List.nil_append, List.append_nil]
    exact List.perm_middle.symm
  | accept _ _ hcl _ =>
    rw [hcl]
    exact ⟨hz.nodup, hz.marked⟩
  | stop _ hcl _ =>
    rw [hcl]
    exact ⟨hz.nodup, hz.marked⟩
  | rearm => exact ⟨hz.nodup, hz.marked⟩
  | pendingDec =>
    have : ClosesOnce _ z := hz.sublist (by simp [Item.closing])
    exact ⟨this.nodup, this.marked⟩
  | signal => exact ⟨hz.nodup, hz.marked⟩
  | taskDec => exact ⟨hz.nodup, hz.marked⟩

theorem OwnerApi.closesOnce {k : Call} {a : Answer} (h : OwnerApi v a k v' new) (hok : k.OpensOnce v'.log)
    (hs : ∀ s, v.closed s = true → Opened s v.log) {z : List Sid} (hz : ClosesOnce v z) :
    ClosesOnce v' (closing new ++ z) := by
  cases h with
  | same hcl _ => rwa [hcl]
  | @accept s fd =>
    refine ⟨hz.nodup, fun s' hm => ?_⟩
    show Function.update v.closed s false s' = true
    have hc := hz.marked s' hm
    by_cases hs' : s' = s
    · refine absurd (hs s (hs' ▸ hc)) (not_opened fd (m := [.refInc (.tcp s)]) ?_)
      rw [List.append_cons]
      exact hok.1 s rfl
    · simp [hs', hc]
  | close hcl => exact hz.close hcl
  | _ => exact ⟨hz.nodup, hz.marked⟩

/-! ## The listeners -/

/-- A step of the library neither opens nor closes a listener. -/
theorem OwnerExec.listeners {f : Frame} (h : OwnerExec v f v' new) (l : Lid) :
    v'.log.countP (isListening l) = v.log.countP (isListening l) ∧
      v'.log.countP (isServerClose l) = v.log.countP (isServerClose l) := by
  cases h with
  | accept _ hm =>
    rcases hm with rfl | ⟨peer, now, rfl⟩ <;>
      simp [Owners.logs, List.countP_append, isListening, isServerClose]
  | stop | rearm | pendingDec | taskDec | closeQueued =>
    simp [Owners.inc, Owners.dec, Owners.logs, Owners.setActive, List.countP_append, isListening,
      isServerClose]
  | _ => exact ⟨rfl, rfl⟩

/-- A call opens and closes no other listener than its own. -/
theorem OwnerApi.listeners {k : Call} {a : Answer} (h : OwnerApi v a k v' new) {l : Lid}
    (hl : l ∉ k.listener) : v'.log.countP (isListening l) = v.log.countP (isListening l) ∧
      v'.log.countP (isServerClose l) = v.log.countP (isServerClose l) := by
  have hne : ∀ l', k.listener = some l' → l' ≠ l := by
    rintro l' he rfl
    exact hl he
  cases h with
  | listen hm =>
    have := hne _ rfl
    rcases hm with rfl | ⟨rfl, -⟩ <;>
      simp [Owners.inc, Owners.logs, Owners.setServer, List.countP_append, isListening,
        isServerClose, this]
  | serverClose =>
    have := hne _ rfl
    simp [Owners.dec, Owners.logs, List.countP_append, isListening, isServerClose, this]
  | accept | connect | start | stop | submit =>
    simp [Owners.inc, Owners.dec, Owners.logs, Owners.setActive, Owners.setClosed,
      List.countP_append, isListening, isServerClose]
  | _ => exact ⟨rfl, rfl⟩

/-! ## The loops on the stack -/

/-- The frames in which `pd_io_run` stands at the head or at the end of its loop. -/
def Frame.loops : Frame → Bool
  | .ioRun _ | .ioNext => true
  | _ => false

/-- Under a frame of `pd_io_run` nothing is held by the stack only. -/
def LoopsClear : List Item → Prop
  | [] => True
  | .lib f :: rest =>
    (f.loops = true → closing rest = [] ∧ delivering rest = []) ∧ LoopsClear rest
  | .app _ :: rest => LoopsClear rest

theorem LoopsClear.tail {i : Item} {rest : List Item} (h : LoopsClear (i :: rest)) :
    LoopsClear rest := by
  cases i with
  | lib f => exact h.2
  | app k => exact h

theorem LoopsClear.append {l rest : List Item} (h : LoopsClear rest)
    (hl : ∀ g, .lib g ∈ l → g.loops = false) : LoopsClear (l ++ rest) := by
  induction l with
  | nil => exact h
  | cons i l ih =>
    have hrest := ih fun g hg => hl g (List.mem_cons_of_mem _ hg)
    cases i with
    | lib f => exact ⟨fun hf => by simp [hl f (by simp)] at hf, hrest⟩
    | app k => exact hrest

/-- Only a frame of `pd_io_run` puts one on the stack, in its own place. -/
theorem Frame.Pushes.loops {f : Frame} {l : List Item} (h : f.Pushes l) :
    ∃ pre, (∀ g, .lib g ∈ pre → g.loops = false) ∧
      (l = pre ∨ f.loops = true ∧ ∃ g, l = pre ++ [.lib g]) := by
  cases h with
  | pollAgain timeout => exact ⟨[], by simp, .inr ⟨rfl, .ioRun timeout, rfl⟩⟩
  | next timeout => exact ⟨[], by simp, .inr ⟨rfl, .ioRun timeout, rfl⟩⟩
  | poll timeout events =>
    refine ⟨events.map (fun e => .lib (.dispatch e.1 e.2)) ++
      [.lib .timersRun, .lib .pendingClose, .lib .ioAfterTick], ?_, .inr ⟨rfl, .ioNext, by simp⟩⟩
    intro g hg
    simp only [List.mem_append, List.mem_map, List.mem_cons, List.not_mem_nil, Item.lib.injEq,
      or_false] at hg
    rcases hg with ⟨e, _, rfl⟩ | rfl | rfl | rfl <;> rfl
  | _ =>
    refine ⟨_, ?_, .inl rfl⟩
    intro g hg
    simp only [List.mem_cons, List.not_mem_nil, Item.lib.injEq, reduceCtorEq, false_or, or_false]
      at hg
    all_goals first
      | (subst hg; rfl)
      | (rcases hg with rfl | rfl <;> rfl)

theorem LoopsClear.exec {f : Frame} {l rest : List Item} (h : LoopsClear (.lib f :: rest))
    (hp : f.Pushes l) : LoopsClear (l ++ rest) := by
  obtain ⟨pre, hpre, rfl | ⟨hf, g, rfl⟩⟩ := hp.loops
  · exact h.2.append hpre
  · have hg : LoopsClear (.lib g :: rest) := ⟨fun _ => h.1 hf, h.2⟩
    rw [List.append_assoc]
    exact hg.append hpre

/-- A call of `pd_io_run` needs what the contract asks for. -/
theorem LoopsClear.api {k : Call} {l stack : List Item} (h : LoopsClear stack) (hp : k.Pushes l)
    (hrun : k = .ioRun → closing stack = [] ∧ delivering stack = []) :
    LoopsClear (l ++ stack) := by
  cases hp with
  | ioRun timeout => exact ⟨fun _ => hrun rfl, h⟩
  | _ =>
    refine h.append fun g hg => ?_
    simp only [List.mem_cons, List.not_mem_nil, Item.lib.injEq, reduceCtorEq, or_false] at hg
    all_goals
      subst hg
      rfl

/-! ## The invariant -/

structure RefInv (c : Cfg) : Prop where
  account : ∃ n : Account, n.Of c.world.owners ∧ Counts c.world.owners
    (n.held c.world.owners (closing c.stack).length (delivering c.stack).length)
  loops : LoopsClear c.stack
  closes : ClosesOnce c.world.owners (closing c.stack)
  listeners : ∀ l, c.world.owners.log.countP (isServerClose l) ≤
    c.world.owners.log.countP (isListening l)

theorem isListening_owner {l : Lid} {o : Obs} (h : isListening l o = true) :
    isOwnerObs o = true := by
  cases o <;> first | rfl | cases h

theorem isServerClose_owner {l : Lid} {o : Obs} (h : isServerClose l o = true) :
    isOwnerObs o = true := by
  cases o <;> first | rfl | cases h

theorem opensOnce_owners {k : Call} {w : World} (h : k.OpensOnce w.log) :
    k.OpensOnce w.owners.log := by
  refine ⟨fun s hs => ?_, fun l hl => ?_⟩
  · have := countP_filter_of (p := isOwnerObs) (q := isOpening s) (fun _ => isOpening_owner) w.log
    exact this.le.trans (h.1 s hs)
  · have h1 := countP_filter_of (p := isOwnerObs) (q := isListening l)
      (fun _ => isListening_owner) w.log
    have h2 := countP_filter_of (p := isOwnerObs) (q := isServerClose l)
      (fun _ => isServerClose_owner) w.log
    exact ⟨h1.le.trans (h.2 l hl).1, h2.le.trans ((h.2 l hl).2.trans h1.ge)⟩

section
variable {c : Cfg}

/-- A step of a frame of the library. -/
theorem RefInv.exec {f : Frame} {a : Answer} {rest : List Item} {r : World × List Item}
    (hinv : RefInv c) (hso : StreamsOpened c) (hst : c.stack = .lib f :: rest)
    (hr : exec c.world f a = some r) : RefInv ⟨r.1, r.2 ++ rest⟩ := by
  obtain ⟨n, hn, hc⟩ := hinv.account
  have ho := (exec_owner hr).1
  have hcl : ∀ m, closing (m ++ rest) = closing m ++ closing rest := fun m => closing_append m rest
  have hdl : ∀ m, delivering (m ++ rest) = delivering m ++ delivering rest := fun m =>
    delivering_append m rest
  have hst' : c.stack = [.lib f] ++ rest := hst
  rw [hst', hcl, hdl, List.length_append, List.length_append] at hc
  have hz := hinv.closes
  rw [hst', hcl] at hz
  -- a frame works for a stream that was opened
  have hopen : ∀ s, f.stream = some s → Opened s c.world.owners.log := by
    intro s hs
    rw [opened_owners]
    exact hso.frames f s (by simp [hst]) hs
  -- a stream that is about to be queued is not in the queue
  have hfresh : ∀ s, f = .closeDrain s → s ∉ c.world.owners.pendingCloses := by
    rintro s rfl hm
    exact (List.nodup_cons.mp hz.nodup).1 (List.mem_append_right _ hm)
  obtain ⟨n', hn', hc'⟩ := ho.counts hn hopen hfresh hc
  constructor
  · refine ⟨n', hn', ?_⟩
    rw [hcl, hdl, List.length_append, List.length_append]
    exact hc'
  · have hloops := hinv.loops
    rw [hst] at hloops
    exact hloops.exec (exec_pushes hr)
  · rw [hcl]
    exact ho.closesOnce hz
  · intro l
    obtain ⟨h1, h2⟩ := ho.listeners l
    rw [h1, h2]
    exact hinv.listeners l

/-- A call of the application. -/
theorem RefInv.api {k : Call} {a : Answer} {cb : Cb} {rest : List Item} {r : World × List Item}
    (hinv : RefInv c) (hso : StreamsOpened c) (hok : KeepsRefs c (.api k a))
    (hst : c.stack = .app cb :: rest) (hr : api c.world k a = some r) :
    RefInv ⟨r.1, r.2 ++ .app cb :: rest⟩ := by
  obtain ⟨n, hn, hc⟩ := hinv.account
  have ho := api_owner hr
  rw [← hst]
  have hone := opensOnce_owners (hok.1.2 r hr)
  have hmark : ∀ s, c.world.owners.closed s = true → Opened s c.world.owners.log := by
    intro s hs
    rw [opened_owners]
    apply hso.status s
    have hcl : (c.world.tcp s).status = .closed := by simpa [World.owners] using hs
    simp [hcl]
  have hclose : ∀ s ∈ k.closesStream, Opened s c.world.owners.log := fun s hs =>
    opened_owners.mpr (hok.1.1 s hs)
  have hadd : ∀ l b, k = .tcpListen l b → (a.sys 7).isOk = true := by
    rintro l b rfl
    exact hok.2.1
  obtain ⟨n', hn', hc'⟩ := ho.counts hn hclose hone hadd hmark hinv.listeners hc
  constructor
  · refine ⟨n', hn', ?_⟩
    rw [closing_append, delivering_append, List.length_append, List.length_append]
    exact hc'
  · refine hinv.loops.api (api_pushes hr) ?_
    rintro rfl
    exact hok.2.2.2
  · rw [closing_append]
    exact ho.closesOnce hone hmark hinv.closes
  · intro l
    by_cases hl : l ∈ k.listener
    · exact (hone.2 l hl).2
    · obtain ⟨h1, h2⟩ := ho.listeners hl
      rw [h1, h2]
      exact hinv.listeners l

/-- A callback returns: it held no reference. -/
theorem RefInv.ret {p : Option Nat} {cb : Cb} {rest : List Item} (hinv : RefInv c)
    (hst : c.stack = .app cb :: rest) : RefInv ⟨c.world.setPtr p, rest⟩ := by
  obtain ⟨n, hn, hc⟩ := hinv.account
  have hpop : closing c.stack = closing rest ∧ delivering c.stack = delivering rest := by
    rw [hst]
    exact ⟨rfl, rfl⟩
  rw [hpop.1, hpop.2] at hc
  have hz := hinv.closes
  rw [hpop.1] at hz
  have hloops := hinv.loops
  rw [hst] at hloops
  exact ⟨⟨n, hn, hc⟩, hloops.tail, hz, hinv.listeners⟩

/-- A worker finishes a task, or something else happens around the thread. -/
theorem RefInv.env {e : Env} {w' : World} (hinv : RefInv c) (he : env c.world e = some w') :
    RefInv ⟨w', c.stack⟩ := by
  obtain ⟨n, hn, hc⟩ := hinv.account
  rcases env_owner he with ho | ⟨t, ht, ho⟩
  · exact ⟨⟨n, ho ▸ hn, ho ▸ hc⟩, hinv.loops, ho ▸ hinv.closes, ho ▸ hinv.listeners⟩
  · refine ⟨⟨n, ?_, ?_⟩, hinv.loops, ?_, ?_⟩
    · rw [ho]
      exact ⟨hn.timers, hn.listeners, hn.streams⟩
    · refine hc.move (by rw [ho]) (by rw [ho]) ?_
      rw [ho]
      have hlen := List.length_erase_of_mem ht
      have hpos := List.length_pos_of_mem ht
      simp only [Account.held, List.length_append, List.length_singleton, hlen]
      simp only [World.owners]
      omega
    · rw [ho]
      exact ⟨hinv.closes.nodup, hinv.closes.marked⟩
    · rw [ho]
      exact hinv.listeners

theorem RefInv.step {c' : Cfg} {x : Act} (hinv : RefInv c) (hso : StreamsOpened c)
    (hok : KeepsRefs c x) (hs : step c x = some c') : RefInv c' := by
  rcases step_cases hs with ⟨a, f, rest, r, rfl, hst, hr, rfl⟩ |
    ⟨k, a, cb, rest, r, rfl, hst, hr, rfl⟩ | ⟨p, cb, rest, rfl, hst, -, rfl⟩ |
    ⟨e, w', rfl, he, rfl⟩
  · exact hinv.exec hso hst hr
  · exact hinv.api hso hok hst hr
  · exact hinv.ret hst
  · exact hinv.env he

end

/-! ## Runs -/

/-- The sets are those the state has. -/
structure Account.IsOf (n : Account) (w : World) : Prop where
  timers : ∀ t, t ∈ n.timers ↔ (w.timer t).active = true
  listeners : ∀ l, l ∈ n.listeners ↔ Listening l w.log
  streams : ∀ s, s ∈ n.streams ↔ Opened s w.log ∧ (w.tcp s).status ≠ .closed

/-- Active timers, registered listeners, opened streams that are not closed, queued closes,
tasks. -/
def Account.total (n : Account) (w : World) : Nat :=
  n.timers.card + n.listeners.card + n.streams.card + w.pendingCloses.nodes.length +
    (w.finishedTasks.length + w.poolTasks.length)

/-- The streams and tasks that are on the stack only. -/
def inCallbacks (c : Cfg) : Nat := (closing c.stack).length + (delivering c.stack).length

theorem Account.Of.isOf {n : Account} {w : World} (h : n.Of w.owners) : n.IsOf w := by
  refine ⟨h.timers, fun l => ?_, fun s => ?_⟩
  · rw [h.listeners l, listening_iff, listening_iff]
    have h1 := countP_filter_of (p := isOwnerObs) (q := isListening l)
      (fun _ => isListening_owner) w.log
    have h2 := countP_filter_of (p := isOwnerObs) (q := isServerClose l)
      (fun _ => isServerClose_owner) w.log
    show 0 < (w.log.filter isOwnerObs).countP _ ∧ (w.log.filter isOwnerObs).countP _ = 0 ↔ _
    rw [h1, h2]
  · rw [h.streams s, opened_owners]
    simp [World.owners]

variable {c : Cfg}

theorem Run.refInv (r : Run KeepsRefs c) : RefInv c := by
  refine r.invariant (P := RefInv) ?_ fun c x c' r hinv hok hs =>
    hinv.step (Run.streamsOpened r) hok hs
  rintro c ⟨k, fd, -, -, rfl⟩
  refine ⟨⟨⟨∅, ∅, ∅⟩, ⟨?_, ?_, ?_⟩, rfl, Tally.nil⟩, trivial,
    ⟨List.nodup_nil, by simp [World.init, World.owners, LinkedQueue.init, Item.closing]⟩, ?_⟩
  all_goals simp [World.init, World.owners, pdTimerInit, Listening, Opened]

/-- `pd_io_run` returns from the head of its loop when `refs` is 0 only. -/
theorem returns_at_zero {timeout : Int} {rest : List Item} {a : Answer} {c' : Cfg}
    (hst : c.stack = .lib (.ioRun timeout) :: rest) (hs : step c (.lib a) = some c')
    (hpop : c'.stack = rest) : c.world.refs = 0 := by
  obtain ⟨a', q, -, hq, hnil, rfl⟩ := step_ends hst hpop hs
  by_contra hne
  simp only [exec, ioRun, hne, ↓reduceIte] at hq
  split at hq
  · split at hq <;> cases hq
    simp [goOn] at hnil
  · cases hq
    simp [goOn] at hnil

/-- **What `ctx->refs` counts**: in every state of every run that keeps the contract with what the
stack holds, and so at the head of the loop exactly the five kinds of things. The counter is never
decremented at 0, a stream waits once in the queue of closes, and `pd_io_run` returns only when
there is nothing left to count. -/
theorem refs_accounted (r : Run KeepsRefs c) : ∃ n : Account, n.IsOf c.world ∧
    c.world.refs = (n.total c.world + inCallbacks c) % 2 ^ 64 ∧
    Tally isInc isDec c.world.log (n.total c.world + inCallbacks c) ∧
    c.world.pendingCloses.nodes.Nodup ∧
    ∀ timeout rest, c.stack = .lib (.ioRun timeout) :: rest →
      c.world.refs = n.total c.world % 2 ^ 64 ∧
      (n.total c.world < 2 ^ 64 → ∀ a c', step c (.lib a) = some c' → c'.stack = rest →
        n.total c.world = 0) := by
  obtain ⟨⟨n, hn, hrefs, hlog⟩, hloops, hz, -⟩ := r.refInv
  have htotal : n.held c.world.owners (closing c.stack).length (delivering c.stack).length =
      n.total c.world + inCallbacks c := by
    simp only [Account.held, Account.total, inCallbacks, World.owners]
    omega
  rw [htotal] at hrefs hlog
  refine ⟨n, hn.isOf, hrefs, hlog.of_filter ?_, (List.nodup_append.mp hz.nodup).2.1, ?_⟩
  · intro o ho
    cases o <;> simp_all [isInc, isDec, isOwnerObs]
  intro timeout rest hst
  have hhead : inCallbacks c = 0 := by
    rw [hst] at hloops
    obtain ⟨hcl, hdl⟩ := hloops.1 rfl
    simp [inCallbacks, hst, hcl, hdl, Item.closing, Item.tasks]
  have hrefs' : c.world.refs = n.total c.world % 2 ^ 64 := by
    have : c.world.refs = (n.total c.world + inCallbacks c) % 2 ^ 64 := hrefs
    rwa [hhead, Nat.add_zero] at this
  refine ⟨hrefs', fun hfit a c' hs hpop => ?_⟩
  have hzero := returns_at_zero hst hs hpop
  omega

/-- A listener, a stream, a timer, a task and a stream that waits to be called back, at the head of
the loop. -/
theorem refs_accounted_five : ∃ c timeout rest, Run KeepsRefs c ∧
    c.stack = .lib (.ioRun timeout) :: rest ∧ c.world.refs = 5 ∧
    ∃ n : Account, n.IsOf c.world ∧ 5 = n.total c.world % 2 ^ 64 := by
  have hplay : ∃ c timeout rest, Run KeepsRefs c ∧ c.stack = .lib (.ioRun timeout) :: rest ∧
      c.world.refs = 5 := by
    have r : Run KeepsRefs _ := Run.play (Cfg.start_init [6, 7])
      [.api (.tcpListen 0 true) (.ok 5 []), .api (.tcpAccept 0 6) (.ok 0 []),
        .api (.timerStart 0 true 5) (.ok 0 []), .api (.taskSubmit 0 true) (.ok 0 []),
        .api (.tcpAccept 1 7) (.ok 0 []), .api (.tcpClose 1) (.ok 0 []), .lib (.ok 0 []),
        .api .ioRun (.ok 0 [])] rfl
    exact ⟨_, _, _, r, rfl, rfl⟩
  obtain ⟨c, timeout, rest, r, hst, hfive⟩ := hplay
  obtain ⟨n, hn, -, -, -, hhead⟩ := refs_accounted r
  exact ⟨c, timeout, rest, r, hst, hfive, n, hn, by rw [← (hhead timeout rest hst).1, hfive]⟩

/-- At the head of the loop `ctx->refs` counts the five kinds of things. -/
def RefsAtHead (c : Cfg) : Prop := ∀ timeout rest, c.stack = .lib (.ioRun timeout) :: rest →
  ∃ n : Account, n.IsOf c.world ∧ c.world.refs = n.total c.world

/-- A `pd_tcp_listen` whose registration fails counts a listener that nothing can call or close; a
stream whose `pd_tcp_connect` failed is resumed, which takes over the registration of the descriptor
that has its number by now, so that the library connects and closes a stream that holds no
reference; and `pd_io_run` is called in `on_close`, which the stream's reference outlives. -/
theorem not_refs_at_head : ¬ (∀ c, Run OpensOnce c → RefsAtHead c) ∧
    ¬ (∀ c, Run (fun c x => OpensOnce c x ∧ AddsRegister c x ∧ RunsOutside c x) c → RefsAtHead c) ∧
    ¬ ∀ c, Run (fun c x => OpensOnce c x ∧ AddsRegister c x ∧ PausesOwn c x) c → RefsAtHead c := by
  refine ⟨fun h => ?_, fun h => ?_, fun h => ?_⟩
  · have hplay : ∃ c timeout rest, Run OpensOnce c ∧ c.stack = .lib (.ioRun timeout) :: rest ∧
        c.world.refs = 1 ∧ c.world.pendingCloses.nodes = [] ∧ c.world.finishedTasks = [] ∧
        c.world.poolTasks = [] ∧ (∀ t, (c.world.timer t).active = false) ∧
        c.world.log = [.ctl (.server 0) 5 .add, .refInc (.server 0)] := by
      have r : Run OpensOnce _ := Run.play (Cfg.start_init [])
        [.api (.tcpListen 0 true) (.failsAt 5 7 ENOMEM (by decide)), .api .ioRun (.ok 0 [])] rfl
      exact ⟨_, _, _, r, rfl, rfl, rfl, rfl, rfl, fun _ => rfl, rfl⟩
    obtain ⟨c, timeout, rest, r, hst, hone, hp, hf, hpool, htimer, hlog⟩ := hplay
    obtain ⟨n, hn, hrefs⟩ := h c r timeout rest hst
    have ht : n.timers = ∅ := Finset.eq_empty_of_forall_notMem fun t ht => by
      have := (hn.timers t).mp ht
      simp [htimer] at this
    have hl : n.listeners = ∅ := Finset.eq_empty_of_forall_notMem fun l hl => by
      have := ((hn.listeners l).mp hl).1
      simp [hlog, isListening] at this
    have hs : n.streams = ∅ := Finset.eq_empty_of_forall_notMem fun s hs => by
      have := ((hn.streams s).mp hs).1
      simp [Opened, hlog, isOpening] at this
    simp [Account.total, ht, hl, hs, hone, hp, hf, hpool] at hrefs
  · have r : Run (fun c x => OpensOnce c x ∧ AddsRegister c x ∧ RunsOutside c x) _ :=
      Run.play (Cfg.start_init [])
        [.api (.tcpConnect 0 false) (.failsAt 5 4 101 (by decide)), .env (.openFd 5),
          .api (.tcpAccept 1 5) (.ok 0 []), .api (.tcpResume 0) (.ok 0 []), .api .ioRun (.ok 0 []),
          .lib (.ok 0 [(5, ⟨false, true, false, false, false⟩)]), .lib (.ok 0 []), .lib (.ok 0 []),
          .lib (.ok 0 []), .lib (.ok 0 []), .lib (.ok 0 []),
          .lib (.ok 0 [(5, ⟨false, false, false, true, false⟩)]), .lib (.ok 0 []), .lib (.ok 0 []),
          .lib (.ok 0 []), .lib (.ok 0 []), .lib (.ok 0 []), .lib (.ok 0 []), .lib (.ok 0 []),
          .lib (.ok 0 []), .lib (.ok 0 [])] rfl
    obtain ⟨n, hn, hrefs⟩ := h _ r _ _ rfl
    have hs : 1 ∈ n.streams := (hn.streams 1).mpr ⟨by decide, by decide⟩
    have hpos := Finset.card_pos.mpr ⟨1, hs⟩
    have hzero : 0 = n.total _ := hrefs
    simp only [Account.total] at hzero
    omega
  · have hplay : ∃ c timeout rest,
        Run (fun c x => OpensOnce c x ∧ AddsRegister c x ∧ PausesOwn c x) c ∧
        c.stack = .lib (.ioRun timeout) :: rest ∧ c.world.refs = 1 ∧
        c.world.pendingCloses.nodes = [] ∧ c.world.finishedTasks = [] ∧ c.world.poolTasks = [] ∧
        (∀ t, (c.world.timer t).active = false) ∧ (c.world.tcp 0).status = .closed ∧
        c.world.log.filter isOpenOrClose = [.opened 0 5] := by
      have r : Run (fun c x => OpensOnce c x ∧ AddsRegister c x ∧ PausesOwn c x) _ :=
        Run.play (Cfg.start_init [5])
          [.api (.tcpAccept 0 5) (.ok 0 []), .api (.setOnClose 0 true) (.ok 0 []),
            .api (.tcpClose 0) (.ok 0 []), .lib (.ok 0 []), .api .ioRun (.ok 0 []),
            .lib (.ok 0 []), .lib (.ok 0 []), .lib (.ok 0 []), .api .ioRun (.ok 0 [])] rfl
      exact ⟨_, _, _, r, rfl, rfl, rfl, rfl, rfl, fun _ => rfl, rfl, rfl⟩
    obtain ⟨c, timeout, rest, r, hst, hone, hp, hf, hpool, htimer, hcl, hlog⟩ := hplay
    obtain ⟨n, hn, hrefs⟩ := h c r timeout rest hst
    have hmem : ∀ o ∈ c.world.log, isOpenOrClose o = true → o = .opened 0 5 := by
      intro o hm ho
      have : o ∈ c.world.log.filter isOpenOrClose := List.mem_filter.mpr ⟨hm, ho⟩
      simpa [hlog] using this
    have ht : n.timers = ∅ := Finset.eq_empty_of_forall_notMem fun t ht => by
      have := (hn.timers t).mp ht
      simp [htimer] at this
    have hl : n.listeners = ∅ := Finset.eq_empty_of_forall_notMem fun l hl => by
      obtain ⟨o, ho, hlis⟩ := ((hn.listeners l).mp hl).1
      cases o with
      | listening l' fd => cases hmem _ ho rfl
      | _ => cases hlis
    have hs : n.streams = ∅ := Finset.eq_empty_of_forall_notMem fun s hs => by
      obtain ⟨⟨o, ho, hopen⟩, hne⟩ := (hn.streams s).mp hs
      cases o with
      | opened s' fd =>
        cases hmem _ ho rfl
        obtain rfl : 0 = s := by simpa [isOpening] using hopen
        exact hne hcl
      | _ => cases hopen
    simp [Account.total, ht, hl, hs, hone, hp, hf, hpool] at hrefs

end

end Pandio
