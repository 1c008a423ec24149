import Pandio.Lib.IntrusiveQueue
import Pandio.Lib.Reach

/- Every history of any number of queues of include/pandio/queue.h over one memory.
   The nodes carry the links, so the queues share them, and a node that leaves one
   queue may enter another. Beside the memory the history keeps the list of each
   queue, as push and pop change it; what is shown is that the links are those of
   the lists, and that the next call returns what the lists say.

   Correspondence (C ↔ Lean):
     `struct queue`, all of them, with their nodes ↔ `Queues`
     `queue_init_node`                             ↔ `QueueCall.initNode`
     `queue_push`, `queue_pop`                     ↔ `QueueCall.push`, `QueueCall.pop`
     `queue_peek`                                  ↔ `queuePeek` -/
namespace Pandio
open IntrusiveQueue

/-! ## Queues over one memory -/

/-- The queues named by `ι`, with the links of all nodes. -/
structure Queues (ι α : Type) where
  head : ι → Option α
  tail : ι → Option α
  next : α → Option α
  prev : α → Option α

variable {ι α : Type}

namespace Queues

/-- One of the queues, with the memory. -/
def queue (Q : Queues ι α) (i : ι) : IntrusiveQueue α := ⟨Q.head i, Q.tail i, Q.next, Q.prev⟩

variable [DecidableEq ι] [DecidableEq α]

/-- One of the queues is written, and the memory. -/
def put (Q : Queues ι α) (i : ι) (q : IntrusiveQueue α) : Queues ι α :=
  { head := Function.update Q.head i q.head, tail := Function.update Q.tail i q.tail
    next := q.next, prev := q.prev }

end Queues

/-- `queue_peek`. -/
def queuePeek (Q : Queues ι α) (i : ι) : Option α := Q.head i

/-- A call on the queues. -/
inductive QueueCall (ι α : Type) where
  | initNode (n : α)
  | push (i : ι) (n : α)
  | pop (i : ι)

section
variable [DecidableEq ι] [DecidableEq α]

/-- A call, with the pointer it returns; `none` is a dereference of NULL. -/
def QueueCall.run (c : QueueCall ι α) (Q : Queues ι α) : Option (Option α × Queues ι α) :=
  match c with
  | .initNode n =>
    some (none, { Q with
      next := Function.update Q.next n none, prev := Function.update Q.prev n none })
  | .push i n => ((Q.queue i).queuePush n).map fun q => (none, Q.put i q)
  | .pop i =>
    if Q.head i = none then some (none, Q)
    else (Q.queue i).queuePop.map fun r => (some r.1, Q.put i r.2)

/-- What the call returns and does, on lists. -/
def QueueCall.onLists (c : QueueCall ι α) (L : ι → List α) : Option α × (ι → List α) :=
  match c with
  | .initNode _ => (none, L)
  | .push i n => (none, Function.update L i (L i ++ [n]))
  | .pop i => ((L i).head?, Function.update L i (L i).tail)

/-- The queues with their lists. -/
abbrev Listed (ι α : Type) := Queues ι α × (ι → List α)

/-- A node that is pushed has NULL links and is in no queue, and so is one that is initialised. -/
def QueueCall.Allowed (s : Listed ι α) (c : QueueCall ι α) : Prop :=
  match c with
  | .initNode n => ∀ i, n ∉ s.2 i
  | .push _ n => s.1.next n = none ∧ s.1.prev n = none ∧ ∀ i, n ∉ s.2 i
  | .pop _ => True

def Listed.step (s : Listed ι α) (c : QueueCall ι α) : Option (Listed ι α) :=
  (c.run s.1).map fun r => (r.2, (c.onLists s.2).2)

/-- After `queue_init` of every queue; the nodes' links are as their owners left them. -/
def Listed.Init (s : Listed ι α) : Prop :=
  (∀ i, (s.1.queue i).head = (queueInit : IntrusiveQueue α).head ∧
    (s.1.queue i).tail = (queueInit : IntrusiveQueue α).tail) ∧ s.2 = fun _ => []

/-- The histories of calls that are allowed. -/
def QueueHistory : Listed ι α → Prop :=
  Machine.Reach Listed.step QueueCall.Allowed Listed.Init

/-! ## Lists in the links -/

/-- Every queue holds the nodes of its list, and no node is in two of them. -/
structure Holds (Q : Queues ι α) (L : ι → List α) : Prop where
  queue : ∀ i, (Q.queue i).Represents (L i)
  first : ∀ i x, (L i).head? = some x → Q.prev x = none
  last : ∀ i x, (L i).getLast? = some x → Q.next x = none
  disjoint : ∀ i j x, x ∈ L i → x ∈ L j → i = j

omit [DecidableEq ι] [DecidableEq α] in
/-- A list depends on its own nodes' links only. -/
theorem represents_congr {q q' : IntrusiveQueue α} {l : List α} (h : q.Represents l)
    (hhead : q'.head = q.head) (htail : q'.tail = q.tail)
    (hlinks : ∀ x ∈ l, q'.next x = q.next x ∧ q'.prev x = q.prev x) : q'.Represents l := by
  refine ⟨hhead.trans h.head, htail.trans h.tail, h.nodup, h.linked.imp_of_mem_imp ?_⟩
  intro a b ha hb hab
  rw [(hlinks a ha).1, (hlinks b hb).2]
  exact hab

/-- Going along a link `k` times. -/
def along (link : α → Option α) (k : Nat) (start : Option α) : Option α :=
  (fun o => o.bind link)^[k] start

omit [DecidableEq ι] [DecidableEq α] in
theorem along_none (link : α → Option α) (k : Nat) : along link k none = none := by
  induction k with
  | zero => rfl
  | succ k ih => rw [along, Function.iterate_succ_apply, Option.bind_none]; exact ih

omit [DecidableEq ι] [DecidableEq α] in
/-- The links of a chain lead through its nodes in order and to NULL after the last. -/
theorem along_chain {link : α → Option α} {l : List α}
    (hchain : l.IsChain fun a b => link a = some b)
    (hlast : ∀ x, l.getLast? = some x → link x = none) (k : Nat) :
    along link k l.head? = l[k]? := by
  induction l generalizing k with
  | nil =>
    rw [List.head?_nil, along_none]
    rfl
  | cons a l ih =>
    cases k with
    | zero => rfl
    | succ k =>
      have hnext : link a = l.head? := by
        cases l with
        | nil => exact hlast a rfl
        | cons b l => exact (List.isChain_cons_cons.mp hchain).1
      have hrest : ∀ x, l.getLast? = some x → link x = none := by
        intro x hx
        apply hlast
        rw [List.getLast?_cons, hx]
        rfl
      have hih := ih hchain.tail hrest k
      rw [List.head?_cons, along, Function.iterate_succ_apply, Option.bind_some, hnext]
      exact hih

/-- A queue in terms of its links alone: from the head they lead through the list, back from the
tail through the list in reverse, and to NULL at both ends. -/
structure Linked (Q : Queues ι α) (i : ι) (l : List α) : Prop where
  nodup : l.Nodup
  forward : ∀ k, along Q.next k (Q.head i) = l[k]?
  backward : ∀ k, along Q.prev k (Q.tail i) = l.reverse[k]?
  ends : Q.head i = none ↔ Q.tail i = none
  head_prev : ∀ x, Q.head i = some x → Q.prev x = none
  tail_next : ∀ x, Q.tail i = some x → Q.next x = none
  peek : queuePeek Q i = l.head?

omit [DecidableEq ι] [DecidableEq α] in
theorem Holds.linked {Q : Queues ι α} {L : ι → List α} (h : Holds Q L) (i : ι) :
    Linked Q i (L i) := by
  have hq := h.queue i
  have hhead : Q.head i = (L i).head? := hq.head
  have htail : Q.tail i = (L i).getLast? := hq.tail
  refine ⟨hq.nodup, fun k => ?_, fun k => ?_, ?_, ?_, ?_, hhead⟩
  · rw [hhead]
    exact along_chain (hq.linked.imp fun a b hab => hab.1) (h.last i) k
  · rw [htail, ← List.head?_reverse]
    apply along_chain
    · rw [List.isChain_reverse]
      exact hq.linked.imp fun a b hab => hab.2
    · intro x hx
      rw [List.getLast?_reverse] at hx
      exact h.first i x hx
  · rw [hhead, htail, List.head?_eq_none_iff, List.getLast?_eq_none_iff]
  · rw [hhead]
    exact h.first i
  · rw [htail]
    exact h.last i

/-! ## The links a call writes -/

section
variable {q q' : IntrusiveQueue α} {n : α}

omit [DecidableEq ι] in
theorem queuePush_links (h : q.queuePush n = some q') (x : α) :
    q'.next x = (if q.head ≠ none ∧ q.tail = some x then some n else q.next x) ∧
      q'.prev x = (if q.head ≠ none ∧ x = n then q.tail else q.prev x) := by
  unfold queuePush at h
  split at h
  · rename_i hhead
    cases h
    simp [hhead]
  · rename_i hhead
    split at h
    · cases h
    · rename_i t htail
      cases h
      simp [hhead, htail, Function.update_apply, eq_comm]

omit [DecidableEq ι] in
theorem queuePop_links (h : q.queuePop = some (n, q')) (x : α) :
    q.head = some n ∧ q'.next x = (if x = n then none else q.next x) ∧
      q'.prev x =
        (if x = n ∨ q.head ≠ q.tail ∧ q.next n = some x then none else q.prev x) := by
  unfold queuePop at h
  split at h
  · cases h
  · rename_i found hhead
    split at h
    · rename_i hsame
      cases h
      refine ⟨hhead, ?_, ?_⟩
      · simp [queueInitNode, Function.update_apply]
      · simp [queueInitNode, Function.update_apply, hsame]
    · rename_i hdiff
      split at h
      · cases h
      · rename_i m hnext
        cases h
        refine ⟨hhead, ?_, ?_⟩
        · simp [queueInitNode, Function.update_apply]
        · by_cases hx : x = n
          · simp [queueInitNode, hx]
          · by_cases hm : x = m
            · simp [queueInitNode, hm, hdiff, hnext, Function.update_apply]
            · simp [queueInitNode, hx, hm, hnext, Ne.symm hm]

end

omit [DecidableEq α] in
@[simp] theorem put_queue (Q : Queues ι α) (i : ι) (q : IntrusiveQueue α) :
    (Q.put i q).queue i = q := by
  simp [Queues.put, Queues.queue]

omit [DecidableEq α] in
theorem put_queue_ne (Q : Queues ι α) {i j : ι} (hj : j ≠ i) (q : IntrusiveQueue α) :
    (Q.put i q).queue j = ⟨Q.head j, Q.tail j, q.next, q.prev⟩ := by
  simp [Queues.put, Queues.queue, hj]

/-! ## Steps -/

/-- The queue is as it was: the pointers to its ends and the links of its nodes. -/
def Untouched (Q Q' : Queues ι α) (L : ι → List α) (j : ι) : Prop :=
  Q'.head j = Q.head j ∧ Q'.tail j = Q.tail j ∧
    ∀ x ∈ L j, Q'.next x = Q.next x ∧ Q'.prev x = Q.prev x

section
variable {Q : Queues ι α} {L : ι → List α}

/-- A node that is in no queue may have any links. -/
theorem Holds.initNode (h : Holds Q L) {n : α} (hn : ∀ i, n ∉ L i) :
    ∃ Q', (QueueCall.initNode n : QueueCall ι α).run Q = some (none, Q') ∧ Holds Q' L ∧
      Q'.next n = none ∧ Q'.prev n = none ∧ ∀ j, Untouched Q Q' L j := by
  have other : ∀ {i x}, x ∈ L i → x ≠ n := fun hx he => hn _ (he ▸ hx)
  refine ⟨_, rfl, ⟨fun i => ?_, fun i x hx => ?_, fun i x hx => ?_, h.disjoint⟩, ?_, ?_, ?_⟩
  · exact (h.queue i).queueInitNode (hn i)
  · show Function.update Q.prev n none x = none
    rw [Function.update_of_ne (other (List.mem_of_mem_head? hx))]
    exact h.first i x hx
  · show Function.update Q.next n none x = none
    rw [Function.update_of_ne (other (List.mem_of_getLast? hx))]
    exact h.last i x hx
  · exact Function.update_self ..
  · exact Function.update_self ..
  · intro j
    refine ⟨rfl, rfl, fun x hx => ?_⟩
    exact ⟨Function.update_of_ne (other hx) .., Function.update_of_ne (other hx) ..⟩

/-- **`queue_push`** of a node with NULL links that is in no queue. -/
theorem Holds.push (h : Holds Q L) {i : ι} {n : α} (hnext : Q.next n = none)
    (hprev : Q.prev n = none) (hn : ∀ i, n ∉ L i) :
    ∃ Q', (QueueCall.push i n).run Q = some (none, Q') ∧
      Holds Q' (Function.update L i (L i ++ [n])) ∧ ∀ j, j ≠ i → Untouched Q Q' L j := by
  obtain ⟨q', hpush, hrep⟩ := (h.queue i).push (hn i)
  have hlinks := queuePush_links hpush
  have htail : (Q.queue i).tail = (L i).getLast? := (h.queue i).tail
  have hhead : (Q.queue i).head = (L i).head? := (h.queue i).head
  have other : ∀ {j x}, x ∈ L j → x ≠ n := fun hx he => hn _ (he ▸ hx)
  -- only the last node of queue `i` gets a new `next`, and only `n` a new `prev`
  have hkept : ∀ x, x ≠ n → x ∉ L i → q'.next x = Q.next x ∧ q'.prev x = Q.prev x := by
    intro x hxn hxi
    obtain ⟨h1, h2⟩ := hlinks x
    rw [if_neg] at h1 h2
    · exact ⟨h1, h2⟩
    · exact fun hand => hxn hand.2
    · rintro ⟨-, ht⟩
      rw [htail] at ht
      exact hxi (List.mem_of_getLast? ht)
  have hkept' : ∀ j, j ≠ i → ∀ x ∈ L j, q'.next x = Q.next x ∧ q'.prev x = Q.prev x := by
    intro j hj x hx
    exact hkept x (other hx) fun hxi => hj (h.disjoint j i x hx hxi)
  refine ⟨Q.put i q', by simp [QueueCall.run, hpush], ⟨fun j => ?_, fun j x hx => ?_,
    fun j x hx => ?_, ?_⟩, fun j hj => ?_⟩
  · by_cases hj : j = i
    · subst hj
      rw [put_queue, Function.update_self]
      exact hrep
    · rw [put_queue_ne Q hj, Function.update_of_ne hj]
      exact represents_congr (h.queue j) rfl rfl (hkept' j hj)
  · show q'.prev x = none
    by_cases hj : j = i
    · subst hj
      rw [Function.update_self] at hx
      rw [(hlinks x).2]
      cases hl : L j with
      | nil =>
        rw [hl] at hx hhead
        cases hx
        rw [if_neg (fun hand => hand.1 hhead)]
        exact hprev
      | cons a l =>
        rw [hl] at hx
        have hxa : (L j).head? = some x := by rw [hl]; exact hx
        rw [if_neg (fun hand => other (List.mem_of_mem_head? hxa) hand.2)]
        exact h.first j x hxa
    · rw [Function.update_of_ne hj] at hx
      rw [(hkept' j hj x (List.mem_of_mem_head? hx)).2]
      exact h.first j x hx
  · show q'.next x = none
    by_cases hj : j = i
    · subst hj
      rw [Function.update_self, List.getLast?_concat, Option.some.injEq] at hx
      subst hx
      rw [(hlinks n).1, if_neg]
      · exact hnext
      · rintro ⟨-, ht⟩
        rw [htail] at ht
        exact hn j (List.mem_of_getLast? ht)
    · rw [Function.update_of_ne hj] at hx
      rw [(hkept' j hj x (List.mem_of_getLast? hx)).1]
      exact h.last j x hx
  · -- the new node is in queue `i` only
    have hmem : ∀ {j x}, x ∈ Function.update L i (L i ++ [n]) j → x ∈ L j ∨ j = i ∧ x = n := by
      intro j x hx
      by_cases hj : j = i
      · subst hj
        rw [Function.update_self] at hx
        rcases List.mem_append.mp hx with hx | hx
        · exact .inl hx
        · exact .inr ⟨rfl, List.mem_singleton.mp hx⟩
      · rw [Function.update_of_ne hj] at hx
        exact .inl hx
    intro j k x hj hk
    rcases hmem hj with hj1 | ⟨hji, hxn⟩
    · rcases hmem hk with hk1 | ⟨_, hxn⟩
      · exact h.disjoint j k x hj1 hk1
      · exact absurd (hxn ▸ hj1) (hn j)
    · rcases hmem hk with hk1 | ⟨hki, _⟩
      · exact absurd (hxn ▸ hk1) (hn k)
      · rw [hji, hki]
  · exact ⟨Function.update_of_ne hj .., Function.update_of_ne hj .., hkept' j hj⟩

/-- **`queue_pop`** of a queue that is not empty. -/
theorem Holds.pop (h : Holds Q L) {i : ι} {n : α} {l : List α} (hl : L i = n :: l) :
    ∃ Q', (QueueCall.pop i).run Q = some (some n, Q') ∧ Holds Q' (Function.update L i l) ∧
      Q'.next n = none ∧ Q'.prev n = none ∧ ∀ j, j ≠ i → Untouched Q Q' L j := by
  have hrepr := h.queue i
  rw [hl] at hrepr
  obtain ⟨q', hpop, hrep⟩ := hrepr.pop
  have hlinks := queuePop_links hpop
  have hnodup : n ∉ l := (List.nodup_cons.mp hrepr.nodup).1
  have hmem : n ∈ L i := by rw [hl]; exact List.mem_cons_self
  have hin : ∀ {x}, x ∈ l → x ∈ L i := fun hx => by rw [hl]; exact List.mem_cons_of_mem _ hx
  -- the node after the first is in the same queue
  have hsecond : ∀ x, Q.head i ≠ Q.tail i → Q.next n = some x → l.head? = some x := by
    intro x hdiff hx
    cases l with
    | nil =>
      refine absurd ?_ hdiff
      show (Q.queue i).head = (Q.queue i).tail
      rw [hrepr.head, hrepr.tail]
      rfl
    | cons m l =>
      have hm : Q.next n = some m := (List.isChain_cons_cons.mp hrepr.linked).1.1
      rw [← hx, hm]
      rfl
  have hkept : ∀ j, j ≠ i → ∀ x ∈ L j, q'.next x = Q.next x ∧ q'.prev x = Q.prev x := by
    intro j hj x hx
    have hxn : x ≠ n := fun he => hj (h.disjoint j i x hx (he ▸ hmem))
    obtain ⟨-, h1, h2⟩ := hlinks x
    rw [if_neg hxn] at h1
    rw [if_neg] at h2
    · exact ⟨h1, h2⟩
    · rintro (he | ⟨hdiff, hsnd⟩)
      · exact hxn he
      · exact hj (h.disjoint j i x hx (hin (List.mem_of_mem_head? (hsecond x hdiff hsnd))))
  have hrun : (QueueCall.pop i).run Q = some (some n, Q.put i q') := by
    have hhead : Q.head i = some n := (hlinks n).1
    simp [QueueCall.run, hhead, hpop]
  have hnone : q'.next n = none ∧ q'.prev n = none := by
    obtain ⟨-, h1, h2⟩ := hlinks n
    rw [if_pos rfl] at h1
    rw [if_pos (.inl rfl)] at h2
    exact ⟨h1, h2⟩
  refine ⟨Q.put i q', hrun, ⟨fun j => ?_, fun j x hx => ?_, fun j x hx => ?_, ?_⟩, hnone.1,
    hnone.2, fun j hj => ?_⟩
  · by_cases hj : j = i
    · subst hj
      rw [put_queue, Function.update_self]
      exact hrep
    · rw [put_queue_ne Q hj, Function.update_of_ne hj]
      exact represents_congr (h.queue j) rfl rfl (hkept j hj)
  · show q'.prev x = none
    by_cases hj : j = i
    · subst hj
      rw [Function.update_self] at hx
      -- the new first node: its link back was cut
      have hdiff : (Q.queue j).head ≠ (Q.queue j).tail := by
        rw [hrepr.head, hrepr.tail]
        cases l with
        | nil => cases hx
        | cons m l =>
          intro he
          rw [List.head?_cons, List.getLast?_cons_cons, eq_comm] at he
          exact hnodup (List.mem_of_getLast? he)
      have hsnd : Q.next n = some x := by
        cases l with
        | nil => cases hx
        | cons m l =>
          cases hx
          exact (List.isChain_cons_cons.mp hrepr.linked).1.1
      rw [(hlinks x).2.2, if_pos (.inr ⟨hdiff, hsnd⟩)]
    · rw [Function.update_of_ne hj] at hx
      rw [(hkept j hj x (List.mem_of_mem_head? hx)).2]
      exact h.first j x hx
  · show q'.next x = none
    by_cases hj : j = i
    · subst hj
      rw [Function.update_self] at hx
      have hxl := List.mem_of_getLast? hx
      have hxn : x ≠ n := fun he => hnodup (he ▸ hxl)
      rw [(hlinks x).2.1, if_neg hxn]
      apply h.last j
      rw [hl, List.getLast?_cons, hx]
      rfl
    · rw [Function.update_of_ne hj] at hx
      rw [(hkept j hj x (List.mem_of_getLast? hx)).1]
      exact h.last j x hx
  · have hsub : ∀ {j x}, x ∈ Function.update L i l j → x ∈ L j := by
      intro j x hx
      by_cases hj : j = i
      · subst hj
        rw [Function.update_self] at hx
        exact hin hx
      · rwa [Function.update_of_ne hj] at hx
    exact fun j k x hj hk => h.disjoint j k x (hsub hj) (hsub hk)
  · exact ⟨Function.update_of_ne hj .., Function.update_of_ne hj .., hkept j hj⟩

end

/-! ## Histories -/

/-- The queue a call is about. -/
def QueueCall.queue : QueueCall ι α → Option ι
  | .initNode _ => none
  | .push i _ | .pop i => some i

/-- The node a call gives NULL links. -/
def QueueCall.cleared (c : QueueCall ι α) (L : ι → List α) : Option α :=
  match c with
  | .initNode n => some n
  | .push _ _ => none
  | .pop i => (L i).head?

/-- What the call does to queues that hold the lists: it returns what the lists say, the queues hold
the new lists, the node it initialises or pops is in none of them and has NULL links, and the other
queues are as they were. -/
structure CallRefines (Q : Queues ι α) (L : ι → List α) (c : QueueCall ι α) (Q' : Queues ι α) :
    Prop where
  run : c.run Q = some ((c.onLists L).1, Q')
  holds : Holds Q' (c.onLists L).2
  cleared : ∀ n ∈ c.cleared L, Q'.next n = none ∧ Q'.prev n = none ∧ ∀ i, n ∉ (c.onLists L).2 i
  others : ∀ j, c.queue ≠ some j → Untouched Q Q' L j

theorem Holds.call {s : Listed ι α} (h : Holds s.1 s.2) {c : QueueCall ι α} (hc : c.Allowed s) :
    ∃ Q', CallRefines s.1 s.2 c Q' := by
  cases c with
  | initNode n =>
    obtain ⟨Q', hrun, hholds, hnext, hprev, hrest⟩ := h.initNode hc
    refine ⟨Q', hrun, hholds, ?_, fun j _ => hrest j⟩
    intro m hm
    cases hm
    exact ⟨hnext, hprev, hc⟩
  | push i n =>
    obtain ⟨hnext, hprev, hn⟩ := hc
    obtain ⟨Q', hrun, hholds, hrest⟩ := h.push (i := i) hnext hprev hn
    refine ⟨Q', hrun, hholds, ?_, fun j hj => hrest j fun he => hj (he ▸ rfl)⟩
    intro m hm
    cases hm
  | pop i =>
    cases hl : s.2 i with
    | nil =>
      have hhead : s.1.head i = none := by
        have hq := (h.queue i).head
        rw [hl] at hq
        exact hq
      have hlists : (QueueCall.pop i).onLists s.2 = (none, s.2) := by
        have hsame : Function.update s.2 i [] = s.2 := by
          rw [← hl]
          exact Function.update_eq_self ..
        simp only [QueueCall.onLists, hl, List.head?_nil, List.tail_nil, hsame]
      refine ⟨s.1, ?_, ?_, ?_, fun j _ => ⟨rfl, rfl, fun x _ => ⟨rfl, rfl⟩⟩⟩
      · rw [hlists]
        simp [QueueCall.run, hhead]
      · rw [hlists]
        exact h
      · intro m hm
        simp [QueueCall.cleared, hl] at hm
    | cons n l =>
      obtain ⟨Q', hrun, hholds, hnext, hprev, hrest⟩ := h.pop hl
      have hlists : (QueueCall.pop i).onLists s.2 = (some n, Function.update s.2 i l) := by
        simp only [QueueCall.onLists, hl, List.head?_cons, List.tail_cons]
      refine ⟨Q', ?_, ?_, ?_, fun j hj => hrest j fun he => hj (he ▸ rfl)⟩
      · rw [hlists]
        exact hrun
      · rw [hlists]
        exact hholds
      · intro m hm
        have hmn : n = m := by simpa [QueueCall.cleared, hl] using hm
        subst hmn
        refine ⟨hnext, hprev, fun j hj => ?_⟩
        rw [hlists] at hj
        have hj : n ∈ Function.update s.2 i l j := hj
        by_cases hji : j = i
        · subst hji
          have hq := (h.queue j).nodup
          rw [hl] at hq
          rw [Function.update_self] at hj
          exact (List.nodup_cons.mp hq).1 hj
        · rw [Function.update_of_ne hji] at hj
          exact hji (h.disjoint j i n hj (by rw [hl]; exact List.mem_cons_self))

theorem QueueHistory.holds {s : Listed ι α} (r : QueueHistory s) : Holds s.1 s.2 := by
  apply Machine.Reach.invariant (P := fun s : Listed ι α => Holds s.1 s.2) _ _ r
  · rintro ⟨Q, L⟩ ⟨hinit, hL⟩
    cases hL
    refine ⟨fun i => ⟨(hinit i).1, (hinit i).2, .nil, .nil⟩, ?_, ?_, ?_⟩
    · intro i x hx
      cases hx
    · intro i x hx
      cases hx
    · intro i j x hx
      cases hx
  · intro s c s' _ h hc hs
    obtain ⟨Q', hrefines⟩ := h.call hc
    obtain ⟨r, hr, rfl⟩ := Option.map_eq_some_iff.mp hs
    rw [hrefines.run] at hr
    cases hr
    exact hrefines.holds

/-- **The queues are FIFO lists**, after every history: their links are those of their lists, in
which no node is twice, and every call that is allowed next does on them what it does on lists. -/
theorem queue_history {s : Listed ι α} (r : QueueHistory s) :
    (∀ i, Linked s.1 i (s.2 i)) ∧ (∀ i j x, x ∈ s.2 i → x ∈ s.2 j → i = j) ∧
      ∀ c : QueueCall ι α, c.Allowed s → ∃ Q', CallRefines s.1 s.2 c Q' :=
  ⟨r.holds.linked, r.holds.disjoint, fun _ hc => r.holds.call hc⟩

/-- Two nodes are pushed into one queue, and the first moves to the other. -/
theorem queue_history_moved : ∃ s : Listed Bool Nat, QueueHistory s ∧
    s.2 false = [2] ∧ s.2 true = [1] ∧ Linked s.1 true [1] := by
  let empty : Listed Bool Nat := (⟨fun _ => none, fun _ => none, fun _ => none, fun _ => none⟩,
    fun _ => [])
  have h0 : QueueHistory empty := .init ⟨fun _ => ⟨rfl, rfl⟩, rfl⟩
  have h1 := h0.step (a := QueueCall.push false 1) (by exact ⟨rfl, rfl, by simp [empty]⟩) rfl
  have h2 := h1.step (a := QueueCall.push false 2) (by exact ⟨rfl, rfl, by decide⟩) rfl
  have h3 := h2.step (a := QueueCall.pop false) (by exact trivial) rfl
  have h4 := h3.step (a := QueueCall.push true 1) (by exact ⟨rfl, rfl, by decide⟩) rfl
  exact ⟨_, h4, rfl, rfl, (queue_history h4).1 true⟩

end

end Pandio
