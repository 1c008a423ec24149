import Mathlib

/- A queue whose nodes carry the links, as in include/pandio/queue.h: `next` and
   `prev` are the fields of the nodes, `none` is NULL, and a function that would
   dereference NULL gives `none`. A node is in the queue once or not at all as long
   as no node is pushed that is in it; then the queue is the list of its nodes. A node
   that is initialised and pushed again while it is in the queue cuts off what stood
   behind it: the links still lead from the head to the tail, but past fewer nodes.

   Correspondence (C ↔ Lean):
     `queue_init`, `queue_init_node` ↔ `queueInit`, `queueInitNode`
     `queue_empty`                   ↔ `queueEmpty`
     `queue_push`, `queue_pop`       ↔ `queuePush`, `queuePop` -/

/-- A queue, with the links of all nodes. -/
structure IntrusiveQueue (α : Type) where
  head : Option α
  tail : Option α
  next : α → Option α
  prev : α → Option α

namespace IntrusiveQueue

variable {α : Type} [DecidableEq α]

/-! ## The operations -/

/-- `queue_init`; the links of nodes that are not in a queue are of no interest. -/
def queueInit : IntrusiveQueue α :=
  { head := none, tail := none, next := fun _ => none, prev := fun _ => none }

variable (q : IntrusiveQueue α)

/-- `queue_init_node`. -/
def queueInitNode (node : α) : IntrusiveQueue α :=
  { q with next := Function.update q.next node none, prev := Function.update q.prev node none }

/-- `queue_empty`. -/
def queueEmpty : Bool := q.head.isNone && q.tail.isNone

/-- `queue_push`. -/
def queuePush (node : α) : Option (IntrusiveQueue α) :=
  match q.head with
  | none => some { q with head := some node, tail := some node }
  | some _ =>
    match q.tail with
    | none => none
    | some tail =>
      some { q with
        next := Function.update q.next tail (some node)
        prev := Function.update q.prev node (some tail)
        tail := some node }

/-- `queue_pop`, of a queue that is not empty. -/
def queuePop : Option (α × IntrusiveQueue α) :=
  match q.head with
  | none => none
  | some found =>
    if q.head = q.tail then
      some (found, { q.queueInitNode found with head := none, tail := none })
    else
      match q.next found with
      | none => none
      | some head =>
        let q := { q with head := some head, prev := Function.update q.prev head none }
        some (found, q.queueInitNode found)

/-! ## The list of the nodes -/

/-- The queue holds the nodes of the list, each once and in this order. -/
structure Represents (l : List α) : Prop where
  head : q.head = l.head?
  tail : q.tail = l.getLast?
  nodup : l.Nodup
  linked : l.IsChain fun a b => q.next a = some b ∧ q.prev b = some a

variable {q} {l : List α} {n : α}

omit [DecidableEq α] in
theorem Represents.init : (queueInit : IntrusiveQueue α).Represents [] :=
  ⟨rfl, rfl, .nil, .nil⟩

omit [DecidableEq α] in
theorem Represents.queueEmpty (h : q.Represents l) : q.queueEmpty = l.isEmpty := by
  cases l <;> simp [IntrusiveQueue.queueEmpty, h.head, h.tail]

/-- A node's links do not matter to a list without it. -/
theorem Represents.queueInitNode (h : q.Represents l) (hn : n ∉ l) :
    (q.queueInitNode n).Represents l := by
  refine ⟨h.head, h.tail, h.nodup, h.linked.imp_of_mem_imp ?_⟩
  intro a b ha hb hab
  have hna : a ≠ n := fun h => hn (h ▸ ha)
  have hnb : b ≠ n := fun h => hn (h ▸ hb)
  simpa only [IntrusiveQueue.queueInitNode, Function.update_of_ne hna, Function.update_of_ne hnb]
    using hab

/-- **`queue_push` of a new node puts it at the end.** -/
theorem Represents.push (h : q.Represents l) (hn : n ∉ l) :
    ∃ q', q.queuePush n = some q' ∧ q'.Represents (l ++ [n]) := by
  rcases List.eq_nil_or_concat l with rfl | ⟨m, t, rfl⟩
  · refine ⟨{ q with head := some n, tail := some n }, ?_, ?_⟩
    · simp [queuePush, h.head]
    · exact ⟨rfl, rfl, List.nodup_singleton n, .singleton n⟩
  · rw [List.concat_eq_append] at h hn ⊢
    have htail : q.tail = some t := by simp [h.tail]
    obtain ⟨a, ha⟩ : ∃ a, q.head = some a := by
      rw [h.head]
      exact ⟨_, List.head?_eq_some_head (by simp)⟩
    have hpush : q.queuePush n = some
        { head := q.head, tail := some n
          next := Function.update q.next t (some n)
          prev := Function.update q.prev n (some t) } := by
      simp only [queuePush, ha, htail]
    refine ⟨_, hpush, ?_, by simp, ?_, ?_⟩
    · simp [h.head]
    · refine h.nodup.append (List.nodup_singleton n) ?_
      simpa using hn
    · rw [List.append_assoc, List.singleton_append, List.isChain_split]
      refine ⟨?_, by simp [List.isChain_cons_cons]⟩
      -- the old links: none of them leads from the last node
      rw [List.isChain_iff_forall_rel_of_append_cons_cons]
      intro a b l1 l2 hl
      have hab := List.isChain_iff_forall_rel_of_append_cons_cons.mp h.linked hl
      have ham : a ∈ m := by
        have hdrop : m = l1 ++ a :: (b :: l2).dropLast := by
          have hm : (m ++ [t]).dropLast = m := List.dropLast_concat
          rw [← hm, hl]
          simp [List.dropLast_append_of_ne_nil]
        rw [hdrop]
        exact List.mem_append_right _ (List.mem_cons_self ..)
      have hat : a ≠ t := by
        rintro rfl
        exact (List.nodup_append.mp h.nodup).2.2 a ham a (List.mem_singleton_self a) rfl
      have hbn : b ≠ n := by
        rintro rfl
        exact hn (hl ▸ by simp)
      simpa only [Function.update_of_ne hat, Function.update_of_ne hbn] using hab

/-- **`queue_pop` takes the first node.** -/
theorem Represents.pop (h : q.Represents (n :: l)) :
    ∃ q', q.queuePop = some (n, q') ∧ q'.Represents l := by
  have hhead : q.head = some n := h.head
  have hn : n ∉ l := (List.nodup_cons.mp h.nodup).1
  cases l with
  | nil =>
    have htail : q.tail = some n := h.tail
    have hpop : q.queuePop =
        some (n, { q.queueInitNode n with head := none, tail := none }) := by
      simp only [queuePop, hhead, htail, if_pos]
    exact ⟨_, hpop, rfl, rfl, .nil, .nil⟩
  | cons m l =>
    have hne : ¬ q.head = q.tail := by
      rw [hhead, h.tail, List.getLast?_cons_cons, List.getLast?_eq_some_getLast (by simp)]
      intro hlast
      exact hn (Option.some.inj hlast ▸ List.getLast_mem (by simp))
    have hnext : q.next n = some m := (List.isChain_cons_cons.mp h.linked).1.1
    -- the queue from the second node on, whose link back is cut
    let q1 : IntrusiveQueue α :=
      { q with head := some m, prev := Function.update q.prev m none }
    have hpop : q.queuePop = some (n, q1.queueInitNode n) := by
      simp only [queuePop, hhead, hnext]
      rw [if_neg (by rw [← hhead]; exact hne)]
    have hnodup := (List.nodup_cons.mp h.nodup).2
    have hrest : q1.Represents (m :: l) := by
      refine ⟨rfl, ?_, hnodup, ?_⟩
      · show q.tail = _
        rw [h.tail, List.getLast?_cons_cons]
      · apply (List.isChain_cons_cons.mp h.linked).2.imp_of_mem_tail_imp
        intro a b _ hb hab
        have hbm : b ≠ m := fun h => (List.nodup_cons.mp hnodup).1 (h ▸ hb)
        simpa only [q1, Function.update_of_ne hbm] using hab
    exact ⟨_, hpop, hrest.queueInitNode hn⟩

/-! ## Nodes that are pushed again -/

/-- The links lead from the head past the nodes of the list to the tail. -/
structure Linked (q : IntrusiveQueue α) (l : List α) : Prop where
  head : q.head = l.head?
  tail : q.tail = l.getLast?
  nodup : l.Nodup
  next : l.IsChain fun a b => q.next a = some b

omit [DecidableEq α] in
theorem Linked.init : (queueInit : IntrusiveQueue α).Linked [] := ⟨rfl, rfl, .nil, .nil⟩

omit [DecidableEq α] in
theorem Linked.queueEmpty (h : q.Linked l) : q.queueEmpty = l.isEmpty := by
  cases l <;> simp [IntrusiveQueue.queueEmpty, h.head, h.tail]

omit [DecidableEq α] in
/-- Links that lead past the nodes before the last one. -/
theorem chain_congr {f g : α → Option α} (h : (l ++ [n]).IsChain fun a b => f a = some b)
    (hfg : ∀ a ∈ l, g a = f a) : (l ++ [n]).IsChain fun a b => g a = some b := by
  induction l with
  | nil => exact .singleton n
  | cons a l ih =>
    have hrest := ih h.tail fun b hb => hfg b (List.mem_cons_of_mem a hb)
    rw [List.cons_append, List.isChain_cons] at h ⊢
    refine ⟨fun b hb => ?_, hrest⟩
    rw [hfg a (List.mem_cons_self ..)]
    exact h.1 b hb

/-- **`queue_push` of any node, after `queue_init_node`**: what stood behind the node is lost. -/
theorem Linked.push (h : q.Linked l) (n : α) : ∃ q', (q.queueInitNode n).queuePush n = some q' ∧
    q'.Linked (l.takeWhile (· ≠ n) ++ [n]) := by
  rcases List.eq_nil_or_concat l with rfl | ⟨m, t, hl⟩
  · refine ⟨{ q.queueInitNode n with head := some n, tail := some n }, ?_, ?_⟩
    · simp [queuePush, queueInitNode, h.head]
    · exact ⟨rfl, rfl, List.nodup_singleton n, .singleton n⟩
  · rw [List.concat_eq_append] at hl
    have htail : q.tail = some t := by simp [h.tail, hl]
    obtain ⟨a, ha⟩ : ∃ a, q.head = some a := by
      rw [h.head, hl]
      exact ⟨_, List.head?_eq_some_head (by simp)⟩
    have hpush : (q.queueInitNode n).queuePush n = some
        { head := q.head, tail := some n
          next := Function.update (Function.update q.next n none) t (some n)
          prev := Function.update (Function.update q.prev n none) n (some t) } := by
      simp only [queuePush, queueInitNode, ha, htail]
    have hsplit : l.takeWhile (· ≠ n) ++ l.dropWhile (· ≠ n) = l := List.takeWhile_append_dropWhile
    have hne : ∀ b ∈ l.takeWhile (· ≠ n), b ≠ n := fun b hb => by
      simpa using List.mem_takeWhile_imp hb
    have hnodup : (l.takeWhile (· ≠ n) ++ [n]).Nodup := by
      refine (h.nodup.sublist (List.takeWhile_sublist _)).append (List.nodup_singleton n) ?_
      exact List.disjoint_singleton.mpr fun hn => hne n hn rfl
    -- the nodes before `n` keep their links, but for the tail
    have hkeep : ∀ b ∈ l.takeWhile (· ≠ n), b ≠ t →
        Function.update (Function.update q.next n none) t (some n) b = q.next b := by
      intro b hb hbt
      rw [Function.update_of_ne hbt, Function.update_of_ne (hne b hb)]
    have hchain := h.next
    have hdis := h.nodup
    refine ⟨_, hpush, ?_⟩
    cases hd : l.dropWhile (· ≠ n) with
    | nil =>
      -- a new node: the old tail gets a link to it
      rw [hd, List.append_nil] at hsplit
      rw [hsplit] at hnodup hkeep ⊢
      refine ⟨by simp [h.head, hl], by simp, hnodup, ?_⟩
      rw [hl] at hchain hdis hkeep ⊢
      rw [List.append_assoc, List.singleton_append, List.isChain_split]
      refine ⟨chain_congr hchain fun b hb => ?_, by simp [List.isChain_cons_cons]⟩
      refine hkeep b (List.mem_append_left _ hb) ?_
      rintro rfl
      exact (List.nodup_append.mp hdis).2.2 b hb b (List.mem_singleton_self b) rfl
    | cons b r =>
      -- the node is in the queue: the old tail is the node, or stands behind it
      have hb : b = n := by
        have := List.head?_dropWhile_not (· ≠ n) l
        rw [hd] at this
        simpa using this
      subst hb
      rw [hd] at hsplit
      have hbehind : t ∈ b :: r := by
        have hlast : l.getLast? = (b :: r).getLast? := by
          rw [← hsplit, List.getLast?_append_of_ne_nil _ (by simp)]
        rw [← h.tail, htail] at hlast
        exact List.mem_of_getLast? hlast.symm
      rw [← hsplit] at hchain hdis
      refine ⟨?_, by simp, hnodup, ?_⟩
      · rw [h.head]
        conv_lhs => rw [← hsplit]
        cases l.takeWhile (· ≠ b) <;> rfl
      · refine chain_congr (List.isChain_split.mp hchain).1 fun c hc => ?_
        exact hkeep c hc fun hct => (List.nodup_append.mp hdis).2.2 c hc t hbehind hct

/-- **`queue_pop` takes the first node**, if there is one. -/
theorem Linked.pop {q' : IntrusiveQueue α} (h : q.Linked l) (hq : q.queuePop = some (n, q')) :
    l.head? = some n ∧ q'.Linked l.tail := by
  cases l with
  | nil =>
    simp [queuePop, h.head] at hq
  | cons m l =>
    have hhead : q.head = some m := h.head
    have hm : m ∉ l := (List.nodup_cons.mp h.nodup).1
    cases l with
    | nil =>
      have htail : q.tail = some m := h.tail
      simp only [queuePop, hhead, htail, if_pos, Option.some.injEq, Prod.mk.injEq] at hq
      obtain ⟨rfl, rfl⟩ := hq
      exact ⟨rfl, rfl, rfl, .nil, .nil⟩
    | cons k l =>
      have hne : ¬ some m = q.tail := by
        rw [h.tail, List.getLast?_cons_cons, List.getLast?_eq_some_getLast (by simp)]
        intro hlast
        exact hm (Option.some.inj hlast ▸ List.getLast_mem (by simp))
      have hnext : q.next m = some k := (List.isChain_cons_cons.mp h.next).1
      simp only [queuePop, hhead, hnext, if_neg hne, Option.some.injEq, Prod.mk.injEq] at hq
      obtain ⟨rfl, rfl⟩ := hq
      refine ⟨rfl, rfl, ?_, h.nodup.of_cons, ?_⟩
      · show q.tail = _
        rw [h.tail, List.getLast?_cons_cons]
        rfl
      · apply h.next.tail.imp_of_mem_imp
        intro a b ha _ hab
        have ham : a ≠ m := fun he => hm (he ▸ ha)
        simpa only [queueInitNode, Function.update_of_ne ham] using hab

omit [DecidableEq α] in
theorem Linked.queuePop_none [DecidableEq α] (h : q.Linked l) : q.queuePop = none ↔ l = [] := by
  constructor
  · intro hq
    match l, h with
    | [], _ => rfl
    | [m], h => simp [queuePop, h.head, h.tail] at hq
    | m :: k :: l, h =>
      have hnext : q.next m = some k := (List.isChain_cons_cons.mp h.next).1
      simp only [queuePop, h.head, List.head?_cons, hnext] at hq
      split at hq <;> cases hq
  · rintro rfl
    simp [queuePop, h.head]

end IntrusiveQueue

/-- A queue whose links lead from the head to the tail, with the nodes they lead past. -/
structure LinkedQueue (α : Type) [DecidableEq α] where
  queue : IntrusiveQueue α
  nodes : List α
  linked : queue.Linked nodes

namespace LinkedQueue

variable {α : Type} [DecidableEq α] (q : LinkedQueue α) {q' : LinkedQueue α} {n : α}

/-- `queue_init`. -/
def init : LinkedQueue α := ⟨.queueInit, [], .init⟩

/-- `queue_init_node` and `queue_push`. -/
def push (n : α) : LinkedQueue α where
  queue := ((q.queue.queueInitNode n).queuePush n).get (by
    obtain ⟨q', hq, _⟩ := q.linked.push n
    simp [hq])
  nodes := q.nodes.takeWhile (· ≠ n) ++ [n]
  linked := by
    obtain ⟨q', hq, hl⟩ := q.linked.push n
    simpa [hq] using hl

/-- `queue_pop`, or `none` when the queue is empty. -/
def pop : Option (α × LinkedQueue α) :=
  match h : q.queue.queuePop with
  | none => none
  | some (n, q') => some (n, ⟨q', q.nodes.tail, (q.linked.pop h).2⟩)

variable {q}

theorem pop_none : q.pop = none ↔ q.queue.queueEmpty = true := by
  rw [q.linked.queueEmpty, List.isEmpty_iff, ← q.linked.queuePop_none, pop]
  split <;> simp_all

theorem pop_nodes (h : q.pop = some (n, q')) : q.nodes = n :: q'.nodes := by
  unfold pop at h
  split at h
  · cases h
  · rename_i hq
    cases h
    exact List.eq_cons_of_mem_head? (q.linked.pop hq).1

theorem nodes_pop_none (h : q.pop = none) : q.nodes = [] := by
  rw [pop_none, q.linked.queueEmpty] at h
  simpa using h

end LinkedQueue
