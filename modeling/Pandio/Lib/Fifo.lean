import Mathlib

/- A sender with a queue. It accepts operations, sends data of the operation at the
   head of its queue, piece by piece, and finishes the head, with some status. A
   trace is what it did so far; `Trace l p` says that a sender can do `l` and then
   has the operations `p` still to finish. Everything about the order of what is
   sent follows from that the head alone is sent and finished. -/
namespace Fifo

variable {ο β σ : Type}

/-- What a sender does. -/
inductive Event (ο β σ : Type) where
  | accept (o : ο)
  | send (o : ο) (piece : List β)
  | finish (o : ο) (status : σ)

/-- The operations accepted, in order. -/
def accepted : List (Event ο β σ) → List ο :=
  List.filterMap fun
    | .accept o => some o
    | _ => none

/-- The operations finished, in order. -/
def finished : List (Event ο β σ) → List ο :=
  List.filterMap fun
    | .finish o _ => some o
    | _ => none

/-- Everything sent, in order. -/
def sent : List (Event ο β σ) → List β :=
  List.flatMap fun
    | .send _ piece => piece
    | _ => []

variable [DecidableEq ο]

/-- What was sent of one operation. -/
def sentOf (o : ο) : List (Event ο β σ) → List β :=
  List.flatMap fun
    | .send o' piece => if o' = o then piece else []
    | _ => []

section
omit [DecidableEq ο]
variable (o : ο) (piece : List β) (st : σ) (l m : List (Event ο β σ))

@[simp] theorem accepted_nil : accepted ([] : List (Event ο β σ)) = [] := rfl
@[simp] theorem accepted_accept : accepted (.accept o :: l) = o :: accepted l := rfl
@[simp] theorem accepted_send : accepted (.send o piece :: l) = accepted l := rfl
@[simp] theorem accepted_finish : accepted (.finish o st :: l) = accepted l := rfl
@[simp] theorem finished_nil : finished ([] : List (Event ο β σ)) = [] := rfl
@[simp] theorem finished_accept : finished (.accept o :: l) = finished l := rfl
@[simp] theorem finished_send : finished (.send o piece :: l) = finished l := rfl
@[simp] theorem finished_finish : finished (.finish o st :: l) = o :: finished l := rfl
@[simp] theorem sent_nil : sent ([] : List (Event ο β σ)) = [] := rfl
@[simp] theorem sent_accept : sent (.accept o :: l) = sent l := rfl
@[simp] theorem sent_send : sent (.send o piece :: l) = piece ++ sent l := rfl
@[simp] theorem sent_finish : sent (.finish o st :: l) = sent l := rfl

@[simp] theorem accepted_append : accepted (l ++ m) = accepted l ++ accepted m :=
  List.filterMap_append ..

@[simp] theorem finished_append : finished (l ++ m) = finished l ++ finished m :=
  List.filterMap_append ..

@[simp] theorem sent_append : sent (l ++ m) = sent l ++ sent m := List.flatMap_append

end

section
variable (o x : ο) (piece : List β) (st : σ) (l m : List (Event ο β σ))

@[simp] theorem sentOf_nil : sentOf x ([] : List (Event ο β σ)) = [] := rfl
@[simp] theorem sentOf_accept : sentOf x (.accept o :: l) = sentOf x l := rfl
@[simp] theorem sentOf_finish : sentOf x (.finish o st :: l) = sentOf x l := rfl

@[simp] theorem sentOf_send :
    sentOf x (.send o piece :: l) = (if o = x then piece else []) ++ sentOf x l := rfl

@[simp] theorem sentOf_append : sentOf x (l ++ m) = sentOf x l ++ sentOf x m :=
  List.flatMap_append

end

/-- The traces of a sender, with what is still to finish. -/
inductive Trace : List (Event ο β σ) → List ο → Prop where
  | nil : Trace [] []
  | accept {l : List (Event ο β σ)} {p : List ο} {o : ο} : Trace l p → o ∉ accepted l →
      Trace (l ++ [.accept o]) (p ++ [o])
  | send {l : List (Event ο β σ)} {p : List ο} {o : ο} (piece : List β) : Trace l (o :: p) →
      Trace (l ++ [.send o piece]) (o :: p)
  | finish {l : List (Event ο β σ)} {p : List ο} {o : ο} (status : σ) : Trace l (o :: p) →
      Trace (l ++ [.finish o status]) p

variable {l : List (Event ο β σ)} {p : List ο}

omit [DecidableEq ο] in
/-- What was accepted is what is finished, and then what is still to finish. -/
theorem Trace.split (t : Trace l p) : accepted l = finished l ++ p := by
  induction t with
  | nil => rfl
  | accept _ _ ih => simp [ih]
  | send _ _ ih => simpa using ih
  | finish _ _ ih => simpa using ih

omit [DecidableEq ο] in
theorem Trace.nodup (t : Trace l p) : (accepted l).Nodup := by
  induction t with
  | nil => exact List.nodup_nil
  | accept _ hnew ih =>
    rw [accepted_append]
    refine List.nodup_append.mpr ⟨ih, List.nodup_singleton _, ?_⟩
    rintro a ha b hb rfl
    exact hnew (List.mem_singleton.mp hb ▸ ha)
  | send _ _ ih => simpa using ih
  | finish _ _ ih => simpa using ih

/-- Only the head of the queue, and what is finished, has been sent. -/
theorem Trace.unsent (t : Trace l p) :
    ∀ o, (o ∉ accepted l ∨ o ∈ p.tail) → sentOf o l = [] := by
  induction t with
  | nil => intro o _; rfl
  | @accept l p o t hnew ih =>
    intro x hx
    rw [sentOf_append, sentOf_accept, sentOf_nil, List.append_nil]
    apply ih
    rcases hx with hx | hx
    · rw [accepted_append, List.mem_append, not_or] at hx
      exact .inl hx.1
    · cases p with
      | nil => simp at hx
      | cons y p =>
        rw [List.cons_append, List.tail_cons, List.mem_append, List.mem_singleton] at hx
        rcases hx with hx | rfl
        · exact .inr hx
        · exact .inl hnew
  | @send l p o piece t ih =>
    intro x hx
    have hox : o ≠ x := by
      rintro rfl
      have hnd := t.nodup
      rw [t.split, List.nodup_append] at hnd
      rcases hx with hx | hx
      · exact hx (by rw [accepted_append, t.split]; simp)
      · exact (List.nodup_cons.mp hnd.2.1).1 hx
    have hold : sentOf x l = [] := by
      refine ih x ?_
      rcases hx with hx | hx
      · rw [accepted_append, List.mem_append, not_or] at hx
        exact .inl hx.1
      · exact .inr hx
    simp [hold, hox]
  | @finish l p o st t ih =>
    intro x hx
    rw [sentOf_append, sentOf_finish, sentOf_nil, List.append_nil]
    apply ih
    rcases hx with hx | hx
    · rw [accepted_append, List.mem_append, not_or] at hx
      exact .inl hx.1
    · exact .inr (List.mem_of_mem_tail hx)

/-- Whatever an operation's pieces are, they come in the order in which the operations were
accepted. -/
theorem Trace.sent_eq (t : Trace l p) : sent l = (accepted l).flatMap fun o => sentOf o l := by
  induction t with
  | nil => rfl
  | @accept l p o t hnew ih =>
    have hx : sentOf o l = [] := t.unsent o (.inl hnew)
    simp [ih, hx]
  | @send l p o piece t ih =>
    have hnd := t.nodup
    rw [t.split, List.nodup_append] at hnd
    have hhead : o ∉ finished l := fun hf => hnd.2.2 o hf o (by simp) rfl
    have htail : ∀ x ∈ p, sentOf x l = [] := fun x hx => t.unsent x (.inr hx)
    have hne : ∀ x ∈ p, o ≠ x := fun x hx h => (List.nodup_cons.mp hnd.2.1).1 (h ▸ hx)
    rw [sent_append, ih, accepted_append, accepted_send, accepted_nil, List.append_nil, t.split,
      List.flatMap_append, List.flatMap_append, List.flatMap_cons, List.flatMap_cons, sent_send,
      sent_nil, List.append_nil]
    have hfin : (finished l).flatMap (fun x => sentOf x (l ++ [Event.send o piece])) =
        (finished l).flatMap fun x => sentOf x l := by
      refine List.flatMap_congr fun x hx => ?_
      have : o ≠ x := fun h => hhead (h ▸ hx)
      simp [this]
    have hrest : ∀ m : List (Event ο β σ), (∀ x ∈ p, sentOf x m = []) →
        p.flatMap (fun x => sentOf x m) = [] := fun m hm => List.flatMap_eq_nil_iff.mpr hm
    have hnew : ∀ x ∈ p, sentOf x (l ++ [Event.send o piece]) = [] := by
      intro x hx
      simp [htail x hx, hne x hx]
    have hself : sentOf o (l ++ [Event.send o piece]) = sentOf o l ++ piece := by
      simp
    rw [hfin, hrest _ htail, hrest _ hnew, hself]
    simp
  | @finish l p o st t ih =>
    simp [ih]

omit [DecidableEq ο] in
/-- Every beginning of a trace is one. -/
theorem Trace.before (t : Trace l p) : ∀ l1 l2, l = l1 ++ l2 → ∃ p1, Trace l1 p1 := by
  induction t with
  | nil =>
    intro l1 l2 h
    obtain ⟨rfl, rfl⟩ := List.append_eq_nil_iff.mp h.symm
    exact ⟨[], .nil⟩
  | @accept l p o t hnew ih =>
    intro l1 l2 h
    rcases List.append_eq_append_iff.mp h with ⟨m, rfl, hm⟩ | ⟨m, rfl, rfl⟩
    · rcases List.append_eq_singleton_iff.mp hm.symm with ⟨rfl, rfl⟩ | ⟨rfl, rfl⟩
      · exact ⟨p, by simpa using t⟩
      · exact ⟨_, t.accept hnew⟩
    · exact ih l1 m rfl
  | @send l p o piece t ih =>
    intro l1 l2 h
    rcases List.append_eq_append_iff.mp h with ⟨m, rfl, hm⟩ | ⟨m, rfl, rfl⟩
    · rcases List.append_eq_singleton_iff.mp hm.symm with ⟨rfl, rfl⟩ | ⟨rfl, rfl⟩
      · exact ⟨_, by simpa using t⟩
      · exact ⟨_, t.send piece⟩
    · exact ih l1 m rfl
  | @finish l p o st t ih =>
    intro l1 l2 h
    rcases List.append_eq_append_iff.mp h with ⟨m, rfl, hm⟩ | ⟨m, rfl, rfl⟩
    · rcases List.append_eq_singleton_iff.mp hm.symm with ⟨rfl, rfl⟩ | ⟨rfl, rfl⟩
      · exact ⟨_, by simpa using t⟩
      · exact ⟨_, t.finish st⟩
    · exact ih l1 m rfl

omit [DecidableEq ο] in
/-- When a piece of an operation is sent, every operation accepted before it is finished. -/
theorem Trace.turn (t : Trace l p) {l1 l2 : List (Event ο β σ)} {o : ο} {piece : List β}
    (h : l = l1 ++ .send o piece :: l2) : ∃ q, accepted l1 = finished l1 ++ o :: q := by
  obtain ⟨q, t1⟩ := t.before (l1 ++ [.send o piece]) l2 (by rw [h]; simp)
  generalize he : l1 ++ [Event.send o piece] = m at t1
  cases t1 with
  | nil => simp at he
  | accept _ _ =>
    have := List.append_inj_right' he rfl
    simp at this
  | send piece' t1 =>
    obtain ⟨rfl, hp⟩ := List.append_inj' he rfl
    simp only [List.cons.injEq, Event.send.injEq, and_true] at hp
    obtain ⟨rfl, rfl⟩ := hp
    exact ⟨_, t1.split⟩
  | finish _ _ =>
    have := List.append_inj_right' he rfl
    simp at this

end Fifo
