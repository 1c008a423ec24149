import Mathlib.Data.List.Perm.Subperm

/- A queue with several servers. A server takes the head of the queue, holds it for a while and
   starts it then, so the order of the starts is not that of the queue; but what was taken and
   is not started is held by a server. With `n` servers, all but fewer than `n` of what was
   accepted before a job have started when the job does. -/

open scoped List

/-- The accepted jobs are those taken so far and the queue; the taken ones have started or are held. -/
def Window {κ : Type} (accepted queue started held : List κ) : Prop :=
  ∃ taken, accepted = taken ++ queue ∧ taken ~ started ++ held

namespace Window

variable {κ : Type} {accepted queue started held held' : List κ} {k : κ}

theorem nil : Window ([] : List κ) [] [] [] := ⟨[], rfl, .nil⟩

theorem perm (w : Window accepted queue started held) (h : held.Perm held') :
    Window accepted queue started held' := by
  obtain ⟨taken, hacc, hp⟩ := w
  exact ⟨taken, hacc, hp.trans (h.append_left started)⟩

/-- A job is accepted. -/
theorem accept (w : Window accepted queue started held) :
    Window (accepted ++ [k]) (queue ++ [k]) started held := by
  obtain ⟨taken, rfl, hp⟩ := w
  exact ⟨taken, List.append_assoc .., hp⟩

/-- A server takes the head of the queue. -/
theorem take (w : Window accepted (k :: queue) started held) :
    Window accepted queue started (k :: held) := by
  obtain ⟨taken, rfl, hp⟩ := w
  refine ⟨taken ++ [k], List.append_cons .., ?_⟩
  calc
    taken ++ [k] ~ k :: taken := List.perm_append_singleton ..
    _ ~ k :: (started ++ held) := hp.cons k
    _ ~ started ++ k :: held := List.perm_middle.symm

/-- A server starts the job that it holds. -/
theorem start (w : Window accepted queue started (k :: held)) :
    Window accepted queue (started ++ [k]) held := by
  obtain ⟨taken, rfl, hp⟩ := w
  refine ⟨taken, rfl, hp.trans ?_⟩
  rw [List.append_assoc]
  rfl

/-- What was accepted before a held job has started, but for jobs that the other servers hold. -/
theorem late (w : Window accepted queue started (k :: held)) (hk : k ∉ queue) :
    ∃ before after, accepted = before ++ k :: after ∧ k ∉ after ∧
      before.Subperm (started ++ held) := by
  obtain ⟨taken, rfl, hp⟩ := w
  have hmem : k ∈ taken := hp.mem_iff.mpr (by simp)
  -- the last time that it was accepted
  obtain ⟨l, m, hlm, hl⟩ := List.eq_append_cons_of_mem (List.mem_reverse.mpr hmem)
  have htaken : taken = m.reverse ++ k :: l.reverse := by
    rw [← List.reverse_reverse taken, hlm]
    simp
  refine ⟨m.reverse, l.reverse ++ queue, by rw [htaken]; simp, ?_, ?_⟩
  · simp [hl, hk]
  · rw [htaken] at hp
    have hcons : (m.reverse ++ l.reverse).Perm (started ++ held) :=
      (List.perm_middle.symm.trans (hp.trans List.perm_middle)).cons_inv
    exact (List.sublist_append_left m.reverse l.reverse).subperm.trans hcons.subperm

end Window
