import Pandio.Unix.Interrupts
import Pandio.Unix.OwnerSteps

/- Steps of the loop with any poller. A step is one of the machine of event_epoll.c that is
   no poll, or a poll, and a poll does not touch more than the loop's time: what is shown of
   one stream, of the tasks and of what holds references has to look at the other steps only. -/
namespace Pandio
open World

/-- What a poll does, with `rest` below the loop on the stack. -/
inductive Polls (w : World) (timeout : Int) (events : List (Handle × Events)) (rest : List Item) :
    Cfg → Prop where
  | ends : w.refs = 0 → Polls w timeout events rest ⟨w, rest⟩
  | again : w.refs ≠ 0 →
      Polls w timeout events rest ⟨w.setErrno (.err EINTR), .lib (.ioRun timeout) :: rest⟩
  | reports : w.refs ≠ 0 → Polls w timeout events rest
      ⟨w.setNow w.kernel.clock, events.map (fun e => .lib (.dispatch e.1 e.2)) ++
        [.lib .timersRun, .lib .pendingClose, .lib .ioAfterTick, .lib .ioNext] ++ rest⟩

theorem pollWith_polls {w : World} {timeout : Int} {r : SysRes} {events : List (Handle × Events)}
    {q : World × List Item} (h : pollWith w timeout r events = some q) (rest : List Item) :
    Polls w timeout events rest ⟨q.1, q.2 ++ rest⟩ := by
  unfold pollWith at h
  split at h
  · rename_i hrefs
    cases h
    exact .ends hrefs
  · rename_i hrefs
    split at h
    · split at h <;> cases h
      rename_i he
      rw [he]
      exact .again hrefs
    · cases h
      have hmap : ∀ l : List Frame, (events.map (fun e => Frame.dispatch e.1 e.2) ++ l).map Item.lib =
          events.map (fun e => .lib (.dispatch e.1 e.2)) ++ l.map Item.lib := by
        intro l
        rw [List.map_append, List.map_map]
        rfl
      simp only [goOn, hmap]
      exact .reports hrefs

/-- The step of the machine of event_epoll.c that a step of the loop is, and the state it is taken
from. -/
inductive LoopAct.Is (c : Cfg) : LoopAct → Cfg → Act → Prop where
  | step (y : Act) : Is c (.step y) c y
  | serverClose (l : Lid) (a : Answer) :
      Is c (.serverClose l a) (c.listens l) (.api (.tcpServerClose l) a)

/-- What a step of the loop is. -/
theorem loopStep_cases {c c' : Cfg} {x : LoopAct} (h : loopStep c x = some c') :
    (∃ d y, x.Is c d y ∧ step d y = some c' ∧
      ∀ a timeout rest, y = .lib a → d.stack ≠ .lib (.ioRun timeout) :: rest) ∨
    ∃ r events timeout rest, x = .poll r events ∧ c.stack = .lib (.ioRun timeout) :: rest ∧
      Polls c.world timeout events rest c' := by
  cases x with
  | step y =>
    simp only [loopStep] at h
    split at h
    · cases h
    · rename_i hne
      refine .inl ⟨_, _, .step _, h, ?_⟩
      rintro a timeout rest rfl hst
      exact hne a timeout rest rfl hst
  | poll r events =>
    simp only [loopStep] at h
    split at h
    · rename_i timeout rest hst
      obtain ⟨q, hq, rfl⟩ := Option.map_eq_some_iff.mp h
      exact .inr ⟨r, events, timeout, rest, rfl, hst, pollWith_polls hq rest⟩
    · cases h
  | serverClose l a =>
    have hs := loopStep_serverClose h
    simp only [loopStep] at hs
    exact .inl ⟨_, _, .serverClose l a, hs, fun _ _ _ he => by cases he⟩

section
variable {w : World} {timeout : Int} {events : List (Handle × Events)} {rest : List Item} {c : Cfg}

theorem Polls.streamView (h : Polls w timeout events rest c) (s : Sid) :
    c.world.streamView s = w.streamView s := by
  cases h <;> rfl

theorem Polls.owners (h : Polls w timeout events rest c) : c.world.owners = w.owners := by
  cases h <;> rfl

theorem Polls.log (h : Polls w timeout events rest c) : c.world.log = w.log := by
  cases h <;> rfl

/-- A frame that is on the stack after a poll was there, or is the event of a handle that was
reported, or one of the loop. -/
theorem Polls.frame (h : Polls w timeout events rest c) {f : Frame} (hf : .lib f ∈ c.stack) :
    .lib f ∈ rest ∨ f = .ioRun timeout ∨ (∃ e ∈ events, f = .dispatch e.1 e.2) ∨
      f = .timersRun ∨ f = .pendingClose ∨ f = .ioAfterTick ∨ f = .ioNext := by
  cases h with
  | ends => exact .inl hf
  | again =>
    rcases List.mem_cons.mp hf with hf | hf
    · exact .inr (.inl (Item.lib.inj hf))
    · exact .inl hf
  | reports =>
    simp only [List.mem_append, List.mem_map, List.mem_cons, List.not_mem_nil, Item.lib.injEq,
      or_false] at hf
    rcases hf with (⟨e, he, rfl⟩ | hf) | hf
    · exact .inr (.inr (.inl ⟨e, he, rfl⟩))
    · exact .inr (.inr (.inr hf))
    · exact .inl hf

end

end Pandio
