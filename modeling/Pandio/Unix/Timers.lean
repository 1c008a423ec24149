import Pandio.Heap.Ops
import Pandio.Unix.World

/- src/timers.c over the heap of include/pandio/heap.h. `none` is a fault of the
   heap: a NULL pointer dereferenced, or a loop that does not end.

   Correspondence (C ↔ Lean):
     `pd_timers_comparator`           ↔ `pdTimersComparator`
     `pd_timer_start`, `pd_timer_stop` ↔ `pdTimerStart`, `pdTimerStop`
     `pd_timer_repeat`                ↔ `pdTimerRepeat`
     `pd_timers_run`                  ↔ `pdTimersRun`, and `pdTimersRearm` after the callback
     `pd_timers_next`                 ↔ `pdTimersNext` -/
namespace Pandio

/-- `pd_timers_comparator`. -/
def pdTimersComparator (w : World) (a b : Tid) : Int :=
  if (w.timer a).timeout < (w.timer b).timeout then 1 else 0

/-- `pd_timer_start`. -/
def pdTimerStart (w : World) (t : Tid) (cb : Bool) (timeout : Nat) : Option World :=
  if (w.timer t).active then some w
  else
    -- a deadline past the end of `uint64_t` wraps
    let w := w.setTimer t
      { w.timer t with
        active := true, timeout := (w.now + timeout) % 2 ^ 64, onTimeout := cb }
    let w := w.incRefs (.timer t)
    (heapInsert (pdTimersComparator w) w.timers t).map fun h => w.setTimers h

/-- `pd_timer_repeat`. -/
def pdTimerRepeat (w : World) (t : Tid) (cb : Bool) (interval : Nat) : Option World :=
  pdTimerStart (w.setTimer t { w.timer t with interval := interval }) t cb interval

/-- `pd_timer_stop`. -/
def pdTimerStop (w : World) (t : Tid) : Option World :=
  if !(w.timer t).active then some w
  else
    let w := w.setTimer t { w.timer t with active := false }
    (heapRemove (pdTimersComparator w) w.timers t).map fun h =>
      (w.setTimers h.1).decRefs (.timer t)

/-- One round of the loop of `pd_timers_run`, up to the callback. -/
def pdTimersRun (w : World) : Option (World × List Item) :=
  match heapPeek w.timers with
  | none => some (w.goOn [])
  | some min =>
    if (w.timer min).timeout > w.now then some (w.goOn [])
    else do
      let w ← pdTimerStop w min
      -- very unlikely scenario to be NULL, but still...
      if (w.timer min).onTimeout then
        some (w.call (.onTimeout min (w.timer min).timeout) [.timersRearm min])
      else some (w.goOn [.timersRearm min])

/-- The rest of the round: a timer with an interval is started again. -/
def pdTimersRearm (w : World) (min : Tid) : Option (World × List Item) :=
  if (w.timer min).interval ≠ 0 then
    (pdTimerStart w min (w.timer min).onTimeout (w.timer min).interval).map (·.goOn [.timersRun])
  else some (w.goOn [.timersRun])

def INT_MAX : Nat := 2 ^ 31 - 1

/-- `pd_timers_next`. -/
def pdTimersNext (w : World) : Int :=
  match heapPeek w.timers with
  | none => -1
  | some min =>
    -- unsigned: an overdue timer gives a huge difference
    let nextTimeout := ((w.timer min).timeout + 2 ^ 64 - w.now) % 2 ^ 64
    if INT_MAX ≤ nextTimeout then INT_MAX else nextTimeout

end Pandio
