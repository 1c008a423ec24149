import Pandio.Lib.Stack
import Pandio.Unix.StreamSteps

/- The buffers of `pd__tcp_read`. Each dispatch of it asks the allocator for one and is
   to hand it to `on_data`, once. Beside a run the dispatches of one stream are
   recorded: those under way, the innermost first, and those that have returned, each
   with the buffer it was given and the buffers it has passed on.

   Without a buffer `pd__tcp_read` reports an error, and then reads all the same: it
   has no `return` after the report. The other dispatches are in order, whatever
   `read` gives and however deep they are nested.

   Correspondence (C ↔ Lean):
     a call of `pd__tcp_read` up to its end ↔ `ReadCall`
     the allocator's result                 ↔ `ReadCall.buf`
     its `on_data` calls                    ↔ `ReadCall.passed` -/
namespace Pandio
open World

/-! ## Dispatches of one stream -/

/-- A dispatch of `pd__tcp_read`: the buffer the allocator gave it, and those it called `on_data`
with. -/
structure ReadCall where
  buf : Option Nat
  passed : List (Option Nat)
  deriving DecidableEq

/-- A run's configuration with the dispatches of one stream. -/
structure Reads where
  cfg : Cfg
  opened : List ReadCall
  finished : List ReadCall

/-- The buffers that entries of the log pass to `on_data`. -/
def passes (s : Sid) (l : List Obs) : List (Option Nat) :=
  l.filterMap fun
    | .cb (.onData s' buf _ _) _ => if s' = s then some buf else none
    | _ => none

/-- The calls of the allocator. -/
def allocs (s : Sid) (l : List Obs) : Nat :=
  l.countP fun
    | .cb (.allocator s') _ => s' = s
    | _ => false

/-- A frame of `pd__tcp_read`, with the buffer it has. -/
def readFrame (s : Sid) : Item → Option ReadCall
  | .lib (.readAlloc s') => if s' = s then some ⟨none, []⟩ else none
  | .lib (.readTry s' buf) => if s' = s then some ⟨buf, []⟩ else none
  | _ => none

/-- The allocator of the stream returns, with this. -/
def allocated (s : Sid) (c : Cfg) (x : Act) : Option (Option Nat) :=
  match x, c.stack with
  | .ret ptr, .app (.allocator s') :: _ => if s' = s then some ptr else none
  | _, _ => none

/-- What a step adds to the log of a stream. -/
def streamLogged (s : Sid) (c c' : Cfg) : List Obs :=
  (c'.world.streamView s).log.drop (c.world.streamView s).log.length

/-- The dispatches after a step: one begins when the allocator is called, has a buffer when it
returns, calls `on_data`, and has returned when its frame is gone. -/
def Reads.next (s : Sid) (g : Reads) (x : Act) (c' : Cfg) : Reads :=
  let new := streamLogged s g.cfg c'
  let opened := if 0 < allocs s new then ⟨none, []⟩ :: g.opened else g.opened
  let opened := match allocated s g.cfg x with
    | some ptr => opened.modifyHead fun d : ReadCall => { d with buf := ptr }
    | none => opened
  let opened := opened.modifyHead fun d : ReadCall => { d with passed := d.passed ++ passes s new }
  if (c'.stack.filterMap (readFrame s)).length < opened.length then
    { cfg := c', opened := opened.tail, finished := g.finished ++ opened.take 1 }
  else { cfg := c', opened := opened, finished := g.finished }

theorem Reads.next_cfg (s : Sid) (g : Reads) (x : Act) (c' : Cfg) : (g.next s x c').cfg = c' := by
  simp only [Reads.next, apply_ite Reads.cfg, ite_self]

def Reads.step (s : Sid) (g : Reads) (x : Act) : Option Reads :=
  (Pandio.step g.cfg x).map (g.next s x)

def Reads.Init (g : Reads) : Prop := g.cfg.Init ∧ g.opened = [] ∧ g.finished = []

/-- The runs whose steps all meet `ok`, with the dispatches of one stream. -/
abbrev ReadRun (s : Sid) (ok : Cfg → Act → Prop) : Reads → Prop :=
  Machine.Reach (Reads.step s) (fun g x => ok g.cfg x) Reads.Init

/-- The allocator of the stream does not return NULL. -/
def GivesBuffer (s : Sid) (c : Cfg) (x : Act) : Prop := allocated s c x ≠ some none

instance (s : Sid) (c : Cfg) (x : Act) : Decidable (GivesBuffer s c x) :=
  inferInstanceAs (Decidable (_ ≠ _))

/-- Each dispatch that has returned has called `on_data` once, with its buffer, and one that is under
way has not yet; and none reads without a buffer. Every call of the allocator is of one of them. -/
structure ReadsSound (s : Sid) (g : Reads) : Prop where
  finished : ∀ d ∈ g.finished, ∃ p, d.buf = some p ∧ d.passed = [some p]
  opened : ∀ d ∈ g.opened, d.passed = []
  reads : .lib (.readTry s none) ∉ g.cfg.stack
  all : allocs s g.cfg.world.log = g.opened.length + g.finished.length

/-! ## What stands above a dispatch -/

/-- The frame that waits for the allocator stands under it, and nothing else does. -/
def AtAlloc (i j : Item) : Prop :=
  (∀ s, j = .lib (.readAlloc s) → i = .app (.allocator s)) ∧
    ∀ s, i = .app (.allocator s) → j = .lib (.readAlloc s)

theorem Frame.Pushes.atAlloc {f : Frame} {l : List Item} (h : f.Pushes l) :
    l.IsChain AtAlloc ∧ (∀ i ∈ l.head?, ∀ s, i ≠ .lib (.readAlloc s)) ∧
      ∀ i ∈ l.getLast?, ∀ s, i ≠ .app (.allocator s) := by
  cases h with
  | poll timeout events =>
    refine ⟨?_, ?_, by simp⟩
    · rw [List.isChain_append]
      refine ⟨?_, by simp [AtAlloc], ?_⟩
      · rw [List.isChain_map]
        exact (List.pairwise_of_forall fun _ _ => by simp [AtAlloc]).isChain
      · intro i hi j hj
        obtain ⟨e, -, rfl⟩ := List.mem_map.mp (List.mem_of_getLast? hi)
        cases hj
        simp [AtAlloc]
    · cases events <;> simp
  | _ => simp [AtAlloc]

theorem Call.Pushes.atAlloc {k : Call} {l : List Item} (h : k.Pushes l) :
    l.IsChain AtAlloc ∧ (∀ i ∈ l.head?, ∀ s, i ≠ .lib (.readAlloc s)) ∧
      ∀ i ∈ l.getLast?, ∀ s, i ≠ .app (.allocator s) := by
  cases h <;> simp

/-- What is pushed stands in order with what is left. -/
theorem atAlloc_append {i : Item} {l rest : List Item} (hchain : (i :: rest).IsChain AtAlloc)
    (hi : ∀ s, i ≠ .app (.allocator s)) (hl : l.IsChain AtAlloc)
    (hlast : ∀ i ∈ l.getLast?, ∀ s, i ≠ .app (.allocator s)) : (l ++ rest).IsChain AtAlloc := by
  refine Stack.chain_replace hchain hl fun k hk j hj => ⟨fun s hs => ?_, fun s hs => ?_⟩
  · exact absurd (hj.1 s hs) (hi s)
  · exact absurd hs (hlast k hk s)

/-- What stands on top does not wait for the allocator. -/
theorem top_not_readAlloc {s : Sid} {l rest : List Item}
    (hl : ∀ i ∈ l.head?, ∀ s, i ≠ .lib (.readAlloc s))
    (hrest : ∀ rest', rest ≠ .lib (.readAlloc s) :: rest') (rest' : List Item) :
    l ++ rest ≠ .lib (.readAlloc s) :: rest' := by
  intro h
  cases l with
  | nil => exact hrest rest' h
  | cons i l =>
    rw [List.cons_append, List.cons.injEq] at h
    exact hl i rfl s h.1

/-- Items without a frame of a read have none without a buffer. -/
theorem no_readTry {s : Sid} {l : List Item} (hl : l.filterMap (readFrame s) = []) :
    .lib (.readTry s none) ∉ l := by
  intro hmem
  have hsome : (⟨none, []⟩ : ReadCall) ∈ l.filterMap (readFrame s) :=
    List.mem_filterMap.mpr ⟨_, hmem, by simp only [readFrame, if_true]⟩
  rw [hl] at hsome
  cases hsome

/-- No frame of `pd__tcp_read` comes from another stream's work. -/
theorem Frame.Pushes.readFrame {f : Frame} {l : List Item} {s : Sid} (h : f.Pushes l)
    (hf : f.stream ≠ some s) : l.filterMap (Pandio.readFrame s) = [] := by
  have hne : ∀ {s'}, f.stream = some s' → s' ≠ s := by
    rintro s' he rfl
    exact hf he
  cases h with
  | poll timeout events =>
    rw [List.filterMap_append, List.filterMap_map]
    simp [Pandio.readFrame]
  | noBuffer s' | buffer s' buf =>
    have := hne rfl
    simp [Pandio.readFrame, this]
  | readAgain s' buf =>
    have := hne rfl
    simp [Pandio.readFrame, this]
  | clientRead s' ev hin =>
    have := hne rfl
    simp [Pandio.readFrame, this]
  | _ => simp [Pandio.readFrame]

theorem Call.Pushes.readFrame {k : Call} {l : List Item} {s : Sid} (h : k.Pushes l) :
    l.filterMap (Pandio.readFrame s) = [] := by
  cases h <;> simp [Pandio.readFrame]

/-- What a frame that works for the stream does to its dispatches, where `m` is logged. -/
inductive ReadStep (s : Sid) (f : Frame) (m : List Obs) (l : List Item) : Prop where
  | other : allocs s m = 0 → passes s m = [] → readFrame s (.lib f) = none →
      l.filterMap (readFrame s) = [] → ReadStep s f m l
  | alloc : f = .readAlloc s → ReadStep s f m l
  | again {buf : Option Nat} : f = .readTry s buf → allocs s m = 0 → passes s m = [] →
      l = [.lib (.readTry s buf)] → ReadStep s f m l
  | begins {ev : Events} {now : Nat} : f = .dispatch (.tcp s) ev → m = [.cb (.allocator s) now] →
      l = [.app (.allocator s), .lib (.readAlloc s), .lib (.clientIoRest s ev)] → ReadStep s f m l
  | passes {buf : Option Nat} : f = .readTry s buf → allocs s m = 0 → passes s m = [buf] →
      l.filterMap (readFrame s) = [] → ReadStep s f m l

section
variable {s : Sid} {v v' : StreamView} {now : Nat} {l : List Item}

theorem StreamExec.readStep {f : Frame} (h : StreamExec s now v f v' l) :
    ∃ m, v'.log = v.log ++ m ∧ ReadStep s f m l := by
  cases h with
  | noBuffer _ => exact ⟨_, rfl, .alloc rfl⟩
  | buffer => exact ⟨[], (List.append_nil _).symm, .alloc rfl⟩
  | readAgain => exact ⟨_, rfl, .again rfl rfl rfl rfl⟩
  | readNothing _ _ | readEnd _ | read _ _ =>
    exact ⟨_, rfl, .passes rfl rfl (by simp [Pandio.passes]) rfl⟩
  | clientRead _ _ _ => exact ⟨_, rfl, .begins rfl rfl rfl⟩
  | tryQueued _ =>
    unfold StreamView.enqueue
    split
    · exact ⟨_, rfl, .other rfl rfl rfl rfl⟩
    · exact ⟨_, List.append_assoc .., .other rfl rfl rfl rfl⟩
  | closeAgain _ | ioClosed _ _ | ioStale _ _ _ | ioWrite _ _ _ | ioNothing _ _ | client _ _
  | connectNothing _ => exact ⟨[], (List.append_nil _).symm, .other rfl rfl rfl rfl⟩
  | connectedCalled _ _ => exact ⟨_, List.append_assoc .., .other rfl rfl rfl rfl⟩
  | _ => exact ⟨_, rfl, .other rfl rfl rfl rfl⟩

theorem StreamApi.readStep {k : Call} (h : StreamApi s v k v' l) :
    ∃ m, v'.log = v.log ++ m ∧ allocs s m = 0 ∧ passes s m = [] := by
  cases h with
  | writeQueued _ _ =>
    unfold StreamView.enqueue
    split
    · exact ⟨_, rfl, rfl, rfl⟩
    · exact ⟨_, List.append_assoc .., rfl, rfl⟩
  | connectNothing | closeAgain _ | shutNothing _ | setOnData | setOnClose =>
    exact ⟨[], (List.append_nil _).symm, rfl, rfl⟩
  | _ => exact ⟨_, rfl, rfl, rfl⟩

end

/-! ## The invariant -/

/-- The dispatches under way, read off the stack: one whose allocator has returned has its buffer in
`ptr` until its frame runs. -/
def underWay (s : Sid) (ptr : Option Nat) : List Item → List ReadCall
  | .lib (.readAlloc s') :: rest =>
    if s' = s then ⟨ptr, []⟩ :: rest.filterMap (readFrame s) else rest.filterMap (readFrame s)
  | stack => stack.filterMap (readFrame s)

/-- A stack without a frame on its top whose allocator has returned. -/
theorem underWay_eq {s : Sid} {ptr : Option Nat} {l : List Item}
    (h : ∀ rest, l ≠ .lib (.readAlloc s) :: rest) :
    underWay s ptr l = l.filterMap (readFrame s) := by
  unfold underWay
  split
  · rename_i s' rest
    have hs : s' ≠ s := by
      rintro rfl
      exact h rest rfl
    simp only [hs, if_false, List.filterMap_cons, readFrame]
  · rfl

structure ReadInv (s : Sid) (g : Reads) : Prop where
  order : g.cfg.stack.IsChain AtAlloc
  opened : g.opened = underWay s g.cfg.world.ptr g.cfg.stack
  buffers : .lib (.readTry s none) ∉ g.cfg.stack
  given : ∀ rest, g.cfg.stack = .lib (.readAlloc s) :: rest → g.cfg.world.ptr ≠ none
  finished : ∀ d ∈ g.finished, ∃ p, d.buf = some p ∧ d.passed = [some p]
  all : allocs s (g.cfg.world.streamView s).log = g.opened.length + g.finished.length

section
variable {s : Sid} {g : Reads} {c' : Cfg} {x : Act}

theorem underWay_length (ptr : Option Nat) (l : List Item) :
    (underWay s ptr l).length = (l.filterMap (readFrame s)).length := by
  unfold underWay
  split
  · rename_i s' rest
    by_cases hs : s' = s <;> simp [readFrame, hs]
  · rfl

theorem underWay_passed {ptr : Option Nat} {l : List Item} {d : ReadCall}
    (h : d ∈ underWay s ptr l) : d.passed = [] := by
  have hframe : ∀ l : List Item, d ∈ l.filterMap (readFrame s) → d.passed = [] := by
    intro l hd
    obtain ⟨i, _, hi⟩ := List.mem_filterMap.mp hd
    unfold Pandio.readFrame at hi
    split at hi
    · split at hi <;> cases hi
      rfl
    · split at hi <;> cases hi
      rfl
    · cases hi
  unfold underWay at h
  split at h
  · split at h
    · rcases List.mem_cons.mp h with rfl | h
      · rfl
      · exact hframe _ h
    · exact hframe _ h
  · exact hframe _ h

theorem streamLogged_eq {c : Cfg} {m : List Obs}
    (hlog : (c'.world.streamView s).log = (c.world.streamView s).log ++ m) :
    streamLogged s c c' = m := by
  rw [streamLogged, hlog, List.drop_left]

theorem allocs_append (l m : List Obs) : allocs s (l ++ m) = allocs s l + allocs s m :=
  List.countP_append

/-- Nothing is appended to what the innermost dispatch has passed on. -/
theorem passed_nil (l : List ReadCall) :
    (l.modifyHead fun d : ReadCall => { d with passed := d.passed ++ [] }) = l := by
  cases l with
  | nil => rfl
  | cons d l => simp

/-- A step that logs no call of the allocator or of `on_data`, and keeps the dispatches' frames. -/
theorem ReadInv.quiet (hinv : ReadInv s g) {m : List Obs}
    (hlog : (c'.world.streamView s).log = (g.cfg.world.streamView s).log ++ m)
    (hm : allocs s m = 0 ∧ passes s m = []) (hx : allocated s g.cfg x = none)
    (horder : c'.stack.IsChain AtAlloc)
    (hstack : underWay s c'.world.ptr c'.stack = underWay s g.cfg.world.ptr g.cfg.stack)
    (hbuf : .lib (.readTry s none) ∉ c'.stack)
    (hgiven : ∀ rest, c'.stack = .lib (.readAlloc s) :: rest → c'.world.ptr ≠ none) :
    ReadInv s (g.next s x c') := by
  have hlen : ¬ (c'.stack.filterMap (readFrame s)).length < g.opened.length := by
    rw [← underWay_length c'.world.ptr, hstack, ← hinv.opened]
    exact Nat.lt_irrefl _
  have hnext : g.next s x c' = { cfg := c', opened := g.opened, finished := g.finished } := by
    simp only [Reads.next, streamLogged_eq hlog, hm.1, hm.2, hx, Nat.lt_irrefl, if_false,
      passed_nil, hlen]
  rw [hnext]
  refine ⟨horder, hinv.opened.trans hstack.symm, hbuf, hgiven, hinv.finished, ?_⟩
  rw [hlog, allocs_append, hm.1]
  exact hinv.all

/-- The allocator is called. -/
theorem ReadInv.begins (hinv : ReadInv s g) {now : Nat} {rest : List Item} {ev : Events}
    (hlog : (c'.world.streamView s).log =
      (g.cfg.world.streamView s).log ++ [.cb (.allocator s) now])
    (hx : allocated s g.cfg x = none) (horder : c'.stack.IsChain AtAlloc)
    (hst : g.cfg.stack = .lib (.dispatch (.tcp s) ev) :: rest)
    (hst' : c'.stack = .app (.allocator s) :: .lib (.readAlloc s) :: .lib (.clientIoRest s ev) :: rest) :
    ReadInv s (g.next s x c') := by
  have hrest : underWay s g.cfg.world.ptr g.cfg.stack = rest.filterMap (readFrame s) := by
    rw [hst, underWay_eq (by simp), List.filterMap_cons_none rfl]
  have hframes : c'.stack.filterMap (readFrame s) = ⟨none, []⟩ :: g.opened := by
    rw [hst', hinv.opened, hrest]
    simp only [List.filterMap_cons, Pandio.readFrame, if_true]
  have hnext : g.next s x c' =
      { cfg := c', opened := ⟨none, []⟩ :: g.opened, finished := g.finished } := by
    have hone : allocs s [.cb (.allocator s) now] = 1 := by simp [allocs]
    have hpass : passes s [.cb (.allocator s) now] = [] := by simp [passes]
    simp only [Reads.next, streamLogged_eq hlog, hone, hpass, hx, Nat.zero_lt_one, if_true,
      passed_nil, hframes, List.length_cons, Nat.lt_irrefl, if_false]
  rw [hnext]
  refine ⟨horder, ?_, ?_, ?_, hinv.finished, ?_⟩
  · show _ = underWay s c'.world.ptr c'.stack
    rw [underWay_eq (by rw [hst']; simp), hframes]
  · show _ ∉ c'.stack
    have hold := hinv.buffers
    rw [hst] at hold
    rw [hst']
    simpa using hold
  · intro rest' ht
    rw [show c'.stack = _ from hst'] at ht
    cases ht
  · show allocs s (c'.world.streamView s).log = _
    rw [hlog, allocs_append, hinv.all]
    simp only [allocs, List.countP_cons, List.countP_nil, decide_true, if_true, List.length_cons]
    omega

/-- The allocator returns. -/
theorem ReadInv.given_one (hinv : ReadInv s g) {p : Nat} {rest : List Item}
    (hlog : (c'.world.streamView s).log = (g.cfg.world.streamView s).log)
    (hx : allocated s g.cfg x = some (some p)) (hptr : c'.world.ptr = some p)
    (hst : g.cfg.stack = .app (.allocator s) :: rest) (hst' : c'.stack = rest) :
    ReadInv s (g.next s x c') := by
  have hchain := hinv.order
  rw [hst] at hchain
  have hopened : g.opened = rest.filterMap (readFrame s) := by
    rw [hinv.opened, hst, underWay_eq (by simp), List.filterMap_cons_none rfl]
  -- the frame that has waited is on top
  have hmodify : (g.opened.modifyHead fun d : ReadCall => { d with buf := some p }) =
      underWay s (some p) rest := by
    cases rest with
    | nil =>
      rw [hopened]
      rfl
    | cons j tail =>
      obtain rfl := (List.isChain_cons_cons.mp hchain).1.2 s rfl
      rw [hopened, underWay, if_pos rfl]
      simp only [List.filterMap_cons, Pandio.readFrame, if_true, List.modifyHead_cons]
  have hlog' : (c'.world.streamView s).log = (g.cfg.world.streamView s).log ++ [] := by
    rw [hlog, List.append_nil]
  have hzero : allocs s [] = 0 := rfl
  have hpass : passes s [] = [] := rfl
  have hlen : ¬ (c'.stack.filterMap (readFrame s)).length < (underWay s (some p) rest).length := by
    rw [underWay_length, hst']
    exact Nat.lt_irrefl _
  have hnext : g.next s x c' =
      { cfg := c', opened := underWay s (some p) rest, finished := g.finished } := by
    simp only [Reads.next, streamLogged_eq hlog', hzero, hpass, hx, Nat.lt_irrefl, if_false,
      hmodify, passed_nil, hlen]
  rw [hnext]
  refine ⟨?_, ?_, ?_, ?_, hinv.finished, ?_⟩
  · show c'.stack.IsChain AtAlloc
    rw [hst']
    exact hchain.tail
  · show _ = underWay s c'.world.ptr c'.stack
    rw [hptr, hst']
  · show _ ∉ c'.stack
    have hold := hinv.buffers
    rw [hst] at hold
    rw [hst']
    exact fun h => hold (List.mem_cons_of_mem _ h)
  · intro rest' _
    rw [show c'.world.ptr = _ from hptr]
    exact Option.some_ne_none p
  · show allocs s (c'.world.streamView s).log = _
    have hsame : (underWay s (some p) rest).length = g.opened.length := by
      rw [underWay_length, hopened]
    rw [hlog, hinv.all, hsame]

/-- `on_data` is called, and the dispatch ends with it. -/
theorem ReadInv.passes (hinv : ReadInv s g) {buf : Option Nat} {l rest : List Item} {m : List Obs}
    (hlog : (c'.world.streamView s).log = (g.cfg.world.streamView s).log ++ m)
    (hm : allocs s m = 0 ∧ Pandio.passes s m = [buf]) (hx : allocated s g.cfg x = none)
    (horder : c'.stack.IsChain AtAlloc) (hst : g.cfg.stack = .lib (.readTry s buf) :: rest)
    (hst' : c'.stack = l ++ rest) (hl : l.filterMap (readFrame s) = [])
    (hhead : ∀ rest, c'.stack ≠ .lib (.readAlloc s) :: rest)
    (hread : .lib (.readTry s none) ∉ c'.stack) : ReadInv s (g.next s x c') := by
  have hopened : g.opened = ⟨buf, []⟩ :: rest.filterMap (readFrame s) := by
    rw [hinv.opened, hst, underWay_eq (by simp)]
    simp only [List.filterMap_cons, Pandio.readFrame, if_true]
  have hframes : c'.stack.filterMap (readFrame s) = rest.filterMap (readFrame s) := by
    rw [hst', List.filterMap_append, hl, List.nil_append]
  have hbuf : buf ≠ none := by
    rintro rfl
    apply hinv.buffers
    rw [hst]
    exact List.mem_cons_self
  have hnext : g.next s x c' =
      { cfg := c', opened := rest.filterMap (readFrame s)
        finished := g.finished ++ [⟨buf, [buf]⟩] } := by
    have hlt : (rest.filterMap (readFrame s)).length <
        (⟨buf, [buf]⟩ :: rest.filterMap (readFrame s)).length := by simp
    simp only [Reads.next, streamLogged_eq hlog, hm.1, hm.2, hx, Nat.lt_irrefl, if_false, hopened,
      List.modifyHead_cons, List.nil_append, hframes, hlt, if_true, List.tail_cons, List.take_succ_cons,
      List.take_zero]
  rw [hnext]
  refine ⟨horder, ?_, hread, fun rest' ht => absurd ht (hhead rest'), ?_, ?_⟩
  · show _ = underWay s c'.world.ptr c'.stack
    rw [underWay_eq hhead, hframes]
  · intro d hd
    rcases List.mem_append.mp hd with hd | hd
    · exact hinv.finished d hd
    · obtain rfl := List.mem_singleton.mp hd
      obtain ⟨p, rfl⟩ := Option.ne_none_iff_exists'.mp hbuf
      exact ⟨p, rfl, rfl⟩
  · show allocs s (c'.world.streamView s).log = _
    rw [hlog, allocs_append, hm.1, hinv.all, hopened]
    simp only [List.length_cons, List.length_append, List.length_nil]
    omega

/-- A step that works on something else. -/
theorem ReadInv.idle (hinv : ReadInv s g) {l tail : List Item} {m : List Obs}
    (hlog : (c'.world.streamView s).log = (g.cfg.world.streamView s).log ++ m)
    (hm : allocs s m = 0 ∧ Pandio.passes s m = []) (hx : allocated s g.cfg x = none)
    (horder : c'.stack.IsChain AtAlloc) (hst' : c'.stack = l ++ tail)
    (hl : l.filterMap (readFrame s) = []) (hold : ∀ i ∈ tail, i ∈ g.cfg.stack)
    (htail : tail.filterMap (readFrame s) = g.cfg.stack.filterMap (readFrame s))
    (htop : ∀ rest, g.cfg.stack ≠ .lib (.readAlloc s) :: rest)
    (hhead : ∀ rest, c'.stack ≠ .lib (.readAlloc s) :: rest) : ReadInv s (g.next s x c') := by
  refine hinv.quiet hlog hm hx horder ?_ ?_ fun rest h => absurd h (hhead rest)
  · rw [underWay_eq hhead, underWay_eq htop, hst', List.filterMap_append, hl, List.nil_append, htail]
  · rw [hst', List.mem_append]
    rintro (hmem | hmem)
    · exact no_readTry hl hmem
    · exact hinv.buffers (hold _ hmem)

/-- A step of a frame of the library. -/
theorem ReadInv.exec (hinv : ReadInv s g) {f : Frame} {a : Answer} {rest : List Item}
    {r : World × List Item} (hst : g.cfg.stack = .lib f :: rest)
    (hr : exec g.cfg.world f a = some r) :
    ReadInv s (g.next s (.lib a) ⟨r.1, r.2 ++ rest⟩) := by
  have hchain := hinv.order
  have hx : allocated s g.cfg (.lib a) = none := by simp [allocated]
  have hp := exec_pushes hr
  obtain ⟨hl, hhead, hlast⟩ := hp.atAlloc
  rw [hst] at hchain
  have horder := atAlloc_append hchain (by simp) hl hlast
  have hold : ∀ i ∈ rest, i ∈ g.cfg.stack := by
    intro i hi
    rw [hst]
    exact List.mem_cons_of_mem _ hi
  -- the frame below does not wait for the allocator
  have hnew : ∀ rest', r.2 ++ rest ≠ .lib (.readAlloc s) :: rest' := by
    apply top_not_readAlloc hhead
    rintro rest' rfl
    cases (List.isChain_cons_cons.mp hchain).1.1 s rfl
  have hkeep : r.2.filterMap (readFrame s) = [] → readFrame s (.lib f) = none →
      (∀ rest', g.cfg.stack ≠ .lib (.readAlloc s) :: rest') → ∀ m,
      (r.1.streamView s).log = (g.cfg.world.streamView s).log ++ m → allocs s m = 0 →
      Pandio.passes s m = [] → ReadInv s (g.next s (.lib a) ⟨r.1, r.2 ++ rest⟩) := by
    intro hl hf htop m hlog h1 h2
    refine hinv.idle hlog ⟨h1, h2⟩ hx horder rfl hl hold ?_ htop hnew
    rw [hst, List.filterMap_cons_none hf]
  by_cases hf : f.stream = some s
  · obtain ⟨m, hlog, hstep⟩ := (exec_stream hf hr).readStep
    cases hstep with
    | other h1 h2 hframe hnone =>
      refine hkeep hnone hframe ?_ m hlog h1 h2
      rw [hst]
      intro rest' h
      cases h
      simp only [Pandio.readFrame, if_true] at hframe
      cases hframe
    | alloc he =>
      subst he
      -- the allocator gave a buffer
      obtain ⟨p, hptr⟩ := Option.ne_none_iff_exists'.mp (hinv.given rest hst)
      simp only [Pandio.exec, readAlloc, hptr] at hr
      cases hr
      refine hinv.quiet (List.append_nil _).symm ⟨rfl, rfl⟩ hx horder ?_ ?_ ?_
      · show underWay s _ (.lib (.readTry s (some p)) :: rest) = _
        rw [underWay_eq (by simp), hst, underWay, if_pos rfl, hptr]
        simp only [List.filterMap_cons, Pandio.readFrame, if_true]
      · intro hmem
        rcases List.mem_cons.mp hmem with h | h
        · cases h
        · exact hinv.buffers (hold _ h)
      · intro rest' h
        cases h
    | again he h1 h2 hitems =>
      subst he
      have hsame : r.2 ++ rest = g.cfg.stack := by
        rw [hitems, hst]
        rfl
      refine hinv.quiet hlog ⟨h1, h2⟩ hx horder ?_ ?_ fun rest' h => absurd h (hnew rest')
      · show underWay s _ (r.2 ++ rest) = _
        rw [underWay_eq hnew, hsame, underWay_eq (by rw [hst]; simp)]
      · show _ ∉ r.2 ++ rest
        rw [hsame]
        exact hinv.buffers
    | begins he hm hitems =>
      subst he hm
      refine hinv.begins hlog hx horder hst ?_
      show r.2 ++ rest = _
      rw [hitems]
      rfl
    | passes he h1 h2 hnone =>
      subst he
      refine hinv.passes hlog ⟨h1, h2⟩ hx horder hst rfl hnone hnew ?_
      intro hmem
      rcases List.mem_append.mp hmem with h | h
      · exact no_readTry hnone h
      · exact hinv.buffers (hold _ h)
  · have hlog : (r.1.streamView s).log = (g.cfg.world.streamView s).log ++ [] := by
      rw [exec_streamView hf hr, List.append_nil]
    have hframe : readFrame s (.lib f) = none := by
      cases f with
      | readAlloc s' | readTry s' buf =>
        have hne : s' ≠ s := fun h => hf (congrArg some h)
        simp only [Pandio.readFrame, hne, if_false]
      | _ => rfl
    refine hkeep (hp.readFrame hf) hframe ?_ [] hlog rfl rfl
    rw [hst]
    intro rest' h
    cases h
    exact hf rfl

/-- A call of the application. -/
theorem ReadInv.api (hinv : ReadInv s g) {k : Call} {a : Answer} {cb : Cb} {rest : List Item}
    {r : World × List Item} (hst : g.cfg.stack = .app cb :: rest)
    (hr : api g.cfg.world k a = some r) :
    ReadInv s (g.next s (.api k a) ⟨r.1, r.2 ++ .app cb :: rest⟩) := by
  have hchain := hinv.order
  have hx : allocated s g.cfg (.api k a) = none := by simp [allocated]
  have hp := api_pushes hr
  obtain ⟨hl, hhead, hlast⟩ := hp.atAlloc
  rw [hst] at hchain
  have horder : (r.2 ++ .app cb :: rest).IsChain AtAlloc := by
    refine Stack.chain_push hchain hl fun i hi => ⟨fun s' h => ?_, fun s' h => ?_⟩
    · cases h
    · exact absurd h (hlast i hi s')
  have hnew : ∀ rest', r.2 ++ .app cb :: rest ≠ .lib (.readAlloc s) :: rest' :=
    top_not_readAlloc hhead (by simp)
  obtain ⟨m, hlog, h1, h2⟩ : ∃ m, (r.1.streamView s).log = (g.cfg.world.streamView s).log ++ m ∧
      allocs s m = 0 ∧ Pandio.passes s m = [] := by
    by_cases hk : k.stream = some s
    · exact (api_stream hk hr).readStep
    · refine ⟨[], ?_, rfl, rfl⟩
      rw [api_streamView hk hr, List.append_nil]
  refine hinv.idle hlog ⟨h1, h2⟩ hx horder rfl hp.readFrame ?_ ?_ (by rw [hst]; simp) hnew
  · intro i hi
    rw [hst]
    exact hi
  · rw [hst]

/-- A callback returns, the allocator with the buffer. -/
theorem ReadInv.ret (hinv : ReadInv s g) {p : Option Nat} {cb : Cb} {rest : List Item}
    (hok : GivesBuffer s g.cfg (.ret p)) (hst : g.cfg.stack = .app cb :: rest) :
    ReadInv s (g.next s (.ret p) ⟨g.cfg.world.setPtr p, rest⟩) := by
  have hchain := hinv.order
  rw [hst] at hchain
  by_cases halloc : cb = .allocator s
  · subst halloc
    have hx : allocated s g.cfg (.ret p) = some p := by simp [allocated, hst]
    obtain ⟨b, rfl⟩ : ∃ b, p = some b := by
      apply Option.ne_none_iff_exists'.mp
      rintro rfl
      exact hok hx
    exact hinv.given_one rfl hx rfl hst rfl
  · have hx : allocated s g.cfg (.ret p) = none := by
      cases cb with
      | allocator s' =>
        have hne : s' ≠ s := fun h => halloc (congrArg Cb.allocator h)
        simp [allocated, hst, hne]
      | _ => simp [allocated, hst]
    have hnew : ∀ rest', rest ≠ .lib (.readAlloc s) :: rest' := by
      rintro rest' rfl
      have habove := (List.isChain_cons_cons.mp hchain).1.1 s rfl
      cases habove
      exact halloc rfl
    refine hinv.idle (l := []) (List.append_nil _).symm ⟨rfl, rfl⟩ hx hchain.tail rfl rfl ?_ ?_
      (by rw [hst]; simp) hnew
    · intro i hi
      rw [hst]
      exact List.mem_cons_of_mem _ hi
    · rw [hst, List.filterMap_cons_none rfl]

/-- The kernel works by itself. -/
theorem ReadInv.env (hinv : ReadInv s g) {e : Env} {w' : World} (he : env g.cfg.world e = some w') :
    ReadInv s (g.next s (.env e) ⟨w', g.cfg.stack⟩) := by
  have hchain := hinv.order
  have hx : allocated s g.cfg (.env e) = none := by simp [allocated]
  have hlog : (w'.streamView s).log = (g.cfg.world.streamView s).log ++ [] := by
    rw [env_streamView he, List.append_nil]
  have hptr : w'.ptr = g.cfg.world.ptr := by
    cases e <;> simp only [Pandio.env] at he <;> (try split at he) <;> cases he <;> rfl
  refine hinv.quiet hlog ⟨rfl, rfl⟩ hx hchain ?_ hinv.buffers ?_
  · show underWay s w'.ptr _ = _
    rw [hptr]
  · intro rest h
    show w'.ptr ≠ none
    rw [hptr]
    exact hinv.given rest h

theorem ReadInv.step (hinv : ReadInv s g) (hok : GivesBuffer s g.cfg x)
    (hs : Pandio.step g.cfg x = some c') : ReadInv s (g.next s x c') := by
  rcases step_cases hs with ⟨a, f, rest, r, rfl, hst, hr, rfl⟩ |
    ⟨k, a, cb, rest, r, rfl, hst, hr, rfl⟩ | ⟨p, cb, rest, rfl, hst, -, rfl⟩ |
    ⟨e, w', rfl, he, rfl⟩
  · exact hinv.exec hst hr
  · exact hinv.api hst hr
  · exact hinv.ret hok hst
  · exact hinv.env he

theorem allocs_filter (l : List Obs) : allocs s (l.filter (isStreamObs s)) = allocs s l := by
  unfold allocs
  rw [List.countP_filter]
  apply List.countP_congr
  intro o _
  split <;> simp [isStreamObs]

end

/-! ## Runs -/

theorem ReadRun.inv {s : Sid} {g : Reads} (r : ReadRun s (GivesBuffer s) g) : ReadInv s g := by
  refine Machine.Reach.invariant (P := ReadInv s) ?_ ?_ r
  · rintro ⟨c, opened, finished⟩ ⟨⟨k, fd, -, -, rfl⟩, rfl, rfl⟩
    exact ⟨by simp, rfl, by simp, by simp, by simp, rfl⟩
  · intro g x g' _ hinv hok hs
    obtain ⟨c', hc, rfl⟩ := Option.map_eq_some_iff.mp hs
    exact hinv.step hok hc

theorem ReadRun.sound {s : Sid} {g : Reads} (r : ReadRun s (GivesBuffer s) g) :
    ReadsSound s g := by
  have hinv := r.inv
  refine ⟨hinv.finished, ?_, hinv.buffers, ?_⟩
  · rw [hinv.opened]
    exact fun d hd => underWay_passed hd
  · rw [← allocs_filter]
    exact hinv.all

theorem callOnData_some {w : World} {s : Sid} {buf : Option Nat} {size : Int} {bytes : List UInt8}
    {fs : List Frame} (hd : (w.tcp s).onData = true) :
    callOnData w s buf size bytes fs = some (w.call (.onData s buf size bytes) fs) := by
  rw [callOnData, if_pos hd]

/-- A `read` that is not interrupted is followed by `on_data`. -/
theorem readTry_calls {w : World} {s : Sid} {buf : Option Nat} {a : Answer}
    (hd : (w.tcp s).onData = true)
    (ha : w.kernel.readRes (w.tcp s).fd buf.isSome readSize (a.sys 0) ≠ .err EINTR) :
    ∃ r size bytes fs, readTry w s buf a = some r ∧
      r.2 = .app (.onData s buf size bytes) :: fs.map .lib ∧ fs ⊆ [.close s] := by
  simp only [readTry]
  split
  · rename_i e he
    have hne : e ≠ EINTR := by
      rintro rfl
      exact ha he
    rw [if_neg hne]
    split
    · exact ⟨_, _, _, _, callOnData_some hd, rfl, by simp⟩
    · exact ⟨_, _, _, _, callOnData_some hd, rfl, by simp⟩
  · exact ⟨_, _, _, _, callOnData_some hd, rfl, by simp⟩
  · exact ⟨_, _, _, _, callOnData_some hd, rfl, by simp⟩

/-- A dispatch that reads, and is not interrupted, ends. -/
theorem ReadRun.finishes {s : Sid} {g : Reads} (r : ReadRun s (GivesBuffer s) g) {buf : Option Nat}
    {rest : List Item} {a : Answer} (hst : g.cfg.stack = .lib (.readTry s buf) :: rest)
    (hd : (g.cfg.world.tcp s).onData = true)
    (ha : g.cfg.world.kernel.readRes (g.cfg.world.tcp s).fd buf.isSome readSize (a.sys 0) ≠
      .err EINTR) :
    ∃ g', g.step s (.lib a) = some g' ∧ g'.finished.length = g.finished.length + 1 := by
  obtain ⟨q, size, bytes, fs, hq, hitems, hfs⟩ := readTry_calls hd ha
  have hs : Pandio.step g.cfg (.lib a) = some ⟨q.1, q.2 ++ rest⟩ := by
    simp only [Pandio.step, hst, exec, hq, Option.map_some]
  have hg : g.step s (.lib a) = some (g.next s (.lib a) ⟨q.1, q.2 ++ rest⟩) := by
    rw [Reads.step, hs, Option.map_some]
  refine ⟨_, hg, ?_⟩
  have hinv := r.inv
  -- one frame less, and no call of the allocator
  have hopened : g.opened.length = (rest.filterMap (readFrame s)).length + 1 := by
    rw [hinv.opened, underWay_length, hst]
    simp only [List.filterMap_cons, readFrame, if_true, List.length_cons]
  have hnone : q.2.filterMap (readFrame s) = [] := by
    rw [hitems, List.filterMap_cons_none rfl, List.filterMap_map]
    apply List.filterMap_eq_nil_iff.mpr
    intro f hf
    obtain rfl := List.mem_singleton.mp (hfs hf)
    rfl
  have hframes : ((q.2 ++ rest).filterMap (readFrame s)).length =
      (rest.filterMap (readFrame s)).length := by
    rw [List.filterMap_append, hnone, List.nil_append]
  obtain ⟨m, hlog, hstep⟩ :=
    (exec_stream (f := .readTry s buf) rfl (show exec _ _ a = some q from hq)).readStep
  have hm : allocs s m = 0 := by
    cases hstep with
    | other h1 _ _ _ => exact h1
    | alloc h => cases h
    | again _ h1 _ _ => exact h1
    | begins h _ _ => cases h
    | passes _ h1 _ _ => exact h1
  have hlogged : streamLogged s g.cfg ⟨q.1, q.2 ++ rest⟩ = m := streamLogged_eq hlog
  simp only [Reads.next, hlogged, hm, Nat.lt_irrefl, if_false, allocated, List.length_modifyHead,
    hframes, hopened, Nat.lt_succ_self, if_true, List.length_append, List.length_take]
  omega

/-- Without a buffer, `on_data` is called and the dispatch goes on to read. -/
theorem null_unsound {s : Sid} {g g1 g2 : Reads} {x : Act} {a : Answer} (hinv : ReadInv s g)
    (hx : allocated s g.cfg x = some none) (h1 : g.step s x = some g1)
    (h2 : g1.step s (.lib a) = some g2) : ¬ ReadsSound s g2 := by
  obtain ⟨c1, hc1, rfl⟩ := Option.map_eq_some_iff.mp h1
  obtain ⟨c2, hc2, rfl⟩ := Option.map_eq_some_iff.mp h2
  rw [Reads.next_cfg] at hc2
  intro hsound
  apply hsound.reads
  rw [Reads.next_cfg]
  unfold allocated at hx
  split at hx
  · rename_i ptr s' rest hst
    split at hx
    · rename_i hs
      subst hs
      cases hx
      have hchain := hinv.order
      rw [hst] at hchain
      simp only [Pandio.step, hst, reduceCtorEq, if_false] at hc1
      cases hc1
      cases rest with
      | nil => cases hc2
      | cons j tail =>
        obtain rfl := (List.isChain_cons_cons.mp hchain).1.2 s' rfl
        simp only [Pandio.step, exec, readAlloc, setPtr] at hc2
        obtain ⟨q, hq, rfl⟩ := Option.map_eq_some_iff.mp hc2
        rw [callOnData_items hq]
        simp
    · cases hx
  · cases hx

/-- **Every dispatch of `pd__tcp_read` calls `on_data` once, with its buffer**, as long as the
allocator gives one: the dispatches that have returned did so, every other one ends with its first
`read` that is not interrupted, and the first time the allocator returns NULL a read without a buffer
follows. -/
theorem reads_sound {s : Sid} {g : Reads} (r : ReadRun s (GivesBuffer s) g) :
    ReadsSound s g ∧
    (∀ buf rest a, g.cfg.stack = .lib (.readTry s buf) :: rest →
      (g.cfg.world.tcp s).onData = true →
      g.cfg.world.kernel.readRes (g.cfg.world.tcp s).fd buf.isSome readSize (a.sys 0) ≠
        .err EINTR →
      ∃ g', g.step s (.lib a) = some g' ∧ g'.finished.length = g.finished.length + 1) ∧
    ∀ x g1 g2 a, allocated s g.cfg x = some none → g.step s x = some g1 →
      g1.step s (.lib a) = some g2 → ¬ ReadsSound s g2 :=
  ⟨r.sound, fun _ _ _ hst hd ha => r.finishes hst hd ha,
    fun _ _ _ _ hx h1 h2 => null_unsound r.inv hx h1 h2⟩

/-- The start of a run, with no dispatch. -/
def Reads.start (fds : List Fd) : Reads := { cfg := Cfg.start fds, opened := [], finished := [] }

theorem Reads.start_init (fds : List Fd) : (Reads.start fds).Init := ⟨Cfg.start_init fds, rfl, rfl⟩

/-- A byte arrives on a stream, and the poll reports it. -/
def readableStream : List Act :=
  [.api (.tcpAccept 0 5) (.ok 0 []), .api (.setOnData 0 true) (.ok 0 []), .env (.arrive 5 [1]),
    .api .ioRun (.ok 0 []), .lib (.ok 0 [(5, ⟨true, false, false, false, false⟩)]), .lib (.ok 0 [])]

/-- The allocator gives buffer 7. -/
theorem reads_sound_one : ∃ g, ReadRun 0 (GivesBuffer 0) g ∧
    g.finished = [⟨some 7, [some 7]⟩] ∧ ReadsSound 0 g := by
  have hplay : (Machine.play (Reads.step 0) (fun g x => GivesBuffer 0 g.cfg x) (Reads.start [5])
      (readableStream ++ [.ret (some 7), .lib (.ok 6144 []), .lib (.ok 6144 [])])).map
        (fun g => g.finished) = some [⟨some 7, [some 7]⟩] := by
    decide +kernel
  obtain ⟨g, hg, hfinished⟩ := Option.map_eq_some_iff.mp hplay
  have hrun : ReadRun 0 (GivesBuffer 0) g := Machine.Reach.play (.init (Reads.start_init [5])) hg
  exact ⟨g, hrun, hfinished, (reads_sound hrun).1⟩

/-- The allocator returns NULL: `on_data` is called with `PD_ENOMEM`, and again with the error of the
`read` into NULL. -/
theorem not_reads_sound : ∃ g, ReadRun 0 (fun _ _ => True) g ∧
    g.finished = [⟨none, [none, none]⟩] ∧ ¬ ReadsSound 0 g := by
  have hplay : (Machine.play (Reads.step 0) (fun _ _ => True) (Reads.start [5])
      (readableStream ++ [.ret none, .lib (.ok 0 []), .ret none, .lib (.ok 6144 [])])).map
        (fun g => g.finished) = some [⟨none, [none, none]⟩] := by
    decide +kernel
  obtain ⟨g, hg, hfinished⟩ := Option.map_eq_some_iff.mp hplay
  refine ⟨g, Machine.Reach.play (.init (Reads.start_init [5])) hg, hfinished, ?_⟩
  intro h
  obtain ⟨p, hp, _⟩ := h.finished ⟨none, [none, none]⟩ (by rw [hfinished]; simp)
  cases hp

end Pandio
