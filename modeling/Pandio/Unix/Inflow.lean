import Pandio.Lib.Stack
import Pandio.Unix.ConnectOnce

/- What the peer sends and what `on_data` is given. Beside a run everything the peer has
   sent on one stream's descriptor is recorded, from the open of the stream on; the
   log has what was passed to `on_data`. As long as the stream owns the descriptor the
   one is the other with what the kernel still holds.

   `pd__tcp_client_io` reads once for an event, at most 6 * 1024 bytes, and closes the
   stream when the event has `PD_CLOSE`; it does not ask whether there is more, and an
   event without `PD_POLLIN` is not read at all. So a hang-up must find no more than one
   read's worth, and must come with `PD_POLLIN` if it finds anything.

   Correspondence (C ↔ Lean):
     the socket's receive queue                  ↔ `Sock.rx`
     the peer's bytes up to its FIN              ↔ `Inflow.sent`
     the buffers of `on_data`, one after another ↔ `received` -/
namespace Pandio
open World

/-! ## What is sent and what is received -/

/-- What an entry of the log adds to what the stream's connection has passed to `on_data`. -/
def receivedAfter (s : Sid) (got : Option (List UInt8)) : Obs → Option (List UInt8)
  | .ctl (.tcp s') _ .add => if s' = s then some [] else got
  | .opened s' _ | .abandoned s' _ => if s' = s then none else got
  | .cb (.onData s' _ _ bytes) _ => if s' = s then got.map (· ++ bytes) else got
  | _ => got

/-- What was passed to `on_data` since the stream was opened; nothing, if its last open failed. -/
def received (s : Sid) (log : List Obs) : Option (List UInt8) := log.foldl (receivedAfter s) none

/-- A run's configuration, with what the peer of one stream has sent since it was opened. -/
structure Inflow where
  cfg : Cfg
  sent : List UInt8

/-- What has been sent after a step. What had arrived before the stream was opened counts. -/
def Inflow.next (s : Sid) (g : Inflow) (x : Act) (c' : Cfg) : Inflow :=
  { cfg := c'
    sent :=
      if g.cfg.world.log.countP (isAddOf s) < c'.world.log.countP (isAddOf s) then
        (c'.world.kernel.sock (c'.world.tcp s).fd).rx
      else
        match x with
        | .env (.arrive fd bytes) =>
          if owned s g.cfg.world.log = some fd then g.sent ++ bytes else g.sent
        | _ => g.sent }

def Inflow.step (s : Sid) (g : Inflow) (x : Act) : Option Inflow :=
  (Pandio.step g.cfg x).map (g.next s x)

def Inflow.Init (g : Inflow) : Prop := g.cfg.Init ∧ g.sent = []

/-- The runs whose steps all meet `ok`, with what is sent to one stream. -/
abbrev InflowRun (s : Sid) (ok : Cfg → Act → Prop) : Inflow → Prop :=
  Machine.Reach (Inflow.step s) (fun g x => ok g.cfg x) Inflow.Init

/-- A stream that was closed has passed on everything the peer had sent. -/
def DeliversAll (s : Sid) (g : Inflow) : Prop :=
  owned s g.cfg.world.log = none → ∀ got ∈ received s g.cfg.world.log, got = g.sent

/-! ## The surroundings -/

/-- The buffer of the `read` that the library makes next for the stream. -/
def Cfg.reads (c : Cfg) (s : Sid) : Option (Option Nat) :=
  match c.stack with
  | .lib (.readTry s' buf) :: _ => if s' = s then some buf else none
  | _ => none

/-- A `read` without an error: it is interrupted, or finds nothing, or gives what there is up to its
size. -/
def Sock.Gives (k : Sock) : SysRes → Prop
  | .err e => e = EINTR ∨ e = EAGAIN ∧ k.rx = []
  | .ok n => n = min readSize k.rx.length

/-- No `read` of the stream fails, and none is made after it was closed. -/
def ReadsWell (s : Sid) (c : Cfg) : Act → Prop
  | .lib a => ∀ buf ∈ c.reads s, (c.world.tcp s).status ≠ .closed ∧
      (c.world.kernel.sock (c.world.tcp s).fd).Gives
        (c.world.kernel.readRes (c.world.tcp s).fd buf.isSome readSize (a.sys 0))
  | _ => True

/-- The step is the peer's. -/
def Act.ofPeer : Act → Bool
  | .env (.arrive _ _) | .env (.peerFin _) => true
  | _ => false

/-- The step is a `read` of the stream. -/
def Act.reads (c : Cfg) (s : Sid) : Act → Bool
  | .lib _ => (c.reads s).isSome
  | _ => false

/-- Nobody but the peer and the stream's own reads touches the socket the stream owns. -/
def OwnsAlone (s : Sid) (c : Cfg) (x : Act) : Prop :=
  ∀ fd ∈ owned s c.world.log, ∀ c' ∈ step c x, x.ofPeer = true ∨ x.reads c s = true ∨
    c'.world.kernel.sock fd = c.world.kernel.sock fd

/-- The application does not close the stream. -/
def NotForced (s : Sid) : Act → Prop
  | .api k _ => k.closes s = false
  | _ => True

/-- `on_data` is set when an event of the stream arrives. -/
def HasOnData (s : Sid) (c : Cfg) : Act → Prop
  | .lib _ => ∀ _ev ∈ c.event s, (c.world.tcp s).handler = some .clientIo →
      (c.world.tcp s).onData = true
  | _ => True

/-- A stream with `on_data` set that the application never closes, and that no read fails on. -/
def Peaceful (s : Sid) (c : Cfg) (x : Act) : Prop :=
  NotForced s x ∧ HasOnData s c x ∧ ReadsWell s c x ∧ OwnsAlone s c x

/-- The item closes the stream if it is not closed. -/
def Item.closes (s : Sid) : Item → Bool
  | .lib f => f.closes s
  | .app _ => false

/-- The stream a call opens. -/
def Call.opens (s : Sid) : Call → Bool
  | .tcpAccept s' _ | .tcpConnect s' _ => s' = s
  | _ => false

/-- A hang-up comes after the peer's FIN, and one read takes what it finds; and the stream is not
opened while a hang-up of its last connection is still handled. -/
def HangsUpRead (s : Sid) (c : Cfg) : Act → Prop
  | .lib _ => ∀ ev ∈ c.event s, ∀ fd ∈ owned s c.world.log,
      (c.world.tcp s).handler = some .clientIo → (c.world.tcp s).status ≠ .closed →
      ev.close = true → (c.world.kernel.sock fd).fin = true ∧
        ((c.world.kernel.sock fd).rx = [] ∨
          ev.pollin = true ∧ (c.world.kernel.sock fd).rx.length ≤ readSize)
  | .api k _ => k.opens s = true → ∀ i ∈ c.stack, i.closes s = false
  | _ => True

/-- The runs that are peaceful, and whose hang-ups are read. -/
def DrainsHangUps (s : Sid) (c : Cfg) (x : Act) : Prop := Peaceful s c x ∧ HangsUpRead s c x

instance (k : Sock) : (r : SysRes) → Decidable (k.Gives r)
  | .err _ => inferInstanceAs (Decidable (_ ∨ _))
  | .ok _ => inferInstanceAs (Decidable (_ = _))

instance (s : Sid) (c : Cfg) : (x : Act) → Decidable (ReadsWell s c x)
  | .lib _ => inferInstanceAs (Decidable (∀ buf ∈ c.reads s, _ ∧ _))
  | .api _ _ => .isTrue trivial
  | .ret _ => .isTrue trivial
  | .env _ => .isTrue trivial

instance (s : Sid) (c : Cfg) (x : Act) : Decidable (OwnsAlone s c x) :=
  inferInstanceAs (Decidable (∀ fd ∈ owned s c.world.log, ∀ c' ∈ step c x, _ ∨ _))

instance (s : Sid) : (x : Act) → Decidable (NotForced s x)
  | .api _ _ => inferInstanceAs (Decidable (_ = _))
  | .lib _ => .isTrue trivial
  | .ret _ => .isTrue trivial
  | .env _ => .isTrue trivial

instance (s : Sid) (c : Cfg) : (x : Act) → Decidable (HasOnData s c x)
  | .lib _ => inferInstanceAs (Decidable (∀ _ev ∈ c.event s, _ → _))
  | .api _ _ => .isTrue trivial
  | .ret _ => .isTrue trivial
  | .env _ => .isTrue trivial

instance (s : Sid) (c : Cfg) : (x : Act) → Decidable (HangsUpRead s c x)
  | .lib _ => inferInstanceAs (Decidable (∀ ev ∈ c.event s, ∀ fd ∈ owned s c.world.log, _ → _))
  | .api _ _ => inferInstanceAs (Decidable (_ → _))
  | .ret _ => .isTrue trivial
  | .env _ => .isTrue trivial

instance (s : Sid) (c : Cfg) (x : Act) : Decidable (Peaceful s c x) :=
  inferInstanceAs (Decidable (_ ∧ _))

instance (s : Sid) (c : Cfg) (x : Act) : Decidable (DrainsHangUps s c x) :=
  inferInstanceAs (Decidable (_ ∧ _))

/-! ## What the functions pass to `on_data` -/

/-- The entries that matter for what the stream has received. -/
def isInflowObs (s : Sid) : Obs → Bool
  | .ctl (.tcp s') _ .add | .opened s' _ | .abandoned s' _ | .cb (.onData s' _ _ _) _ => s' = s
  | _ => false

section
variable {s : Sid} {l m : List Obs} {got : Option (List UInt8)} {o : Obs}

theorem isInflowObs_isStreamObs (ho : isInflowObs s o = true) : isStreamObs s o = true := by
  unfold isInflowObs at ho
  split at ho <;> simp_all [isStreamObs]

theorem receivedAfter_idle (ho : isInflowObs s o = false) : receivedAfter s got o = got := by
  unfold receivedAfter
  split <;> simp_all [isInflowObs]

theorem received_append : received s (l ++ m) = m.foldl (receivedAfter s) (received s l) :=
  List.foldl_append

/-- What is about other streams does not matter. -/
theorem received_filter (l : List Obs) : received s (l.filter (isStreamObs s)) = received s l := by
  refine foldl_filter_idle (fun got o ho => receivedAfter_idle ?_) none l
  by_contra h
  rw [isInflowObs_isStreamObs (by simpa using h)] at ho
  cases ho

/-- Entries that pass nothing on. -/
theorem received_idle (hm : ∀ o ∈ m, isInflowObs s o = false) :
    received s (l ++ m) = received s l := by
  rw [received_append]
  exact foldl_idle fun o ho => receivedAfter_idle (hm o ho)

end

section
variable {s : Sid} {now : Nat} {v v' : StreamView} {new : List Item}

/-- Log entries that pass nothing on leave what was received. -/
theorem received_logs {l : List Obs} (hl : v'.log = v.log ++ l)
    (hidle : ∀ o ∈ l, isInflowObs s o = false) : received s v'.log = received s v.log := by
  rw [hl, received_idle hidle]

theorem received_enqueue {op : Op} : received s (v.enqueue s op).log = received s v.log := by
  unfold StreamView.enqueue
  split
  · rfl
  · exact received_logs rfl (by simp [isInflowObs])

/-- **Only a read passes bytes on.** -/
theorem StreamExec.received {f : Frame} (h : StreamExec s now v f v' new)
    (hf : ∀ buf, f ≠ .readTry s buf) : received s v'.log = received s v.log := by
  cases h with
  | readAgain | readNothing | readEnd | read => exact absurd rfl (hf _)
  | noBuffer =>
    rw [logs_log, received_append]
    simp [receivedAfter]
  | tryQueued => exact received_enqueue.trans (received_logs rfl (by simp [isInflowObs]))
  | connectedCalled =>
    have h1 : Pandio.received s (v.connected s).log = Pandio.received s v.log :=
      received_logs rfl (by simp [isInflowObs])
    exact (received_logs rfl (by simp [isInflowObs])).trans h1
  | _ =>
    first
      | rfl
      | exact received_logs rfl (by simp [isInflowObs])

/-- **What a call does**: it passes nothing on and leaves a closed stream closed, or it closes the
stream, or opens it. -/
theorem StreamApi.inflow {k : Call} (h : StreamApi s v k v' new) :
    (v.Keeps s v' ∧ Pandio.received s v'.log = Pandio.received s v.log ∧
      (v.tcp.status = .closed → v'.tcp.status = .closed)) ∨
    k.closes s = true ∨ k.opens s = true ∧ v.Opens s v' := by
  cases h with
  | accept => exact .inr (.inr ⟨by simp [Call.opens], .opened rfl⟩)
  | connect => exact .inr (.inr ⟨by simp [Call.opens], .opened rfl⟩)
  | connectRefused => exact .inr (.inr ⟨by simp [Call.opens], .failed⟩)
  | close | closeAgain => exact .inr (.inl (by simp [Call.closes]))
  | writeQueued hact =>
    refine .inl ⟨?_, received_enqueue.trans (received_logs rfl (by simp [isInflowObs])), ?_⟩
    · apply StreamView.Keeps.enqueue
      exact .of_logs rfl (by simp [isCustodyObs])
    · intro hc
      rw [hc] at hact
      cases hact
  | connectNothing | shutNothing => exact .inl ⟨.refl, rfl, id⟩
  | setOnData | setOnClose => exact .inl ⟨⟨rfl, [], by simp, by simp⟩, rfl, id⟩
  | write hact | shut hact | shutLater hact =>
    refine .inl ⟨.of_logs rfl (by simp [isCustodyObs]),
      received_logs rfl (by simp [isInflowObs]), fun hc => ?_⟩
    rw [hc] at hact
    cases hact
  | _ =>
    exact .inl ⟨.of_logs rfl (by simp [isCustodyObs]),
      received_logs rfl (by simp [isInflowObs]), id⟩

/-- A stream that is not closed after a frame was not before. -/
theorem StreamExec.unclosed {f : Frame} (h : StreamExec s now v f v' new)
    (hst : v'.tcp.status ≠ .closed) : v.tcp.status ≠ .closed := by
  cases h with
  | connected _ hne | connectedCalled _ hne => exact hne
  | close | ioClose => exact absurd rfl hst
  | tryQueued hact =>
    intro hc
    rw [hc] at hact
    cases hact
  | _ => exact hst

end

/-! ## Hang-ups on the stack -/

/-- The item is about to read from the stream's descriptor. -/
def Item.reading (s : Sid) : Item → Bool
  | .lib (.readAlloc s') | .lib (.readTry s' _) => s' = s
  | _ => false

/-- What closes the stream stands directly under a read of it. -/
structure UnderRead (s : Sid) (stack : List Item) : Prop where
  head : ∀ i ∈ stack.head?, i.closes s = false
  chain : stack.IsChain fun i j => j.closes s = true → i.reading s = true

/-- A hang-up that is being handled comes after the peer's FIN, and one read empties the socket;
the socket is empty, or the read is still to come. -/
structure HangsOver (s : Sid) (k : Sock) (stack : List Item) : Prop where
  fin : ∀ i ∈ stack, i.closes s = true → k.fin = true ∧ k.rx.length ≤ readSize
  read : k.rx = [] ∨ UnderRead s stack

section
variable {s : Sid} {k k' : Sock} {i : Item} {l rest stack : List Item}

theorem UnderRead.of_none (h : ∀ i ∈ stack, i.closes s = false) : UnderRead s stack := by
  constructor
  · exact fun i hi => h i (List.mem_of_mem_head? hi)
  · induction stack with
    | nil => exact .nil
    | cons i stack ih =>
      rw [List.isChain_cons]
      refine ⟨fun j hj hc => ?_, ih fun j hj => h j (List.mem_cons_of_mem i hj)⟩
      rw [h j (List.mem_cons_of_mem i (List.mem_of_mem_head? hj))] at hc
      cases hc

/-- What is pushed on the stack closes nothing. -/
theorem UnderRead.push (h : UnderRead s stack) (hl : ∀ j ∈ l, j.closes s = false) :
    UnderRead s (l ++ stack) := by
  constructor
  · intro j hj
    cases l with
    | nil => exact h.head j hj
    | cons m l =>
      cases hj
      exact hl _ (by simp)
  · rw [List.isChain_append]
    refine ⟨(UnderRead.of_none hl).chain, h.chain, fun a _ b hb hc => ?_⟩
    rw [h.head b hb] at hc
    cases hc

/-- The top is replaced by items that close nothing; where it was about to read, the last of them
is. -/
theorem UnderRead.replace (h : UnderRead s (i :: rest)) (hl : ∀ j ∈ l, j.closes s = false)
    (hi : i.reading s = true → ∃ j ∈ l.getLast?, j.reading s = true) :
    UnderRead s (l ++ rest) := by
  constructor
  · intro j hj
    cases l with
    | nil =>
      by_contra hc
      obtain ⟨m, hm, -⟩ := hi ((List.isChain_cons.mp h.chain).1 j hj (by simpa using hc))
      cases hm
    | cons a l =>
      cases hj
      exact hl _ (by simp)
  · refine Stack.chain_replace h.chain (UnderRead.of_none hl).chain fun k hk j hij hj => ?_
    obtain ⟨m, hm, hmr⟩ := hi (hij hj)
    obtain rfl : k = m := Option.some.inj (Option.mem_def.mp hk ▸ hm)
    exact hmr

theorem HangsOver.push (h : HangsOver s k stack) (hl : ∀ j ∈ l, j.closes s = false) :
    HangsOver s k (l ++ stack) := by
  constructor
  · intro j hj hc
    rcases List.mem_append.mp hj with hj | hj
    · rw [hl j hj] at hc
      cases hc
    · exact h.fin j hj hc
  · exact h.read.imp id fun hu => hu.push hl

theorem HangsOver.replace (h : HangsOver s k (i :: rest)) (hl : ∀ j ∈ l, j.closes s = false)
    (hi : i.reading s = true → ∃ j ∈ l.getLast?, j.reading s = true) :
    HangsOver s k (l ++ rest) := by
  constructor
  · intro j hj hc
    rcases List.mem_append.mp hj with hj | hj
    · rw [hl j hj] at hc
      cases hc
    · exact h.fin j (List.mem_cons_of_mem i hj) hc
  · exact h.read.imp id fun hu => hu.replace hl hi

/-- No hang-up is being handled. -/
theorem HangsOver.of_none (h : ∀ i ∈ stack, i.closes s = false) : HangsOver s k stack := by
  refine ⟨fun i hi hc => ?_, .inr (.of_none h)⟩
  rw [h i hi] at hc
  cases hc

/-- What arrives is not after a FIN. -/
theorem HangsOver.arrive (h : HangsOver s k stack) (hfin : k.fin = false) :
    HangsOver s k' stack := by
  refine .of_none fun i hi => ?_
  by_contra hc
  have := (h.fin i hi (by simpa using hc)).1
  rw [hfin] at this
  cases this

theorem HangsOver.peerFin (h : HangsOver s k stack) : HangsOver s { k with fin := true } stack :=
  ⟨fun i hi hc => ⟨rfl, (h.fin i hi hc).2⟩, h.read⟩

/-- A read that is not repeated takes what there is, up to its size. -/
theorem HangsOver.read_step (h : HangsOver s k (i :: rest)) (hfin : k'.fin = k.fin)
    (hrx : k.rx.length ≤ readSize → k'.rx = [])
    (hl : (∀ j ∈ l, j.closes s = false) ∨ k.fin = true ∧ k'.rx = []) :
    HangsOver s k' (l ++ rest) := by
  have hempty : k'.rx = [] → (∀ j ∈ l, j.closes s = true → k.fin = true) →
      HangsOver s k' (l ++ rest) := by
    intro hnil hpushed
    refine ⟨fun j hj hc => ⟨?_, by simp [hnil]⟩, .inl hnil⟩
    rw [hfin]
    rcases List.mem_append.mp hj with hj | hj
    · exact hpushed j hj hc
    · exact (h.fin j (List.mem_cons_of_mem i hj) hc).1
  rcases hl with hl | ⟨hf, hnil⟩
  · by_cases hlen : k.rx.length ≤ readSize
    · refine hempty (hrx hlen) fun j hj hc => ?_
      rw [hl j hj] at hc
      cases hc
    · -- more than one read's worth: no hang-up waits
      refine .of_none fun j hj => ?_
      rcases List.mem_append.mp hj with hj | hj
      · exact hl j hj
      · by_contra hc
        exact hlen (h.fin j (List.mem_cons_of_mem i hj) (by simpa using hc)).2
  · exact hempty hnil fun _ _ _ => hf

end

section
variable {s : Sid} {now : Nat} {v v' : StreamView} {new : List Item}

theorem Frame.Pushes.closes {f : Frame} (h : f.Pushes new) (hf : f.stream ≠ some s) :
    ∀ j ∈ new, j.closes s = false := by
  have hne : ∀ {s'}, f.stream = some s' → s' ≠ s := by
    rintro s' he rfl
    exact hf he
  cases h with
  | poll timeout events =>
    intro j hj
    rcases List.mem_append.mp hj with hj | hj
    · obtain ⟨e, -, rfl⟩ := List.mem_map.mp hj
      rfl
    · simp only [List.mem_cons, List.not_mem_nil, or_false] at hj
      rcases hj with rfl | rfl | rfl | rfl <;> rfl
  | readEnd s' buf =>
    have := hne rfl
    simp [Item.closes, Frame.closes, this]
  | clientRead s' ev hin =>
    have := hne rfl
    simp [Item.closes, Frame.closes, this]
  | client s' ev =>
    have := hne rfl
    simp [Item.closes, Frame.closes, this]
  | _ => simp [Item.closes, Frame.closes]

theorem Call.Pushes.closes {k : Call} (h : k.Pushes new) : ∀ j ∈ new, j.closes s = false := by
  cases h <;> simp [Item.closes, Frame.closes]

/-- A frame of the stream's that is neither an event nor a read. -/
theorem StreamExec.noHangUp {f : Frame} (h : StreamExec s now v f v' new)
    (hd : ∀ ev, f ≠ .dispatch (.tcp s) ev) (hr : ∀ buf, f ≠ .readTry s buf) :
    (∀ j ∈ new, j.closes s = false) ∧
      ((Item.lib f).reading s = true → ∃ j ∈ new.getLast?, j.reading s = true) := by
  cases h with
  | readAgain | readNothing | readEnd | read => exact absurd rfl (hr _)
  | clientRead | client | connectNothing | connectHungUp | connectFailed | connected
  | connectedCalled => exact absurd rfl (hd _)
  | _ => simp [Item.closes, Frame.closes, Item.reading]

/-- An event is dispatched: a hang-up is read first, if there is anything to read. -/
theorem HangsOver.dispatch {k : Sock} {rest : List Item} {ev : Events}
    (h : HangsOver s k (.lib (.dispatch (.tcp s) ev) :: rest))
    (hx : StreamExec s now v (.dispatch (.tcp s) ev) v' new)
    (hdata : v.tcp.handler = some .clientIo → v.tcp.onData = true)
    (hev : v.tcp.handler = some .clientIo → ev.close = true →
      k.fin = true ∧ (k.rx = [] ∨ ev.pollin = true ∧ k.rx.length ≤ readSize)) :
    HangsOver s k (new ++ rest) := by
  have hrest : ∀ i ∈ rest, i.closes s = true → k.fin = true ∧ k.rx.length ≤ readSize :=
    fun i hi => h.fin i (List.mem_cons_of_mem _ hi)
  have hempty : k.rx = [] → k.fin = true → HangsOver s k (new ++ rest) := fun hnil hfin =>
    ⟨fun _ _ _ => ⟨hfin, by simp [hnil]⟩, .inl hnil⟩
  cases hx with
  | clientRead hh hin _ =>
    cases hc : ev.close with
    | false => exact h.replace (by simp [Item.closes, Frame.closes, hc]) (by simp [Item.reading])
    | true =>
      obtain ⟨hfin, hrx⟩ := hev hh hc
      have hlen : k.rx.length ≤ readSize := by
        rcases hrx with hnil | ⟨-, hlen⟩
        · simp [hnil]
        · exact hlen
      refine ⟨fun i _ _ => ⟨hfin, hlen⟩, h.read.imp id fun hu => ?_⟩
      have hu' : UnderRead s ([] ++ rest) := hu.replace (by simp) (by simp [Item.reading])
      refine ⟨by simp [Item.closes], ?_⟩
      simp only [List.cons_append, List.nil_append, List.isChain_cons]
      refine ⟨by simp [Item.closes, Frame.closes], by simp [Item.reading], fun j hj hclose => ?_,
        hu'.chain⟩
      rw [hu'.head j hj] at hclose
      cases hclose
  | client hh hno =>
    cases hc : ev.close with
    | false => exact h.replace (by simp [Item.closes, Frame.closes, hc]) (by simp [Item.reading])
    | true =>
      obtain ⟨hfin, hrx⟩ := hev hh hc
      rcases hrx with hnil | ⟨hin, -⟩
      · exact hempty hnil hfin
      · rcases hno with hno | hno
        · rw [hin] at hno
          cases hno
        · rw [hdata hh] at hno
          cases hno
  | connectNothing | connectHungUp | connected =>
    exact h.replace (l := []) (by simp) (by simp [Item.reading])
  | connectFailed | connectedCalled =>
    exact h.replace (by simp [Item.closes]) (by simp [Item.reading])

end

section
variable {s : Sid} {w : World} {a : Answer} {r : World × List Item}

/-- `read` gives 0 at the end of the stream only. -/
theorem readRes_zero {k : Kernel} {fd : Fd} {buf : Bool} {x : SysRes}
    (h : k.readRes fd buf readSize x = .ok 0) : (k.sock fd).rx = [] ∧ (k.sock fd).fin = true := by
  unfold Kernel.readRes at h
  split at h
  · cases h
  · split at h
    · cases h
    · split at h
      · rename_i hrx
        split at h
        · rename_i hfin
          exact ⟨hrx, hfin⟩
        · cases h
      · split at h
        · cases h
        · simp only [SysRes.ok.injEq] at h
          omega

theorem callOnData_kernel {buf : Option Nat} {size : Int} {bytes : List UInt8} {fs : List Frame}
    (h : callOnData w s buf size bytes fs = some r) : r.1.kernel = w.kernel := by
  unfold callOnData at h
  split at h <;> cases h
  rfl

/-- **What a read does**: it takes bytes from the socket and passes them on. -/
theorem readTry_inflow {buf : Option Nat} (h : readTry w s buf a = some r)
    (hg : (w.kernel.sock (w.tcp s).fd).Gives
      (w.kernel.readRes (w.tcp s).fd buf.isSome readSize (a.sys 0))) :
    ∃ bytes, (w.kernel.sock (w.tcp s).fd).rx = bytes ++ (r.1.kernel.sock (w.tcp s).fd).rx ∧
      (r.1.kernel.sock (w.tcp s).fd).fin = (w.kernel.sock (w.tcp s).fd).fin ∧
      received s (r.1.streamView s).log =
        (received s (w.streamView s).log).map (· ++ bytes) ∧
      (r.2 = [.lib (.readTry s buf)] ∧
          r.1.kernel.sock (w.tcp s).fd = w.kernel.sock (w.tcp s).fd ∨
        ((w.kernel.sock (w.tcp s).fd).rx.length ≤ readSize →
          (r.1.kernel.sock (w.tcp s).fd).rx = []) ∧
        ((∀ j ∈ r.2, j.closes s = false) ∨ (w.kernel.sock (w.tcp s).fd).fin = true ∧
          (r.1.kernel.sock (w.tcp s).fd).rx = [])) := by
  have hmap : ∀ got : Option (List UInt8), got = got.map (· ++ []) := fun got => by simp
  have hread : ∀ b : List UInt8, [Obs.read s (w.tcp s).fd b].filter (isStreamObs s) =
      [.read s (w.tcp s).fd b] := fun b => by simp [isStreamObs]
  have hpass : ∀ (l : List Obs) (b : List UInt8) (size : Int) (c : List UInt8),
      received s (l ++ [.read s (w.tcp s).fd b] ++ [.cb (.onData s buf size c) w.now]) =
        (received s l).map (· ++ c) := by
    intro l b size c
    rw [received_append, received_idle (by simp [isInflowObs])]
    simp [receivedAfter]
  simp only [readTry] at h
  split at h
  · rename_i e he
    rw [he] at hg
    split at h
    · cases h
      refine ⟨[], rfl, rfl, ?_, .inl ⟨rfl, rfl⟩⟩
      rw [← hmap, goOn_streamView, logObs_streamView, setErrno_streamView, hread]
      exact received_idle (by simp [isInflowObs])
    · rename_i hne
      obtain ⟨hagain, hnil⟩ := hg.resolve_left hne
      rw [if_pos hagain] at h
      obtain ⟨-, hv, hi⟩ := callOnData_stream h
      have hk : r.1.kernel = w.kernel := (callOnData_kernel h :)
      refine ⟨[], by rw [hk]; rfl, by rw [hk], ?_, .inr ⟨fun _ => by rw [hk, hnil], .inl ?_⟩⟩
      · rw [hv, logObs_streamView, setErrno_streamView, hread]
        exact hpass ..
      · rw [hi]
        simp [Item.closes]
  · rename_i hz
    obtain ⟨hnil, hfin⟩ := readRes_zero hz
    obtain ⟨-, hv, hi⟩ := callOnData_stream h
    have hk : r.1.kernel = w.kernel := (callOnData_kernel h :)
    refine ⟨[], by rw [hk]; rfl, by rw [hk], ?_, .inr ⟨fun _ => by rw [hk, hnil], .inr ⟨hfin, ?_⟩⟩⟩
    · rw [hv, logObs_streamView, hread]
      exact hpass ..
    · rw [hk, hnil]
  · rename_i n hn
    rw [hn] at hg
    obtain ⟨-, hv, hi⟩ := callOnData_stream h
    have hk : r.1.kernel = w.kernel.consume (w.tcp s).fd (n + 1) := callOnData_kernel h
    have hsock : r.1.kernel.sock (w.tcp s).fd =
        { w.kernel.sock (w.tcp s).fd with rx := (w.kernel.sock (w.tcp s).fd).rx.drop (n + 1) } := by
      rw [hk]
      simp [Kernel.consume]
    refine ⟨(w.kernel.sock (w.tcp s).fd).rx.take (n + 1), ?_, by rw [hsock], ?_, .inr ⟨?_, .inl ?_⟩⟩
    · rw [hsock]
      exact (List.take_append_drop _ _).symm
    · rw [hv, logObs_streamView, setKernel_streamView, hread]
      exact hpass ..
    · intro hlen
      have hg : n + 1 = min readSize (w.kernel.sock (w.tcp s).fd).rx.length := hg
      rw [hsock]
      exact List.drop_eq_nil_of_le (by omega)
    · rw [hi]
      simp [Item.closes]

end

/-! ## The invariant -/

/-- What was received and what is still in the socket is what was sent, and after the close there is
nothing left; and the hang-ups that are being handled are read. -/
structure InflowInv (s : Sid) (g : Inflow) : Prop where
  account : ∀ got ∈ received s (g.cfg.world.streamView s).log,
    (∀ fd ∈ owned s (g.cfg.world.streamView s).log,
      got ++ (g.cfg.world.kernel.sock fd).rx = g.sent) ∧
    (owned s (g.cfg.world.streamView s).log = none → got = g.sent)
  closed : owned s (g.cfg.world.streamView s).log = none →
    (received s (g.cfg.world.streamView s).log).isSome → (g.cfg.world.tcp s).status = .closed
  hangs : ∀ fd ∈ owned s (g.cfg.world.streamView s).log, (g.cfg.world.tcp s).status ≠ .closed →
    HangsOver s (g.cfg.world.kernel.sock fd) g.cfg.stack

section
variable {s : Sid} {g : Inflow} {c c' : Cfg} {x : Act}

theorem Inflow.next_cfg : (g.next s x c').cfg = c' := rfl

/-- A step that is not the peer's and opens nothing adds nothing to what was sent. -/
theorem Inflow.next_sent (hadd : c'.world.log.countP (isAddOf s) = g.cfg.world.log.countP (isAddOf s))
    (hx : x.ofPeer = false) : (g.next s x c').sent = g.sent := by
  simp only [Inflow.next, hadd, Nat.lt_irrefl, if_false]
  split
  · cases hx
  · rfl

theorem adds_of_keeps (hk : (c.world.streamView s).Keeps s (c'.world.streamView s)) :
    c'.world.log.countP (isAddOf s) = c.world.log.countP (isAddOf s) :=
  countP_of_keeps (fun _ => isAddOf_isCustodyObs) hk

theorem reads_none {f : Frame} {rest : List Item} {a : Answer} (hst : c.stack = .lib f :: rest)
    (hf : ∀ buf, f ≠ .readTry s buf) : Act.reads c s (.lib a) = false := by
  simp only [Act.reads, Cfg.reads, hst]
  split
  · rename_i s' buf _ heq
    cases heq
    have hs : s' ≠ s := by
      rintro rfl
      exact hf buf rfl
    simp [hs]
  · rfl

/-- The socket of a stream that does not read is left alone by all but its peer. -/
theorem sock_eq (hok : OwnsAlone s c x) (hs : step c x = some c') (hx : x.ofPeer = false)
    (hr : x.reads c s = false) {fd : Fd} (hfd : fd ∈ owned s (c.world.streamView s).log) :
    c'.world.kernel.sock fd = c.world.kernel.sock fd := by
  rw [streamView, owned_filter] at hfd
  rcases hok fd hfd c' hs with h | h | h
  · rw [hx] at h
    cases h
  · rw [hr] at h
    cases h
  · exact h

/-- A step that passes nothing on and leaves the socket alone. -/
theorem InflowInv.carry (h : InflowInv s g)
    (hk : (g.cfg.world.streamView s).Keeps s (c'.world.streamView s))
    (hgot : received s (c'.world.streamView s).log = received s (g.cfg.world.streamView s).log)
    (hclosed : (g.cfg.world.tcp s).status = .closed → (c'.world.tcp s).status = .closed)
    (hx : x.ofPeer = false) (hsock : ∀ fd ∈ owned s (g.cfg.world.streamView s).log,
      c'.world.kernel.sock fd = g.cfg.world.kernel.sock fd)
    (hhangs : ∀ fd ∈ owned s (g.cfg.world.streamView s).log, (c'.world.tcp s).status ≠ .closed →
      HangsOver s (g.cfg.world.kernel.sock fd) c'.stack) : InflowInv s (g.next s x c') := by
  have hsent := Inflow.next_sent (g := g) (adds_of_keeps hk) hx
  constructor
  · intro got hmem
    rw [Inflow.next_cfg, hgot] at hmem
    rw [Inflow.next_cfg, hk.owned, hsent]
    refine ⟨fun fd hfd => ?_, (h.account got hmem).2⟩
    rw [hsock fd hfd]
    exact (h.account got hmem).1 fd hfd
  · intro hown hsome
    rw [Inflow.next_cfg, hk.owned] at hown
    rw [Inflow.next_cfg, hgot] at hsome
    exact hclosed (h.closed hown hsome)
  · intro fd hfd hst
    rw [Inflow.next_cfg, hk.owned] at hfd
    rw [Inflow.next_cfg, hsock fd hfd]
    exact hhangs fd hfd hst

/-- What closes the stream on the top of the stack finds nothing left to read. -/
theorem InflowInv.empty {f : Frame} {rest : List Item} (h : InflowInv s g)
    (hst : g.cfg.stack = .lib f :: rest) (hf : f.closes s = true)
    (hne : (g.cfg.world.tcp s).status ≠ .closed) {fd : Fd}
    (hfd : fd ∈ owned s (g.cfg.world.streamView s).log) : (g.cfg.world.kernel.sock fd).rx = [] := by
  refine (h.hangs fd hfd hne).read.resolve_right fun hu => ?_
  have := hu.head (.lib f) (by rw [hst]; rfl)
  simp only [Item.closes, hf] at this
  cases this

theorem InflowInv.close (h : InflowInv s g)
    (hempty : ∀ fd ∈ owned s (g.cfg.world.streamView s).log, (g.cfg.world.kernel.sock fd).rx = [])
    (hv : c'.world.streamView s = (g.cfg.world.streamView s).close s) (hx : x.ofPeer = false) :
    InflowInv s (g.next s x c') := by
  refine ⟨fun got hmem => ?_, fun _ _ => ?_, fun fd hfd => ?_⟩
  · have hadd := (countP_of_close hv).2
    have hgot : received s (c'.world.streamView s).log = received s (g.cfg.world.streamView s).log := by
      rw [hv]
      exact received_logs rfl (by simp [isInflowObs])
    rw [Inflow.next_cfg, hgot] at hmem
    rw [Inflow.next_cfg, hv, owned_close, Inflow.next_sent hadd hx]
    refine ⟨fun fd hfd => (by cases hfd), fun _ => ?_⟩
    cases hown : owned s (g.cfg.world.streamView s).log with
    | none => exact (h.account got hmem).2 hown
    | some fd =>
      have := (h.account got hmem).1 fd hown
      rwa [hempty fd hown, List.append_nil] at this
  · exact congrArg (fun v : StreamView => v.tcp.status) hv
  · rw [Inflow.next_cfg, hv, owned_close] at hfd
    cases hfd

/-- A read of the stream. -/
theorem InflowInv.read {buf : Option Nat} {rest : List Item} {a : Answer} {r : World × List Item}
    (h : InflowInv s g) (hf : FieldOwned s (g.cfg.world.streamView s))
    (hst : g.cfg.stack = .lib (.readTry s buf) :: rest) (hok : ReadsWell s g.cfg (.lib a))
    (hr : exec g.cfg.world (.readTry s buf) a = some r)
    (hk : (g.cfg.world.streamView s).Keeps s (r.1.streamView s)) :
    InflowInv s (g.next s (.lib a) ⟨r.1, r.2 ++ rest⟩) := by
  obtain ⟨hne, hgives⟩ := hok buf (by simp [Cfg.reads, hst])
  obtain ⟨bytes, hrx, hfin, hgot, hstack⟩ := readTry_inflow hr hgives
  have hsent : (g.next s (.lib a) ⟨r.1, r.2 ++ rest⟩).sent = g.sent := by
    apply Inflow.next_sent
    · exact countP_of_keeps (fun _ => isAddOf_isCustodyObs) hk
    · rfl
  have hown : ∀ got ∈ received s (g.cfg.world.streamView s).log,
      owned s (g.cfg.world.streamView s).log ≠ none := fun got hmem hnone =>
    hne (h.closed hnone (Option.isSome_iff_exists.mpr ⟨got, hmem⟩))
  have hmap : ∀ got ∈ received s (r.1.streamView s).log,
      ∃ got' ∈ received s (g.cfg.world.streamView s).log, got = got' ++ bytes := by
    intro got hmem
    rw [hgot] at hmem
    obtain ⟨got', hmem', he⟩ := Option.map_eq_some_iff.mp hmem
    exact ⟨got', hmem', he.symm⟩
  constructor
  · intro got hmem
    obtain ⟨got', hmem', rfl⟩ := hmap got hmem
    rw [hsent]
    show (∀ fd ∈ owned s (r.1.streamView s).log, got' ++ bytes ++ (r.1.kernel.sock fd).rx = g.sent) ∧
      (owned s (r.1.streamView s).log = none → got' ++ bytes = g.sent)
    rw [hk.owned]
    refine ⟨fun fd hfd => ?_, fun hnone => absurd hnone (hown got' hmem')⟩
    have hfield : (g.cfg.world.tcp s).fd = fd := hf fd hfd
    subst hfield
    rw [List.append_assoc, ← hrx]
    exact (h.account got' hmem').1 _ hfd
  · intro hnone hsome
    obtain ⟨got, hmem⟩ := Option.isSome_iff_exists.mp hsome
    obtain ⟨got', hmem', -⟩ := hmap got hmem
    rw [Inflow.next_cfg] at hnone
    exact absurd (hk.owned ▸ hnone) (hown got' hmem')
  · intro fd hfd hst'
    rw [Inflow.next_cfg] at hfd
    have hfd : fd ∈ owned s (g.cfg.world.streamView s).log := hk.owned ▸ hfd
    have hover := h.hangs fd hfd hne
    have hfield : (g.cfg.world.tcp s).fd = fd := hf fd hfd
    subst hfield
    rw [hst] at hover
    show HangsOver s (r.1.kernel.sock (g.cfg.world.tcp s).fd) (r.2 ++ rest)
    rcases hstack with ⟨hagain, hsame⟩ | ⟨hall, hpush⟩
    · rw [hagain, hsame]
      exact hover
    · exact hover.read_step hfin hall hpush

/-- The peer adds bytes, or a FIN, to one socket. -/
theorem InflowInv.peerSock {w' : World} (h : InflowInv s g) (fd : Fd) (bytes : List UInt8)
    (hv : w'.streamView s = g.cfg.world.streamView s)
    (hsent : (g.next s x ⟨w', g.cfg.stack⟩).sent =
      if owned s g.cfg.world.log = some fd then g.sent ++ bytes else g.sent)
    (hrx : (w'.kernel.sock fd).rx = (g.cfg.world.kernel.sock fd).rx ++ bytes)
    (hother : ∀ fd', fd' ≠ fd → w'.kernel.sock fd' = g.cfg.world.kernel.sock fd')
    (hover : HangsOver s (g.cfg.world.kernel.sock fd) g.cfg.stack →
      HangsOver s (w'.kernel.sock fd) g.cfg.stack) :
    InflowInv s (g.next s x ⟨w', g.cfg.stack⟩) := by
  have htcp : w'.tcp s = g.cfg.world.tcp s := congrArg StreamView.tcp hv
  have hown : owned s (g.cfg.world.streamView s).log = owned s g.cfg.world.log := by
    rw [streamView, owned_filter]
  refine ⟨fun got hmem => ?_, ?_, fun fd' hfd hne => ?_⟩
  · rw [Inflow.next_cfg] at hmem
    obtain ⟨hopen, hclosed⟩ := h.account got (hv ▸ hmem)
    rw [hsent]
    constructor
    · intro fd' hfd
      have hfd : owned s (g.cfg.world.streamView s).log = some fd' := hv ▸ hfd
      show got ++ (w'.kernel.sock fd').rx = _
      by_cases hsame : fd' = fd
      · rw [hown, hsame] at hfd
        rw [if_pos hfd, hsame, hrx, ← List.append_assoc, hopen fd (by rw [hown]; exact hfd)]
      · rw [hother fd' hsame, if_neg, hopen fd' hfd]
        rw [← hown, hfd]
        simpa using hsame
    · intro hnone
      have hnone : owned s (g.cfg.world.streamView s).log = none := hv ▸ hnone
      rw [if_neg (by rw [← hown, hnone]; simp)]
      exact hclosed hnone
  · show owned s (w'.streamView s).log = none → (received s (w'.streamView s).log).isSome →
      (w'.tcp s).status = .closed
    rw [hv, htcp]
    exact h.closed
  · have hfd : fd' ∈ owned s (g.cfg.world.streamView s).log := hv ▸ hfd
    have hne : (g.cfg.world.tcp s).status ≠ .closed := htcp ▸ hne
    show HangsOver s (w'.kernel.sock fd') g.cfg.stack
    by_cases hsame : fd' = fd
    · rw [hsame] at hfd ⊢
      exact hover (h.hangs fd hfd hne)
    · rw [hother fd' hsame]
      exact h.hangs fd' hfd hne

/-- The peer sends, or ends. -/
theorem InflowInv.peer {e : Env} {w' : World} (h : InflowInv s g) (hx : (Act.env e).ofPeer = true)
    (he : env g.cfg.world e = some w') : InflowInv s (g.next s (.env e) ⟨w', g.cfg.stack⟩) := by
  have hbase := env_streamView (s := s) he
  have hadd : w'.log.countP (isAddOf s) = g.cfg.world.log.countP (isAddOf s) :=
    countP_of_keeps (fun _ => isAddOf_isCustodyObs) (hbase ▸ .refl)
  cases e with
  | arrive fd bytes =>
    simp only [env] at he
    split at he <;> cases he
    rename_i hopen
    simp only [Bool.and_eq_true, Bool.not_eq_true'] at hopen
    refine h.peerSock fd bytes hbase ?_ ?_ (fun fd' hne => ?_) fun hover => ?_
    · simp only [Inflow.next, hadd, Nat.lt_irrefl, if_false]
    · simp [World.setKernel]
    · exact Function.update_of_ne hne ..
    · exact hover.arrive hopen.2
  | peerFin fd =>
    simp only [env] at he
    split at he <;> cases he
    refine h.peerSock fd [] hbase ?_ ?_ (fun fd' hne => ?_) fun hover => ?_
    · simp only [Inflow.next, hadd, Nat.lt_irrefl, if_false, List.append_nil, ite_self]
    · simp [World.setKernel]
    · exact Function.update_of_ne hne ..
    · show HangsOver s (Function.update g.cfg.world.kernel.sock fd _ fd) g.cfg.stack
      rw [Function.update_self]
      exact hover.peerFin
  | _ => cases hx

/-- The stream is opened while no hang-up of it is being handled. -/
theorem InflowInv.opens (ho : (g.cfg.world.streamView s).Opens s (c'.world.streamView s))
    (hstack : ∀ i ∈ c'.stack, i.closes s = false) : InflowInv s (g.next s x c') := by
  have hlog : ∀ l, (c'.world.streamView s).log = (g.cfg.world.streamView s).log ++ l →
      c'.world.log.countP (isAddOf s) = g.cfg.world.log.countP (isAddOf s) + l.countP (isAddOf s) :=
    fun l hl => countP_of_log (fun _ => isAddOf_isCustodyObs) hl
  generalize hv : c'.world.streamView s = v' at ho
  cases ho with
  | @failed t fd =>
    have hgot : received s (c'.world.streamView s).log = none := by
      simp [hv, received_append, receivedAfter]
    have hown : owned s (c'.world.streamView s).log = none := by
      simp [hv, owned_append, ownAfter]
    refine ⟨fun got hmem => ?_, fun _ hsome => ?_, fun fd hfd => ?_⟩
    · rw [Inflow.next_cfg, hgot] at hmem
      cases hmem
    · rw [Inflow.next_cfg, hgot] at hsome
      cases hsome
    · rw [Inflow.next_cfg, hown] at hfd
      cases hfd
  | @opened t fd ht =>
    have hgot : received s (c'.world.streamView s).log = some [] := by
      simp [hv, received_append, receivedAfter]
    have hown : owned s (c'.world.streamView s).log = some fd := by
      simp [hv, owned_append, ownAfter]
    have htcp : (c'.world.tcp s).fd = fd :=
      (congrArg (fun v : StreamView => v.tcp.fd) hv).trans ht
    have hadd : g.cfg.world.log.countP (isAddOf s) < c'.world.log.countP (isAddOf s) := by
      rw [hlog [.opened s fd, .ctl (.tcp s) fd .add] (by rw [hv]; rfl)]
      simp [isAddOf]
    have hsent : (g.next s x c').sent = (c'.world.kernel.sock fd).rx := by
      simp only [Inflow.next, hadd, if_true, htcp]
    refine ⟨fun got hmem => ?_, fun hnone => ?_, fun _ _ _ => .of_none hstack⟩
    · rw [Inflow.next_cfg, hgot] at hmem
      cases hmem
      rw [Inflow.next_cfg, hown, hsent]
      refine ⟨fun fd' hfd => ?_, fun hnone => (by cases hnone)⟩
      cases hfd
      rfl
    · rw [Inflow.next_cfg, hown] at hnone
      cases hnone

/-- A stream that the application does not close is closed by a frame of the library. -/
theorem NotForced.closes {c : Cfg} (hforce : NotForced s x) (hc : x.closes c s = true) :
    ∃ f rest, c.stack = .lib f :: rest ∧ f.closes s = true ∧
      (c.world.tcp s).status ≠ .closed := by
  cases x with
  | lib a =>
    cases hst : c.stack with
    | nil => simp [Act.closes, hst] at hc
    | cons i rest =>
      cases i with
      | app cb => simp [Act.closes, hst] at hc
      | lib f =>
        simp only [Act.closes, hst, Bool.and_eq_true, decide_eq_true_eq] at hc
        exact ⟨f, rest, rfl, hc.1, hc.2⟩
  | api k a =>
    have hk : k.closes s = false := hforce
    simp [Act.closes, hk] at hc
  | ret p => simp [Act.closes] at hc
  | env e => simp [Act.closes] at hc

/-- A step that closes the stream finds nothing left to read. -/
theorem InflowInv.closes (h : InflowInv s g) (hforce : NotForced s x)
    (hc : x.closes g.cfg s = true) {fd : Fd} (hfd : fd ∈ owned s (g.cfg.world.streamView s).log) :
    (g.cfg.world.kernel.sock fd).rx = [] := by
  obtain ⟨f, rest, hst, hcl, hopen⟩ := hforce.closes hc
  exact h.empty hst hcl hopen hfd

/-- **A step keeps the account.** -/
theorem InflowInv.step (h : InflowInv s g) (hf : FieldOwned s (g.cfg.world.streamView s))
    (hok : DrainsHangUps s g.cfg x) (hs : step g.cfg x = some c') : InflowInv s (g.next s x c') := by
  obtain ⟨⟨hforce, hdata, hread, halone⟩, hcond⟩ := hok
  have hsock := fun hx hr => @sock_eq s g.cfg c' x halone hs hx hr
  -- a step of another stream's
  have alone : c'.world.streamView s = g.cfg.world.streamView s → x.ofPeer = false →
      x.reads g.cfg s = false → (∀ fd ∈ owned s (g.cfg.world.streamView s).log,
        (g.cfg.world.tcp s).status ≠ .closed →
        HangsOver s (g.cfg.world.kernel.sock fd) c'.stack) → InflowInv s (g.next s x c') := by
    intro hv hx hr hstack
    have htcp : c'.world.tcp s = g.cfg.world.tcp s := congrArg StreamView.tcp hv
    refine h.carry (hv ▸ .refl) (by rw [hv]) (fun hc => htcp ▸ hc) hx (fun _ => hsock hx hr) ?_
    rw [htcp]
    exact hstack
  rcases step_cases hs with ⟨a, f, rest, r, rfl, hst, hr, rfl⟩ |
    ⟨k, a, cb, rest, r, rfl, hst, hr, rfl⟩ | ⟨p, cb, rest, rfl, hst, hcb, rfl⟩ |
    ⟨e, w', rfl, he, rfl⟩
  · have hpop : ∀ fd ∈ owned s (g.cfg.world.streamView s).log,
        (g.cfg.world.tcp s).status ≠ .closed →
        HangsOver s (g.cfg.world.kernel.sock fd) (.lib f :: rest) := fun fd hfd hne =>
      hst ▸ h.hangs fd hfd hne
    -- the stream's own frames: a `read`, an event, a close, or none of these
    by_cases hfs : f.stream = some s
    · have hx := exec_stream hfs hr
      by_cases htry : ∃ buf, f = .readTry s buf
      · obtain ⟨buf, rfl⟩ := htry
        rcases hx.custody with ⟨hk, -⟩ | ⟨hfc, -⟩
        · exact h.read hf hst hread hr hk
        · cases hfc
      · have htry : ∀ buf, f ≠ .readTry s buf := fun buf he => htry ⟨buf, he⟩
        have hnone := reads_none (a := a) hst htry
        rcases hx.custody with ⟨hk, -⟩ | ⟨hfc, hne, hv, -⟩
        · refine h.carry hk (hx.received htry) ?_ rfl (fun _ => hsock rfl hnone) ?_
          · intro hc
            by_contra hne
            exact hx.unclosed hne hc
          · intro fd hfd hne
            have hne := hx.unclosed hne
            have hover := hpop fd hfd hne
            by_cases hd : ∃ ev, f = .dispatch (.tcp s) ev
            · obtain ⟨ev, rfl⟩ := hd
              have hev : g.cfg.event s = some ev := by simp [Cfg.event, hst]
              refine hover.dispatch hx (hdata ev hev) fun hh hc => ?_
              rw [streamView, owned_filter] at hfd
              exact hcond ev hev fd hfd hh hne hc
            · obtain ⟨hpush, hlast⟩ := hx.noHangUp (fun ev he => hd ⟨ev, he⟩) htry
              exact hover.replace hpush hlast
        · refine h.close (fun fd hfd => h.empty hst hfc hne hfd) ?_ rfl
          exact hv
    · have hnot : ∀ buf, f ≠ .readTry s buf := by
        rintro buf rfl
        exact hfs rfl
      refine alone (exec_streamView hfs hr) rfl (reads_none hst hnot) fun fd hfd hne => ?_
      refine (hpop fd hfd hne).replace ((exec_pushes hr).closes hfs) fun hreads => ?_
      unfold Item.reading at hreads
      split at hreads
      · rename_i s' heq
        cases heq
        exact absurd (congrArg some (of_decide_eq_true hreads)) hfs
      · rename_i s' buf heq
        cases heq
        exact absurd (congrArg some (of_decide_eq_true hreads)) hfs
      · cases hreads
  · have hpush : ∀ fd ∈ owned s (g.cfg.world.streamView s).log,
        (g.cfg.world.tcp s).status ≠ .closed →
        HangsOver s (g.cfg.world.kernel.sock fd) (r.2 ++ .app cb :: rest) := fun fd hfd hne =>
      hst ▸ (h.hangs fd hfd hne).push (api_pushes hr).closes
    by_cases hks : k.stream = some s
    · rcases (api_stream hks hr).inflow with ⟨hk, hgot, hclosed⟩ | hc | ⟨hopens, ho⟩
      · exact h.carry hk hgot hclosed rfl (fun _ => hsock rfl rfl) fun fd hfd hne =>
          hpush fd hfd fun hc => hne (hclosed hc)
      · rw [show k.closes s = false from hforce] at hc
        cases hc
      -- a descriptor of the stream begins
      · refine InflowInv.opens ?_ fun i hi => ?_
        · exact ho
        rcases List.mem_append.mp hi with hi | hi
        · exact (api_pushes hr).closes i hi
        · exact hcond hopens i (hst ▸ hi)
    · exact alone (api_streamView hks hr) rfl rfl hpush
  · refine alone rfl rfl rfl fun fd hfd hne => ?_
    have hover := h.hangs fd hfd hne
    rw [hst] at hover
    exact hover.replace (l := []) (by simp) (by simp [Item.reading])
  · by_cases hx : (Act.env e).ofPeer = true
    · exact h.peer hx he
    · exact alone (env_streamView he) (by simpa using hx) rfl h.hangs

/-! ## Runs -/

theorem InflowRun.run (r : InflowRun s (DrainsHangUps s) g) : Run AnyStep g.cfg := by
  refine Machine.Reach.map Inflow.cfg (fun _ x => x) (fun _ h => h.1) (fun _ _ _ => trivial)
    (fun g x g' hs => ?_) r
  obtain ⟨c', hc, rfl⟩ := Option.map_eq_some_iff.mp hs
  exact hc

theorem InflowRun.inflowInv (r : InflowRun s (DrainsHangUps s) g) : InflowInv s g := by
  refine r.invariant (P := InflowInv s) ?_ fun g x g' r h hok hs => ?_
  · rintro g ⟨⟨k, fd, -, -, hc⟩, -⟩
    have hlog : (g.cfg.world.streamView s).log = [] := by
      rw [hc]
      rfl
    refine ⟨fun got hmem => ?_, fun _ hsome => ?_, fun fd hfd => ?_⟩
    · rw [hlog] at hmem
      cases hmem
    · rw [hlog] at hsome
      cases hsome
    · rw [hlog] at hfd
      cases hfd
  · obtain ⟨c', hc, rfl⟩ := Option.map_eq_some_iff.mp hs
    exact h.step (fun fd hfd => owned_fd (InflowRun.run r) (owned_filter _ ▸ hfd)) hok hc

/-- **The library closes no stream that has something left to read**, and a stream that was closed
has passed on all that the peer had sent, in a run in which one read takes what a hang-up finds. -/
theorem closes_drained (r : InflowRun s (DrainsHangUps s) g) : DeliversAll s g ∧
    ∀ x, DrainsHangUps s g.cfg x → x.closes g.cfg s = true →
      ∀ fd ∈ owned s g.cfg.world.log, (g.cfg.world.kernel.sock fd).rx = [] := by
  have h := InflowRun.inflowInv r
  constructor
  · intro hnone got hmem
    refine (h.account got ?_).2 ?_
    · rwa [streamView, received_filter]
    · rwa [streamView, owned_filter]
  · intro x hok hc fd hfd
    refine h.closes hok.1.1 hc ?_
    rwa [streamView, owned_filter]

/-- The end of a run of one stream that is given step by step. -/
theorem InflowRun.play {ok : Cfg → Act → Prop} [∀ c x, Decidable (ok c x)] {f : List Fd}
    (l : List Act)
    (hp : Machine.play (Inflow.step s) (fun g x => ok g.cfg x) ⟨Cfg.start f, []⟩ l = some g) :
    InflowRun s ok g :=
  (Machine.Reach.init ⟨Cfg.start_init f, rfl⟩).play hp

/-- A stream that is shut down receives two bytes and a FIN in one event. -/
theorem closes_drained_two : ∃ g, InflowRun 0 (DrainsHangUps 0) g ∧
    owned 0 g.cfg.world.log = none ∧ received 0 g.cfg.world.log = some [1, 2] ∧ g.sent = [1, 2] ∧
    DeliversAll 0 g := by
  have hplay : ∃ g, InflowRun 0 (DrainsHangUps 0) g ∧ owned 0 g.cfg.world.log = none ∧
      received 0 g.cfg.world.log = some [1, 2] ∧ g.sent = [1, 2] := by
    have r : InflowRun 0 (DrainsHangUps 0) _ := InflowRun.play (f := [5])
      [.api (.tcpAccept 0 5) (.ok 0 []), .api (.setOnData 0 true) (.ok 0 []),
        .api (.tcpShutdown 0) (.ok 0 []), .env (.arrive 5 [1, 2]), .env (.peerFin 5),
        .api .ioRun (.ok 0 []), .lib (.ok 0 [(5, ⟨true, false, false, true, true⟩)]),
        .lib (.ok 0 []), .ret (some 7), .lib (.ok 0 []), .lib (.ok 2 []), .ret none,
        .lib (.ok 0 [])] rfl
    exact ⟨_, r, rfl, rfl, rfl⟩
  obtain ⟨g, r, hnone, hgot, hsent⟩ := hplay
  exact ⟨g, r, hnone, hgot, hsent, (closes_drained r).1⟩

/-- The stream is also paused: the hang-up comes without `PD_POLLIN`, and the stream is closed with a
byte in its socket. -/
theorem not_closes_drained : (∃ g, InflowRun 0 (Peaceful 0) g ∧ owned 0 g.cfg.world.log = none ∧
      received 0 g.cfg.world.log = some [] ∧ g.sent = [1]) ∧
    ¬ ∀ s g, InflowRun s (Peaceful s) g → DeliversAll s g := by
  have hplay : ∃ g, InflowRun 0 (Peaceful 0) g ∧ owned 0 g.cfg.world.log = none ∧
      received 0 g.cfg.world.log = some [] ∧ g.sent = [1] := by
    have r : InflowRun 0 (Peaceful 0) _ := InflowRun.play (f := [5])
      [.api (.tcpAccept 0 5) (.ok 0 []), .api (.setOnData 0 true) (.ok 0 []),
        .api (.tcpShutdown 0) (.ok 0 []), .api (.tcpPause 0) (.ok 0 []), .env (.arrive 5 [1]),
        .env (.peerFin 5), .api .ioRun (.ok 0 []),
        .lib (.ok 0 [(5, ⟨false, false, false, true, true⟩)]), .lib (.ok 0 []),
        .lib (.ok 0 [])] rfl
    exact ⟨_, r, rfl, rfl, rfl⟩
  refine ⟨hplay, fun h => ?_⟩
  obtain ⟨g, r, hnone, hgot, hsent⟩ := hplay
  have := h 0 g r hnone [] hgot
  rw [hsent] at this
  cases this

end

end Pandio
