import Pandio.Unix.Loop

/- What each step of the machine puts on the call stack. An invariant that says
   which frames stand where on the stack needs no more than these lists; the
   functions themselves are taken apart here, and only for this, once. -/
namespace Pandio
open World

/-- What a frame can be replaced by when it runs. -/
inductive Frame.Pushes : Frame → List Item → Prop where
  | cancel (s op st) : Pushes (.closeDrain s) [.app (.write s op st), .lib (.closeDrain s)]
  | drained (s) : Pushes (.closeDrain s) []
  | closeAgain (s) : Pushes (.close s) []
  | close (s) : Pushes (.close s) [.lib (.closeDrain s)]
  | noBuffer (s) :
      Pushes (.readAlloc s) [.app (.onData s none PD_ENOMEM []), .lib (.readTry s none)]
  | buffer (s buf) : Pushes (.readAlloc s) [.lib (.readTry s (some buf))]
  | readAgain (s buf) : Pushes (.readTry s buf) [.lib (.readTry s buf)]
  | read (s buf size bytes) : Pushes (.readTry s buf) [.app (.onData s buf size bytes)]
  | readEnd (s buf) : Pushes (.readTry s buf) [.app (.onData s buf 0 []), .lib (.close s)]
  | ioNothing (s ev) : Pushes (.clientIoRest s ev) []
  | ioClose (s) (ev : Events) : ev.close = true →
      Pushes (.clientIoRest s ev) [.lib (.closeDrain s)]
  | ioWrite (s) (ev : Events) : ev.close = false → Pushes (.clientIoRest s ev) [.lib (.writeLoop s)]
  | tryAgain (s op) : Pushes (.writeTry s op) [.lib (.writeTry s op)]
  | tryQueued (s op) : Pushes (.writeTry s op) []
  | tryCalled (s op st) : Pushes (.writeTry s op) [.app (.write s op st)]
  | loopAgain (s) : Pushes (.writeLoop s) [.lib (.writeLoop s)]
  | loopEnd (s) : Pushes (.writeLoop s) []
  | loopFailed (s op st) : Pushes (.writeLoop s) [.app (.write s op st)]
  | loopCalled (s op) : Pushes (.writeLoop s) [.app (.write s op 0), .lib (.writeLoop s)]
  | clientRead (s) (ev : Events) : ev.pollin = true → Pushes (.dispatch (.tcp s) ev)
      [.app (.allocator s), .lib (.readAlloc s), .lib (.clientIoRest s ev)]
  | client (s ev) : Pushes (.dispatch (.tcp s) ev) [.lib (.clientIoRest s ev)]
  | connectNothing (s ev) : Pushes (.dispatch (.tcp s) ev) []
  | connect (s ev st) : Pushes (.dispatch (.tcp s) ev) [.app (.onConnect s st)]
  | listenerNothing (l ev) : Pushes (.dispatch (.server l) ev) []
  | listener (l ev fd) : Pushes (.dispatch (.server l) ev) [.app (.onConnection l fd)]
  | signalAgain (ev) : Pushes (.dispatch .taskSignal ev) [.lib (.dispatch .taskSignal ev)]
  | signalNothing (ev) : Pushes (.dispatch .taskSignal ev) []
  | signal (ev tasks) : Pushes (.dispatch .taskSignal ev) [.lib (.taskDone tasks)]
  | timersEnd : Pushes .timersRun []
  | timer (t) : Pushes .timersRun [.lib (.timersRearm t)]
  | timerCalled (t timeout) :
      Pushes .timersRun [.app (.onTimeout t timeout), .lib (.timersRearm t)]
  | rearm (t) : Pushes (.timersRearm t) [.lib .timersRun]
  | closesEnd : Pushes .pendingClose []
  | pending (s) : Pushes .pendingClose [.lib (.pendingCloseDec s)]
  | pendingCalled (s) : Pushes .pendingClose [.app (.onClose s), .lib (.pendingCloseDec s)]
  | pendingDec (s) : Pushes (.pendingCloseDec s) [.lib .pendingClose]
  | tasksEnd : Pushes (.taskDone []) []
  | task (k rest) : Pushes (.taskDone (k :: rest)) [.lib (.taskDoneDec k rest)]
  | taskCalled (k rest) :
      Pushes (.taskDone (k :: rest)) [.app (.done k), .lib (.taskDoneDec k rest)]
  | taskDec (k rest) : Pushes (.taskDoneDec k rest) [.lib (.taskDone rest)]
  | loopExit (timeout) : Pushes (.ioRun timeout) []
  | pollAgain (timeout) : Pushes (.ioRun timeout) [.lib (.ioRun timeout)]
  | poll (timeout) (events : List (Handle × Events)) : Pushes (.ioRun timeout)
      (events.map (fun e => .lib (.dispatch e.1 e.2)) ++
        [.lib .timersRun, .lib .pendingClose, .lib .ioAfterTick, .lib .ioNext])
  | noHook : Pushes .ioAfterTick []
  | hook : Pushes .ioAfterTick [.app .afterTick]
  | next (timeout) : Pushes .ioNext [.lib (.ioRun timeout)]

/-- What a call of the application can put on the stack. -/
inductive Call.Pushes : Call → List Item → Prop where
  | nothing (c) : Pushes c []
  | writeTry (s op r) : Pushes (.tcpWrite s op r) [.lib (.writeTry s op)]
  | refused (s op r st) : Pushes (.tcpWrite s op r) [.app (.write s op st)]
  | close (s) : Pushes (.tcpClose s) [.lib (.closeDrain s)]
  | ioRun (timeout) : Pushes .ioRun [.lib (.ioRun timeout)]
  | timersRun : Pushes .timersRun [.lib .timersRun]

section
variable {w : World} {s : Sid} {a : Answer} {r : World × List Item}

theorem pdTcpClose_items : (pdTcpClose w s a).2 = [] ∨
    (pdTcpClose w s a).2 = [.lib (.closeDrain s)] := by
  simp only [pdTcpClose]
  split
  · exact .inl rfl
  · exact .inr rfl

theorem callOnData_items {buf : Option Nat} {size : Int} {bytes : List UInt8} {fs : List Frame}
    (h : callOnData w s buf size bytes fs = some r) :
    r.2 = .app (.onData s buf size bytes) :: fs.map .lib := by
  unfold callOnData at h
  split at h
  · cases h
    rfl
  · cases h

theorem callWrite_items {op : Op} {st : Int} {fs : List Frame}
    (h : callWrite w s op st fs = some r) : r.2 = .app (.write s op st) :: fs.map .lib := by
  unfold callWrite at h
  split at h
  · split at h
    · cases h
      rfl
    · cases h
  · cases h

theorem pdTcpWriteAsync_items {op : Op} (h : pdTcpWriteAsync w s op a = some r) :
    r.2 = [] ∨ ∃ st, r.2 = [.app (.write s op st)] := by
  simp only [pdTcpWriteAsync] at h
  split at h
  · exact .inr ⟨_, callWrite_items h⟩
  · split at h <;> cases h <;> exact .inl rfl

theorem closeDrain_pushes (h : closeDrain w s = some r) : (Frame.closeDrain s).Pushes r.2 := by
  unfold closeDrain at h
  split at h
  · rw [callWrite_items h]
    exact .cancel ..
  · cases h
    exact .drained s

theorem readAlloc_pushes (h : readAlloc w s = some r) : (Frame.readAlloc s).Pushes r.2 := by
  unfold readAlloc at h
  split at h
  · rw [callOnData_items h]
    exact .noBuffer s
  · cases h
    exact .buffer ..

theorem readTry_pushes {buf : Option Nat} (h : readTry w s buf a = some r) :
    (Frame.readTry s buf).Pushes r.2 := by
  simp only [readTry] at h
  split at h
  · split at h
    · cases h
      exact .readAgain ..
    · split at h <;> (rw [callOnData_items h]; exact .read ..)
  · rw [callOnData_items h]
    exact .readEnd ..
  · rw [callOnData_items h]
    exact .read ..

theorem clientIoRest_pushes {ev : Events} :
    (Frame.clientIoRest s ev).Pushes (clientIoRest w s ev a).2 := by
  unfold clientIoRest
  split
  · rename_i hc
    rcases pdTcpClose_items (w := w) (s := s) (a := a) with h | h
    · rw [h]
      exact .ioNothing ..
    · rw [h]
      exact .ioClose s ev hc
  · rename_i hc
    split
    · unfold pd_tcpWrite
      split
      · exact .ioNothing ..
      · exact .ioWrite s ev (by simpa using hc)
    · exact .ioNothing ..

theorem writeTry_pushes {op : Op} (h : writeTry w s op a = some r) :
    (Frame.writeTry s op).Pushes r.2 := by
  have async : ∀ {w' : World}, pdTcpWriteAsync w' s op a = some r →
      (Frame.writeTry s op).Pushes r.2 := by
    intro w' h
    rcases pdTcpWriteAsync_items h with h | ⟨st, h⟩
    · rw [h]
      exact .tryQueued ..
    · rw [h]
      exact .tryCalled ..
  simp only [writeTry] at h
  split at h
  · cases h
  · split at h
    · split at h
      · cases h
        exact .tryAgain ..
      · split at h
        · exact async h
        · rw [callWrite_items h]
          exact .tryCalled ..
    · split at h
      · exact async h
      · rw [callWrite_items h]
        exact .tryCalled ..

theorem writeLoop_pushes (h : writeLoop w s a = some r) : (Frame.writeLoop s).Pushes r.2 := by
  simp only [writeLoop] at h
  split at h
  · split at h
    · cases h
    · split at h
      · split at h
        · cases h
          exact .loopAgain s
        · split at h
          · cases h
            exact .loopEnd s
          · rw [callWrite_items h]
            exact .loopFailed ..
      · split at h
        · cases h
          unfold finishWrite
          split
          · exact .loopCalled ..
          · exact .loopAgain s
        · cases h
          exact .loopAgain s
  · split at h <;> cases h <;> exact .loopEnd s

theorem pd_tcpClientIo_pushes {ev : Events} :
    (Frame.dispatch (.tcp s) ev).Pushes (pd_tcpClientIo w s ev).2 := by
  simp only [pd_tcpClientIo, pd_tcpRead]
  split
  · rename_i hin
    split
    · exact .client ..
    · exact .clientRead s ev hin
  · exact .client ..

theorem pd_tcpConnectIo_pushes {ev : Events} :
    (Frame.dispatch (.tcp s) ev).Pushes (pd_tcpConnectIo w s ev a).2 := by
  simp only [pd_tcpConnectIo]
  split
  · exact .connectNothing ..
  · split
    · split
      · exact .connect ..
      · exact .connectNothing ..
    · split
      · split
        · exact .connect ..
        · exact .connectNothing ..
      · exact .connectNothing ..

theorem pnd_tcpListenerIo_pushes {l : Lid} {ev : Events}
    (h : pnd_tcpListenerIo w l ev a = some r) : (Frame.dispatch (.server l) ev).Pushes r.2 := by
  simp only [pnd_tcpListenerIo] at h
  split at h
  · cases h
  · split at h
    · cases h
      exact .listenerNothing ..
    · split at h
      · cases h
        exact .listenerNothing ..
      · split at h
        · cases h
          exact .listenerNothing ..
        · split at h <;> cases h
          · exact .listener ..
          · exact .listenerNothing ..

theorem pd_notifierIo_pushes {ev : Events} :
    (Frame.dispatch .taskSignal ev).Pushes (pd_notifierIo w ev a).2 := by
  simp only [pd_notifierIo]
  split
  · exact .signalNothing ev
  · split
    · split
      · exact .signalAgain ev
      · exact .signalNothing ev
    · split
      · exact .signal ..
      · exact .signalNothing ev

theorem dispatch_pushes {h : Handle} {ev : Events} (hr : dispatch w h ev a = some r) :
    (Frame.dispatch h ev).Pushes r.2 := by
  unfold dispatch at hr
  split at hr
  · split at hr
    · cases hr
      exact pd_tcpClientIo_pushes
    · cases hr
      exact pd_tcpConnectIo_pushes
    · cases hr
  · split at hr
    · exact pnd_tcpListenerIo_pushes hr
    · cases hr
  · cases hr
    exact pd_notifierIo_pushes

theorem pdTimersRun_pushes (h : pdTimersRun w = some r) : Frame.timersRun.Pushes r.2 := by
  unfold pdTimersRun at h
  split at h
  · cases h
    exact .timersEnd
  · split at h
    · cases h
      exact .timersEnd
    · obtain ⟨w', _, h⟩ := Option.bind_eq_some_iff.mp h
      split at h <;> cases h
      · exact .timerCalled ..
      · exact .timer _

theorem pdTimersRearm_pushes {t : Tid} (h : pdTimersRearm w t = some r) :
    (Frame.timersRearm t).Pushes r.2 := by
  unfold pdTimersRearm at h
  split at h
  · obtain ⟨w', _, rfl⟩ := Option.map_eq_some_iff.mp h
    exact .rearm t
  · cases h
    exact .rearm t

theorem ioRun_pushes {timeout : Int} (h : ioRun w timeout a = some r) :
    (Frame.ioRun timeout).Pushes r.2 := by
  simp only [ioRun] at h
  split at h
  · cases h
    exact .loopExit timeout
  · split at h
    · split at h <;> cases h
      exact .pollAgain timeout
    · cases h
      have := Frame.Pushes.poll timeout
        ((polledEvents (w.setNow w.kernel.clock).kernel a.events).take MAX_EVENTS)
      simpa [goOn, Function.comp_def] using this

/-- **What the library puts on the stack.** -/
theorem exec_pushes {f : Frame} (h : exec w f a = some r) : f.Pushes r.2 := by
  cases f with
  | closeDrain s => exact closeDrain_pushes h
  | close s =>
    cases h
    rcases pdTcpClose_items (w := w) (s := s) (a := a) with h | h
    · rw [h]
      exact .closeAgain s
    · rw [h]
      exact .close s
  | readAlloc s => exact readAlloc_pushes h
  | readTry s buf => exact readTry_pushes h
  | clientIoRest s ev =>
    cases h
    exact clientIoRest_pushes
  | writeTry s op => exact writeTry_pushes h
  | writeLoop s => exact writeLoop_pushes h
  | dispatch hd ev => exact dispatch_pushes h
  | timersRun => exact pdTimersRun_pushes h
  | timersRearm t => exact pdTimersRearm_pushes h
  | pendingClose =>
    cases h
    unfold pd_tcpPendingClose
    split
    · exact .closesEnd
    · simp only
      split
      · exact .pendingCalled _
      · exact .pending _
  | pendingCloseDec s =>
    cases h
    exact .pendingDec s
  | taskDone l =>
    cases h
    unfold taskDone
    split
    · exact .tasksEnd
    · split
      · exact .taskCalled ..
      · exact .task ..
  | taskDoneDec k l =>
    cases h
    exact .taskDec ..
  | ioRun timeout => exact ioRun_pushes h
  | ioAfterTick =>
    cases h
    unfold ioAfterTick
    split
    · exact .hook
    · exact .noHook
  | ioNext =>
    cases h
    exact .next _

/-- **What a call of the application puts on the stack.** -/
theorem api_pushes {c : Call} (h : api w c a = some r) : c.Pushes r.2 := by
  cases c with
  | tcpWrite s op wr =>
    simp only [api] at h
    split at h
    · simp only [pdTcpWrite] at h
      split at h
      · split at h <;> cases h
        exact .refused ..
      · split at h
        · cases h
          exact .writeTry ..
        · rcases pdTcpWriteAsync_items h with h | ⟨st, h⟩
          · rw [h]
            exact .nothing _
          · rw [h]
            exact .refused ..
    · cases h
  | tcpClose s =>
    cases h
    rcases pdTcpClose_items (w := w) (s := s) (a := a) with h | h
    · rw [h]
      exact .nothing _
    · rw [h]
      exact .close s
  | ioRun =>
    cases h
    exact .ioRun _
  | timersRun =>
    cases h
    exact .timersRun
  | timerStart t cb timeout | timerRepeat t cb interval | timerStop t =>
    obtain ⟨w', _, rfl⟩ := Option.map_eq_some_iff.mp h
    exact .nothing _
  | taskSubmit k done =>
    simp only [api] at h
    split at h <;> cases h
    exact .nothing _
  | _ =>
    cases h
    exact .nothing _

end

end Pandio
