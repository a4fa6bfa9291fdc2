import Backtester.Clock

/-!
# Exactly-once delivery

What the strategy is handed, followed by what is still buffered, is what was popped :
ticks and reports alike, in either mode (`Received`). Timers and flushes only decide
when the buffers are emptied. The ticks popped are those taken in, sorted stably by their
delivery time, so a finished run hands over every tick once, in an order that does not depend on
the mode, the batch size or the strategy.
-/

open Run StableSort

set_option linter.unusedSectionVars false

namespace Backtester

/-! ## What is handed over -/

namespace EventKind

/-- The ticks an event brings for the strategy. -/
def ticks : EventKind → List Tick
  | tickDelivery t => [t]
  | _ => []

/-- The reports an event brings for the strategy. -/
def reports : EventKind → List OrderReport
  | orderReport r => [r]
  | _ => []

/-- The event hands a tick over. -/
def isDelivery : EventKind → Bool
  | tickDelivery _ => true
  | _ => false

/-- A delivery is an event of the market. -/
theorem isMarket_of_isDelivery (kind : EventKind) (h : kind.isDelivery = true) :
    kind.isMarket = true := by
  cases kind <;> first | rfl | cases h

end EventKind

/-- The ticks handed to the strategy, in order. -/
def ticksHanded (l : List Effect) : List Tick :=
  l.flatMap fun
    | .called call _ _ => call.ticks
    | _ => []

/-- The reports handed to the strategy, in order. -/
def reportsHanded (l : List Effect) : List OrderReport :=
  l.flatMap fun
    | .called call _ _ => call.reports
    | _ => []

/-- The ticks whose delivery was popped, in order. -/
def ticksPopped (l : List Effect) : List Tick :=
  (poppedIn EventKind.any l).flatMap (·.2.ticks)

/-- The reports popped, in order. -/
def reportsPopped (l : List Effect) : List OrderReport :=
  (poppedIn EventKind.any l).flatMap (·.2.reports)

/-- The records taken in, in order. -/
def ingestedIn (l : List Effect) : List Record :=
  l.filterMap fun
    | .ingested record => some record
    | _ => none

/-- The ticks among the records. -/
def ticksOf (l : List Record) : List Tick :=
  l.filterMap fun
    | .tick t => some t
    | .l3 _ => none

section Trace

variable (l l' : List Effect)

/-- What is read off a trace in parts is put together. -/
@[simp] theorem ticksHanded_append : ticksHanded (l ++ l') = ticksHanded l ++ ticksHanded l' :=
  List.flatMap_append

@[simp] theorem reportsHanded_append :
    reportsHanded (l ++ l') = reportsHanded l ++ reportsHanded l' :=
  List.flatMap_append

@[simp] theorem ticksPopped_append : ticksPopped (l ++ l') = ticksPopped l ++ ticksPopped l' := by
  rw [ticksPopped, poppedIn_append, List.flatMap_append]
  rfl

@[simp] theorem reportsPopped_append :
    reportsPopped (l ++ l') = reportsPopped l ++ reportsPopped l' := by
  rw [reportsPopped, poppedIn_append, List.flatMap_append]
  rfl

@[simp] theorem ingestedIn_append : ingestedIn (l ++ l') = ingestedIn l ++ ingestedIn l' :=
  List.filterMap_append

/-- A call hands over the ticks it carries. -/
theorem ticksHanded_calls (calls : List Call) (t : ℤ) (market : MarketView) :
    ticksHanded (calls.map (Effect.called · t market)) = calls.flatMap Call.ticks := by
  simp [ticksHanded, List.flatMap_map]

/-- A call hands over the reports it carries. -/
theorem reportsHanded_calls (calls : List Call) (t : ℤ) (market : MarketView) :
    reportsHanded (calls.map (Effect.called · t market)) = calls.flatMap Call.reports := by
  simp [reportsHanded, List.flatMap_map]

variable {l}

/-- Without a call no tick is handed over. -/
theorem ticksHanded_eq_nil (h : ∀ call t market, Effect.called call t market ∉ l) :
    ticksHanded l = [] := by
  refine List.flatMap_eq_nil_iff.2 fun x hx => ?_
  cases x with
  | called call t market => exact absurd hx (h call t market)
  | _ => rfl

/-- Without a call no report is handed over. -/
theorem reportsHanded_eq_nil (h : ∀ call t market, Effect.called call t market ∉ l) :
    reportsHanded l = [] := by
  refine List.flatMap_eq_nil_iff.2 fun x hx => ?_
  cases x with
  | called call t market => exact absurd hx (h call t market)
  | _ => rfl

/-- Work takes no record in. -/
theorem ingestedIn_eq_nil (h : ∀ x ∈ l, x.isWork = true) : ingestedIn l = [] := by
  refine List.filterMap_eq_nil_iff.2 fun x hx => ?_
  cases x with
  | ingested record => cases h _ hx
  | _ => rfl

end Trace

/-- What popped events bring can be read off the events of a kind that brings something. -/
theorem flatMap_poppedIn {α : Type*} {p : EventKind → Bool} {f : EventKind → List α}
    (hf : ∀ kind, p kind = false → f kind = []) (l : List Effect) :
    (poppedIn EventKind.any l).flatMap (f ·.2) = (poppedIn p l).flatMap (f ·.2) := by
  induction l with
  | nil => rfl
  | cons x l ih =>
    rw [← List.singleton_append, poppedIn_append, poppedIn_append, List.flatMap_append,
      List.flatMap_append, ih]
    congr 1
    cases x with
    | popped event activeTimer =>
      rw [poppedIn_singleton, poppedIn_singleton]
      cases hp : p event.kind with
      | true => rfl
      | false => simp [EventKind.any, hf _ hp]
    | _ => rfl

/-! ## The handlers -/

namespace Core

variable {Q S L R : Type} [QueueModel Q]

/-- Between `c` and `c'` the ticks and the reports come in; each is handed over or
buffered. -/
structure Receives (ticks : List Tick) (reports : List OrderReport) (c c' : Core Q S L R) :
    Prop where
  ticks : ticksHanded c'.effects ++ c'.tickBuffer =
    ticksHanded c.effects ++ c.tickBuffer ++ ticks
  reports : reportsHanded c'.effects ++ c'.reportBuffer =
    reportsHanded c.effects ++ c.reportBuffer ++ reports

/-- Only batch mode buffers. -/
def Unbuffered (c : Core Q S L R) : Prop :=
  c.config.mode = .tick → c.tickBuffer = [] ∧ c.reportBuffer = []

variable {t : ℤ} {c c' c'' : Core Q S L R} {ticks : List Tick} {reports : List OrderReport}

/-- Quiet work afterwards receives nothing. -/
theorem Receives.trans_quiet (h : Receives ticks reports c c') (hq : Quiet t c' c'') :
    Receives ticks reports c c'' := by
  obtain ⟨new, heq, hquiet, -⟩ := hq.effects
  have hno : ∀ call t market, Effect.called call t market ∉ new :=
    fun call t market hmem => absurd (hquiet _ hmem) (by simp [Effect.isQuiet])
  constructor
  · rw [heq, ticksHanded_append, ticksHanded_eq_nil hno, List.append_nil, hq.tickBuffer, h.ticks]
  · rw [heq, reportsHanded_append, reportsHanded_eq_nil hno, List.append_nil, hq.reportBuffer,
      h.reports]

/-- A core receives first what the one step brings, then what the other does. -/
theorem Receives.trans {ticks' : List Tick} {reports' : List OrderReport}
    (h : Receives ticks reports c c') (h' : Receives ticks' reports' c' c'') :
    Receives (ticks ++ ticks') (reports ++ reports') c c'' := by
  constructor
  · rw [h'.ticks, h.ticks, List.append_assoc]
  · rw [h'.reports, h.reports, List.append_assoc]

/-- Nothing is received by doing nothing. -/
theorem Receives.refl (c : Core Q S L R) : Receives [] [] c c := ⟨by simp, by simp⟩

/-- Quiet work receives nothing. -/
theorem receives_of_quiet (h : Quiet t c c') : Receives [] [] c c' :=
  (Receives.refl c).trans_quiet h

variable [Strategy S]

/-- A call hands over what it carries, when nothing older is buffered. -/
theorem receives_wake (c : Core Q S L R) (call : Call) (t : ℤ) (wakeup : Bool)
    (hticks : call.ticks = [] ∨ c.tickBuffer = [])
    (hreports : call.reports = [] ∨ c.reportBuffer = []) :
    Receives call.ticks call.reports c (c.wake call t wakeup).1 := by
  have hcall : ∀ strategy, Receives call.ticks call.reports c
      (c.afterCall call t strategy) := by
    intro strategy
    constructor
    · change ticksHanded (c.effects ++ [.called call t c.market]) ++ c.tickBuffer = _
      rcases hticks with h | h <;> simp [ticksHanded, h]
    · change reportsHanded (c.effects ++ [.called call t c.market]) ++ c.reportBuffer = _
      rcases hreports with h | h <;> simp [reportsHanded, h]
  rcases wake_spec c call t wakeup with ⟨err, h⟩ | ⟨strategy, commands, h⟩
  · rw [h]
    exact hcall c.strategy
  · rw [h]
    exact (hcall strategy).trans_quiet (quiet_handleCommands _ commands)

/-- Waking the strategy leaves the buffers alone. -/
theorem side_wake (c : Core Q S L R) (call : Call) (t : ℤ) (wakeup : Bool) :
    (c.wake call t wakeup).1.config = c.config ∧
      (c.wake call t wakeup).1.tickBuffer = c.tickBuffer ∧
      (c.wake call t wakeup).1.reportBuffer = c.reportBuffer := by
  rcases wake_spec c call t wakeup with ⟨err, h⟩ | ⟨strategy, commands, h⟩
  · rw [h]
    exact ⟨rfl, rfl, rfl⟩
  · rw [h]
    have hq := quiet_handleCommands (t := t) (c.afterCall call t strategy) commands
    exact ⟨hq.config, hq.tickBuffer, hq.reportBuffer⟩

/-- Waking the strategy buffers nothing in tick mode. -/
theorem Unbuffered.wake (h : c.Unbuffered) (call : Call) (t : ℤ) (wakeup : Bool) :
    (c.wake call t wakeup).1.Unbuffered := by
  obtain ⟨hconfig, htick, hreport⟩ := side_wake c call t wakeup
  unfold Unbuffered at h ⊢
  rw [hconfig, htick, hreport]
  exact h

/-- The exchange side buffers nothing. -/
theorem Unbuffered.quiet (h : c.Unbuffered) (hq : Quiet t c c') : c'.Unbuffered := by
  unfold Unbuffered at h ⊢
  rw [hq.config, hq.tickBuffer, hq.reportBuffer]
  exact h

/-- A handover carries the buffered ticks. -/
theorem handover_ticks (c : Core Q S L R) : c.handover.flatMap Call.ticks = c.tickBuffer := by
  unfold handover tickCalls reportCalls
  split_ifs with h h' h' <;> simp_all [Call.ticks]

/-- A handover carries the buffered reports. -/
theorem handover_reports (c : Core Q S L R) : c.handover.flatMap Call.reports = c.reportBuffer := by
  unfold handover tickCalls reportCalls
  split_ifs with h h' h' <;> simp_all [Call.reports]

/-- A flush without error hands over what is buffered. -/
theorem receives_flushStrategy (h : (c.flushStrategy t).2 = none) :
    Receives [] [] c (c.flushStrategy t).1 ∧ (c.flushStrategy t).1.tickBuffer = [] ∧
      (c.flushStrategy t).1.reportBuffer = [] := by
  rcases flushStrategy_spec c t with
    ⟨htick, hreport, heq⟩ | ⟨strategy, calls, tickBuffer, err, -, heq⟩ | ⟨strategy, commands, heq⟩
  · rw [heq]
    exact ⟨.refl c, htick, hreport⟩
  · rw [heq] at h
    cases h
  · have hhanded : Receives [] [] c (c.disarmed.handed t strategy c.handover [] []) := by
      constructor
      · change ticksHanded (c.effects ++ c.handover.map (Effect.called · t c.market)) ++ [] = _
        simp [ticksHanded_calls, handover_ticks]
      · change reportsHanded (c.effects ++ c.handover.map (Effect.called · t c.market)) ++ [] = _
        simp [reportsHanded_calls, handover_reports]
    have hq := quiet_handleCommands (t := t) (c.disarmed.handed t strategy c.handover [] [])
      commands
    have htune : ∀ c' : Core Q S L R, Quiet t c' { c'.tune with config := c'.config } := by
      intro c'
      unfold tune
      split_ifs
      · exact .of_eq rfl rfl
      · exact .refl c'
    have hside := hhanded.trans_quiet (hq.trans (htune _))
    rw [heq]
    refine ⟨⟨hside.ticks, hside.reports⟩, ?_, ?_⟩
    · exact (hq.trans (htune _)).tickBuffer
    · exact (hq.trans (htune _)).reportBuffer

/-- A push receives nothing. -/
theorem Receives.push (h : Receives ticks reports c c') (ts delay : ℤ) (kind : EventKind) :
    Receives ticks reports c (c'.pushAfter ts delay kind) := by
  have hno : ∀ call t market, Effect.called call t market ∉
      pushEffects ts delay (addI64 ts delay) kind := by
    intro call t market
    unfold pushEffects
    split_ifs <;> simp
  rw [pushAfter_eq]
  constructor
  · rw [ticksHanded_append, ticksHanded_eq_nil hno, List.append_nil]
    exact h.ticks
  · rw [reportsHanded_append, reportsHanded_eq_nil hno, List.append_nil]
    exact h.reports

/-- In batch mode there is nothing to say about the buffers. -/
theorem unbuffered_of_batch (h : c.config.mode = .batch) : c.Unbuffered := by
  intro htick
  rw [h] at htick
  cases htick

/-- The delivery of a tick hands it over or buffers it. -/
theorem receives_onTickDelivery (h : c.Unbuffered) (tick : Tick) :
    Receives [tick] [] c (c.onTickDelivery tick).1 ∧ (c.onTickDelivery tick).1.Unbuffered := by
  have hbuffer : Receives [tick] [] c ((c.observeDelivery tick).bufferTick tick) := by
    constructor
    · exact (List.append_assoc _ _ _).symm
    · exact (List.append_nil _).symm
  unfold onTickDelivery
  dsimp only
  split
  · next hmode =>
    have hobserve : (c.observeDelivery tick).Unbuffered := h
    have hwake := receives_wake (c.observeDelivery tick) (.onTick tick) tick.tsLocal false
      (.inr (h hmode).1) (.inl rfl)
    exact ⟨⟨hwake.ticks, hwake.reports⟩, hobserve.wake _ _ _⟩
  · next hmode =>
    have hbatch : ((c.observeDelivery tick).bufferTick tick).Unbuffered := unbuffered_of_batch hmode
    split_ifs
    · have hnext : Receives [] [] ((c.observeDelivery tick).bufferTick tick)
          ((c.observeDelivery tick).bufferTick tick).nextTimer :=
            ⟨by simp [nextTimer], by simp [nextTimer]⟩
      refine ⟨(hbuffer.trans hnext).push _ _ _, ?_⟩
      unfold armTimer
      rw [pushAfter_eq]
      exact unbuffered_of_batch hmode
    · exact ⟨hbuffer, hbatch⟩

/-- A report is handed over or buffered. -/
theorem receives_onOrderReport (h : c.Unbuffered) (report : OrderReport) :
    Receives [] [report] c (c.onOrderReport report).1 ∧
      (c.onOrderReport report).1.Unbuffered := by
  have hforget : Quiet 0 c (c.forget report) := quiet_forget c report
  unfold onOrderReport
  dsimp only
  split
  · next hmode =>
    have hwake := receives_wake (c.forget report) (.onOrderUpdate report)
      (c.forget report).nowTsSim false (.inl rfl) (.inr ((h.quiet hforget) hmode).2)
    exact ⟨(receives_of_quiet hforget).trans hwake, (h.quiet hforget).wake _ _ _⟩
  · next hmode =>
    have hquiet := receives_of_quiet hforget
    refine ⟨⟨hquiet.ticks, ?_⟩, unbuffered_of_batch hmode⟩
    change reportsHanded (c.forget report).effects ++
      ((c.forget report).reportBuffer ++ [report]) = _
    rw [← List.append_assoc, hquiet.reports, List.append_nil]

/-- Funding brings neither a tick nor a report. -/
theorem receives_onFunding (h : c.Unbuffered) (event : FundingEvent) :
    Receives [] [] c (c.onFunding event).1 ∧ (c.onFunding event).1.Unbuffered := by
  have hfunding : Quiet 0 c (c.applyFunding event) := quiet_applyFunding c event
  have hwake := receives_wake (c.applyFunding event) (.onFunding event)
    (c.applyFunding event).nowTsSim (decide ((c.applyFunding event).config.mode = .batch))
    (.inl rfl) (.inl rfl)
  exact ⟨(receives_of_quiet hfunding).trans hwake, (h.quiet hfunding).wake _ _ _⟩

/-- A handled event brings its ticks and reports. -/
theorem receives_handle [LatencyModel L R] (h : c.Unbuffered) (kind : EventKind) :
    Receives kind.ticks kind.reports c (c.handle kind).1 ∧ (c.handle kind).1.Unbuffered := by
  have quiet : ∀ {t : ℤ} {c' : Core Q S L R}, Quiet t c c' →
      Receives [] [] c c' ∧ c'.Unbuffered :=
    fun hq => ⟨receives_of_quiet hq, h.quiet hq⟩
  cases kind with
  | tick tick => exact quiet (quiet_onTickEvent c tick)
  | tickDelivery tick => exact receives_onTickDelivery h tick
  | l2Update update => exact quiet (quiet_onL2Update (t := 0) c update)
  | l3Update update => exact quiet (quiet_onL3Update (t := 0) c update)
  | order order => exact quiet (quiet_onOrder c order)
  | orderAck orderId => exact quiet (quiet_onOrderAck c orderId)
  | orderCancel orderId => exact quiet (quiet_onOrderCancel c orderId)
  | orderCancelAck orderId => exact quiet (quiet_onOrderCancelAck c orderId)
  | orderReport report => exact receives_onOrderReport h report
  | funding event => exact receives_onFunding h event
  | timer timerId =>
    simp only [handle, onTimer]
    split_ifs
    · exact ⟨⟨(Receives.refl c).ticks, (Receives.refl c).reports⟩, h⟩
    · exact ⟨.refl c, h⟩

end Core

/-! ## The engine -/

namespace Engine

variable {T U Q S L R : Type} [QueueModel Q] [TickSource T] [L3Source U]

/-- What was popped for the strategy was handed over, or is buffered. -/
structure Received (e : Engine T U Q S L R) : Prop where
  ticks : ticksHanded e.trace ++ e.core.tickBuffer = ticksPopped e.trace
  reports : reportsHanded e.trace ++ e.core.reportBuffer = reportsPopped e.trace
  unbuffered : e.core.Unbuffered

variable {e : Engine T U Q S L R} {l3s l3s' : List (List L3Update)} {tks tks' : List (List Tick)}

variable [Strategy S]

/-- Work pops no tick and no report. -/
theorem Works.popped_eq_nil {e' : Engine T U Q S L R} {new : List Effect} (h : Works e e' new) :
    ticksPopped new = [] ∧ reportsPopped new = [] := by
  simp [ticksPopped, reportsPopped, h.poppedIn_eq_nil]

/-- A flush that does not fail hands over what is buffered. -/
theorem Received.flush (h : e.Received) (hnone : e.flush.2 = none) :
    e.flush.1.Received ∧ e.flush.1.core.tickBuffer = [] ∧ e.flush.1.core.reportBuffer = [] := by
  obtain ⟨hreceives, htick, hreport⟩ :=
    Core.receives_flushStrategy (c := e.core.cleared) (t := e.core.nowTsSim) hnone
  obtain ⟨new, hw, -⟩ := flush_spec e
  have hcore : e.flush.1.core = (e.core.cleared.flushStrategy e.core.nowTsSim).1.cleared :=
    core_absorb _ _
  have heffects : (e.core.cleared.flushStrategy e.core.nowTsSim).1.effects = new :=
    List.append_cancel_left ((trace_absorb e _).symm.trans hw.trace)
  have htick' : e.flush.1.core.tickBuffer = [] := by rw [hcore]; exact htick
  have hreport' : e.flush.1.core.reportBuffer = [] := by rw [hcore]; exact hreport
  refine ⟨⟨?_, ?_, fun _ => ⟨htick', hreport'⟩⟩, htick', hreport'⟩
  · have hnew := hreceives.ticks
    rw [htick, heffects] at hnew
    rw [htick', hw.trace, ticksHanded_append, ticksPopped_append, hw.popped_eq_nil.1, ← h.ticks,
      List.append_nil, List.append_nil]
    simpa [ticksHanded, Core.cleared] using hnew
  · have hnew := hreceives.reports
    rw [hreport, heffects] at hnew
    rw [hreport', hw.trace, reportsHanded_append, reportsPopped_append, hw.popped_eq_nil.2,
      ← h.reports, List.append_nil, List.append_nil]
    simpa [reportsHanded, Core.cleared] using hnew

variable [LatencyModel L R]

/-- Handling an event that was popped hands its data over or buffers them. -/
theorem Received.handleEvent (h : e.Received) (event : Event) :
    (e.handleEvent event).1.Received := by
  obtain ⟨hreceives, hunbuffered⟩ :=
    Core.receives_handle (c := e.core.cleared.atTime event.tsSim) h.unbuffered event.kind
  obtain ⟨new, hw, -⟩ := handleEvent_spec e event
  have hcore : (e.handleEvent event).1.core =
      ((e.core.cleared.atTime event.tsSim).handle event.kind).1.cleared := core_absorb _ _
  have heffects : ((e.core.cleared.atTime event.tsSim).handle event.kind).1.effects = new :=
    List.append_cancel_left ((trace_absorb _ _).symm.trans hw.trace)
  have htrace : (e.popped event).trace = e.trace ++ [.popped event e.core.activeBatchTimerId] := rfl
  refine ⟨?_, ?_, by rw [hcore]; exact hunbuffered⟩
  · have hnew := hreceives.ticks
    rw [heffects] at hnew
    have hnew' : ticksHanded new ++ (e.handleEvent event).1.core.tickBuffer =
        e.core.tickBuffer ++ event.kind.ticks := by rw [hcore]; exact hnew
    rw [hw.trace, htrace, ticksHanded_append, ticksHanded_append, ticksPopped_append,
      ticksPopped_append, hw.popped_eq_nil.1, ← h.ticks, List.append_assoc, hnew']
    simp [ticksHanded, ticksPopped, poppedIn_singleton, EventKind.any]
  · have hnew := hreceives.reports
    rw [heffects] at hnew
    have hnew' : reportsHanded new ++ (e.handleEvent event).1.core.reportBuffer =
        e.core.reportBuffer ++ event.kind.reports := by rw [hcore]; exact hnew
    rw [hw.trace, htrace, reportsHanded_append, reportsHanded_append, reportsPopped_append,
      reportsPopped_append, hw.popped_eq_nil.2, ← h.reports, List.append_assoc, hnew']
    simp [reportsHanded, reportsPopped, poppedIn_singleton, EventKind.any]

/-- Noting a wakeup neither hands over nor drops anything. -/
theorem Received.setPendingWakeup (h : e.Received) (b : Bool) : (e.setPendingWakeup b).Received :=
  ⟨h.ticks, h.reports, h.unbuffered⟩

/-- A flush that may be put off loses nothing. -/
theorem Received.deferredFlush (h : e.Received) {wakeup : Bool}
    (hnone : (e.deferredFlush wakeup).2 = none) : (e.deferredFlush wakeup).1.Received := by
  unfold Engine.deferredFlush at hnone ⊢
  split_ifs at hnone ⊢
  · split at hnone
    · cases hnone
    · next e' heq =>
      have hflush := (h.flush (congrArg Prod.snd heq)).1
      rw [heq] at hflush
      exact hflush.setPendingWakeup false
  · exact h.setPendingWakeup true
  · exact h

/-- An event that is handled without error keeps the account of what was handed over. -/
theorem Received.dispatch (h : e.Received) {event : Event} (hnone : (e.dispatch event).2 = none) :
    (e.dispatch event).1.Received := by
  have hevent := h.handleEvent event
  unfold Engine.dispatch at hnone ⊢
  split at hnone
  · cases hnone
  · next heq =>
    rw [heq] at hevent
    exact hevent
  · next heq =>
    rw [heq] at hevent
    exact hevent.deferredFlush hnone

/-- A record that is taken in is not yet popped. -/
theorem Received.schedule (h : e.Received) (r : Record) : (e.schedule r).Received := by
  obtain ⟨rest, htrace, hrest⟩ := trace_schedule e r
  have hno : ∀ call t market, Effect.called call t market ∉ .ingested r :: rest := by
    intro call t market hmem
    rcases List.mem_cons.1 hmem with hmem | hmem
    · cases hmem
    · rcases hrest _ hmem with h | ⟨y, -, h⟩ <;> cases h
  have hpopped := poppedIn_schedule e r EventKind.any
  refine ⟨?_, ?_, by rw [core_schedule]; exact h.unbuffered⟩
  · rw [core_schedule, ticksPopped, hpopped, htrace, ticksHanded_append, ticksHanded_eq_nil hno,
      List.append_nil]
    exact h.ticks
  · rw [core_schedule, reportsPopped, hpopped, htrace, reportsHanded_append,
      reportsHanded_eq_nil hno, List.append_nil]
    exact h.reports

/-! ## The ticks taken in -/

/-- What was taken in and what the sources still hold make up `all`, and the deliveries
scheduled are those of the ticks taken in. -/
structure TakenIn (all : List Record) (e : Engine T U Q S L R) (l3s : List (List L3Update))
    (tks : List (List Tick)) : Prop where
  merge : ingestedIn e.trace ++ KWayMerge.merge Record.key (records l3s tks) = all
  deliveries : scheduledIn EventKind.isDelivery e.trace =
    ((ticksOf (ingestedIn e.trace)).map (delivered e.core.config)).map
      fun t => (t.tsLocal, .tickDelivery t)

/-- When a record is due depends on the latency of the feed only. -/
theorem delivered_congr {config config' : EngineConfig}
    (h : config'.feedLatencyNs = config.feedLatencyNs) : delivered config' = delivered config := by
  funext tick
  simp only [delivered, deliveryTs, h]

namespace TakenIn

variable {all : List Record} {r : Record}

/-- The first record of the merge is taken in. -/
theorem ingest (h : e.TakenIn all l3s tks)
    (hpick : KWayMerge.pick Record.key (records l3s tks) = some (r, records l3s' tks')) :
    (e.schedule r).TakenIn all l3s' tks' := by
  obtain ⟨rest, htrace, hrest⟩ := trace_schedule e r
  have hingested : ingestedIn (e.schedule r).trace = ingestedIn e.trace ++ [r] := by
    have hnil : ingestedIn rest = [] := by
      refine List.filterMap_eq_nil_iff.2 fun x hx => ?_
      rcases hrest x hx with rfl | ⟨y, -, rfl⟩ <;> rfl
    rw [htrace, ingestedIn_append]
    change ingestedIn e.trace ++ r :: ingestedIn rest = _
    rw [hnil]
  constructor
  · rw [hingested, ← h.merge, KWayMerge.merge_cons hpick, List.append_assoc]
    rfl
  · rw [scheduledIn_schedule, h.deliveries, hingested, core_schedule]
    cases r <;> simp [ticksOf, Record.events, EventKind.isDelivery, delivered]

/-- Work takes nothing in. -/
theorem works {e' : Engine T U Q S L R} {new : List Effect} (h : e.TakenIn all l3s tks)
    (hw : Works e e' new) : e'.TakenIn all l3s tks := by
  have hingested : ingestedIn e'.trace = ingestedIn e.trace := by
    rw [hw.trace, ingestedIn_append, ingestedIn_eq_nil hw.isWork, List.append_nil]
  constructor
  · rw [hingested]
    exact h.merge
  · rw [hingested, delivered_congr hw.feedLatency, ← h.deliveries, hw.trace, scheduledIn_append,
      hw.scheduledIn_eq_nil EventKind.isMarket_of_isDelivery, List.append_nil]

/-- An event that is popped takes nothing in. -/
theorem dispatch (h : e.TakenIn all l3s tks) (event : Event) :
    (e.dispatch event).1.TakenIn all l3s tks := by
  obtain ⟨new, hw, -⟩ := dispatch_spec e event
  refine TakenIn.works ⟨?_, ?_⟩ hw
  · simpa [popped, ingestedIn] using h.merge
  · simpa [popped, ingestedIn, scheduledIn, Core.atTime] using h.deliveries

/-- With every record left later than `i64::MAX`, all is taken in. -/
theorem complete (h : e.TakenIn all l3s tks) (hmax : ∀ r ∈ all, r.tsExchange ≤ i64Max)
    (later : ∀ l ∈ records l3s tks, ∀ r ∈ l.head?, i64Max < r.tsExchange) :
    ingestedIn e.trace = all := by
  have hnil : (records l3s tks).flatten = [] := by
    refine List.flatten_eq_nil_iff.2 fun l hl => ?_
    cases l with
    | nil => rfl
    | cons r l =>
      have hmem : r ∈ KWayMerge.merge Record.key (records l3s tks) :=
        (KWayMerge.merge_perm _ _).mem_iff.2 (List.mem_flatten.2 ⟨_, hl, List.mem_cons_self⟩)
      have hle := hmax r (h.merge ▸ List.mem_append_right _ hmem)
      exact absurd (later _ hl r rfl) (not_lt.2 hle)
  rw [← h.merge, KWayMerge.merge_nil hnil, List.append_nil]

end TakenIn

/-! ## Deliveries in order -/

/-- No record left is before a delivery that was popped, and the deliveries are popped in the order
of their times. Where and when the reports are due does not matter. -/
structure Onward (e : Engine T U Q S L R) (l3s : List (List L3Update)) (tks : List (List Tick)) :
    Prop where
  timely : e.Timely l3s tks
  agenda : e.Agenda EventKind.isDelivery
  ahead : ∀ x ∈ poppedIn EventKind.isDelivery e.trace, ∀ l ∈ records l3s tks, ∀ r ∈ l,
    x.1 ≤ r.tsExchange

namespace Onward

variable {r : Record}

/-- Only the core, the queue and the trace count. -/
theorem withSources (h : e.Onward l3s tks) (ticks : SourceQueue T) (l3 : SourceQueue U) :
    (e.withSources ticks l3).Onward l3s tks :=
  ⟨⟨h.timely.feedLatency, h.timely.sorted, h.timely.stamped⟩, h.agenda, h.ahead⟩

/-- A record is taken in. Its delivery is not before it, and so not before any popped one. -/
theorem ingest (h : e.Onward l3s tks)
    (hpick : KWayMerge.pick Record.key (records l3s tks) = some (r, records l3s' tks'))
    (hno : Effect.overflow ∉ (e.schedule r).trace) : (e.schedule r).Onward l3s' tks' := by
  obtain ⟨l, hl, hr⟩ := KWayMerge.mem_of_pick hpick
  have hsuffix := KWayMerge.suffix_of_pick hpick
  have hevents := events_dated h.timely.feedLatency (h.timely.stamped l hl r hr) hno
  refine ⟨h.timely.suffix (by rw [core_schedule]) hsuffix, ?_, fun x hx l' hl' r' hr' => ?_⟩
  · exact h.agenda.schedule fun x hx y hy => (h.ahead y hy l hl r hr).trans (hevents x hx).2
  · rw [poppedIn_schedule] at hx
    obtain ⟨l, hl, hs⟩ := hsuffix l' hl'
    exact h.ahead x hx l hl r' (hs.subset hr')

/-- The head of the queue is popped. It is before every record left. -/
theorem pop (h : e.Onward l3s tks) {event : Event} {queue : EventQueue}
    (pop : e.queue.pop = some (event, queue))
    (later : ∀ l ∈ records l3s tks, ∀ r ∈ l.head?, event.tsSim < r.tsExchange) :
    ((e.withQueue queue).popped event).Onward l3s tks := by
  refine ⟨⟨h.timely.feedLatency, h.timely.sorted, h.timely.stamped⟩, h.agenda.pop pop,
    fun x hx l hl r hr => ?_⟩
  have hlt := KWayMerge.forall_of_head (p := (event.tsSim < ·)) (fun _ _ => lt_of_lt_of_le)
    (h.timely.sorted l hl) (later l hl)
  change x ∈ poppedIn EventKind.isDelivery (e.trace ++ [.popped event _]) at hx
  rw [poppedIn_append, poppedIn_singleton] at hx
  rcases List.mem_append.1 hx with hx | hx
  · exact h.ahead x hx l hl r hr
  · split_ifs at hx
    · rw [List.mem_singleton.1 hx]
      exact (hlt r hr).le
    · cases hx

/-- Work schedules no delivery. -/
theorem works {e' : Engine T U Q S L R} {new : List Effect} (h : e.Onward l3s tks)
    (hw : Works e e' new) : e'.Onward l3s tks := by
  refine ⟨h.timely.works hw, h.agenda.works hw fun x hx => ?_, fun x hx => ?_⟩
  · rw [hw.scheduledIn_eq_nil EventKind.isMarket_of_isDelivery] at hx
    cases hx
  · rw [hw.poppedIn_trace] at hx
    exact h.ahead x hx

/-- A turn without overflow. -/
theorem turn {r : Engine T U Q S L R × Status (EngineError (Strategy.Error S))}
    (h : e.Onward l3s tks) (hturn : Turn e l3s tks r l3s' tks')
    (hno : Effect.overflow ∉ r.1.trace) : r.1.Onward l3s' tks' := by
  cases hturn with
  | ingest ticks l3 pick due => exact (h.ingest pick hno).withSources ticks l3
  | @event event queue ticks l3 pop later =>
    obtain ⟨new, hw, -⟩ := dispatch_spec ((e.withSources ticks l3).withQueue queue) event
    exact ((h.withSources ticks l3).pop pop later).works hw
  | flush ticks l3 pop later buffered =>
    obtain ⟨new, hw, -⟩ := flush_spec (e.withSources ticks l3)
    exact (h.withSources ticks l3).works hw
  | finish ticks l3 pop later unbuffered => exact h.withSources ticks l3

end Onward

/-! ## Finished runs -/

/-- The ticks of all sources as the strategy should get them : in the order of the merge,
stably sorted by delivery time. -/
def deliveries (config : EngineConfig) (l3s : List (List L3Update)) (tks : List (List Tick)) :
    List Tick :=
  sortBy Tick.tsLocal
    ((ticksOf (KWayMerge.merge Record.key (records l3s tks))).map (delivered config))

/-- The ticks popped are those of the deliveries. -/
theorem ticksPopped_eq (l : List Effect) :
    ticksPopped l = (poppedIn EventKind.isDelivery l).flatMap (·.2.ticks) :=
  flatMap_poppedIn (fun kind h => by cases kind <;> first | rfl | cases h) l

/-- Once nothing waits, the popped ticks are the scheduled ones, stably sorted. -/
theorem ticksPopped_of_agenda {all : List Record} (hagenda : e.Agenda EventKind.isDelivery)
    (htaken : e.TakenIn all l3s tks) (hwait : e.queue.waiting EventKind.isDelivery = []) :
    ticksPopped e.trace =
      sortBy Tick.tsLocal ((ticksOf (ingestedIn e.trace)).map (delivered e.core.config)) := by
  let stamp (t : Tick) : ℤ × EventKind := (t.tsLocal, .tickDelivery t)
  have hpopped : poppedIn EventKind.isDelivery e.trace = (sortBy (fun t => (stamp t).1)
      ((ticksOf (ingestedIn e.trace)).map (delivered e.core.config))).map stamp := by
    rw [map_sortBy, ← htaken.deliveries, ← hagenda, hwait, List.append_nil]
  rw [ticksPopped_eq, hpopped, List.flatMap_map]
  exact List.flatMap_singleton' _

variable [SeedableRng R]

/-- A run from `e₀` over the lists `l3s` and `tks` that ends in `e` without error. -/
structure FinishedRun (feedLatencyNs : ℤ) (l3s : List (List L3Update)) (tks : List (List Tick))
    (e₀ e : Engine T U Q S L R) : Prop where
  built : Built (fun _ kind => kind.isBackground = true) e₀
  feeds : e₀.Feeds l3s tks
  timely : e₀.Timely l3s tks
  feedLatency : e₀.core.config.feedLatencyNs = feedLatencyNs
  i64 : ∀ l ∈ records l3s tks, ∀ r ∈ l, r.tsExchange ≤ i64Max
  run : Reaches turn closed e₀ e .finished
  noOverflow : Effect.overflow ∉ e.trace

/-- Nothing was popped or handed over at the start. -/
theorem Built.received {allowed : ℤ → EventKind → Prop} (h : Built allowed e) : e.Received := by
  induction h with
  | new => exact ⟨rfl, rfl, fun _ => ⟨rfl, rfl⟩⟩
  | external _ hext ih =>
    cases hext with
    | addTickSource source => exact ⟨ih.ticks, ih.reports, ih.unbuffered⟩
    | addL3Source source => exact ⟨ih.ticks, ih.reports, ih.unbuffered⟩
    | pushEvent hallowed =>
      exact ⟨by simpa [ticksHanded, ticksPopped, poppedIn] using ih.ticks,
        by simpa [reportsHanded, reportsPopped, poppedIn] using ih.reports, ih.unbuffered⟩

/-- Nothing was taken in at the start. -/
theorem Built.takenIn (h : Built (fun _ kind => kind.isBackground = true) e) :
    e.TakenIn (KWayMerge.merge Record.key (records l3s tks)) l3s tks := by
  have hnil : ingestedIn e.trace = [] ∧ scheduledIn EventKind.isDelivery e.trace = [] := by
    induction h with
    | new => exact ⟨rfl, rfl⟩
    | external _ hext ih =>
      cases hext with
      | addTickSource source => exact ih
      | addL3Source source => exact ih
      | @pushEvent ts kind hallowed =>
        have hp : kind.isDelivery = false := by
          cases kind <;> first | rfl | cases hallowed
        rw [trace_pushEvent, ingestedIn_append, scheduledIn_append, ih.1, ih.2,
          scheduledIn_singleton, hp]
        exact ⟨rfl, rfl⟩
  constructor
  · rw [hnil.1, List.nil_append]
  · rw [hnil.1, hnil.2]
    rfl

/-- Before a run, with background events pushed only, no delivery is scheduled. -/
theorem Built.onward (h : Built (fun _ kind => kind.isBackground = true) e)
    (timely : e.Timely l3s tks) :
    e.Onward l3s tks := by
  have hnil : poppedIn EventKind.isDelivery e.trace = [] := h.poppedIn_trace _
  have hagenda : e.Agenda EventKind.isDelivery := by
    clear hnil timely
    induction h with
    | new => rfl
    | @external e _ _ hext ih =>
      cases hext with
      | addTickSource source => exact ih
      | addL3Source source => exact ih
      | @pushEvent ts kind hallowed =>
        have hp : kind.isDelivery = false := by
          cases kind <;> first | rfl | cases hallowed
        have hscheduled : scheduledIn EventKind.isDelivery (e.pushEvent ts kind).trace =
            scheduledIn EventKind.isDelivery e.trace ++ [] := by simp [scheduledIn_singleton, hp]
        refine ih.grow (by simp [poppedIn]) hscheduled ?_ (by simp)
        rw [queue_pushEvent, EventQueue.waiting_push]
        simp [hp]
        rfl
  exact ⟨timely, hagenda, by simp [hnil]⟩

/-- What a run over the lists keeps until it fails, and what it has reached at its end. -/
structure Progress (feedLatencyNs : ℤ) (all : List Record) (finished : Prop)
    (e : Engine T U Q S L R) (l3s : List (List L3Update)) (tks : List (List Tick)) : Prop where
  onward : e.Onward l3s tks
  received : e.Received
  takenIn : e.TakenIn all l3s tks
  feedLatency : e.core.config.feedLatencyNs = feedLatencyNs
  complete : finished → ingestedIn e.trace = all ∧ e.queue.pop = none ∧
    e.core.tickBuffer = [] ∧ e.core.reportBuffer = []

/-- A turn that does not fail and does not overflow keeps the account of what was handed over. -/
theorem Progress.turn {feedLatencyNs : ℤ} {all : List Record}
    {r : Engine T U Q S L R × Status (EngineError (Strategy.Error S))}
    (h : Progress feedLatencyNs all False e l3s tks) (hmax : ∀ r ∈ all, r.tsExchange ≤ i64Max)
    (hturn : Turn e l3s tks r l3s' tks') (hok : ∀ err, r.2 ≠ .failed err)
    (hno : Effect.overflow ∉ r.1.trace) :
    Progress feedLatencyNs all (r.2 = .finished) r.1 l3s' tks' := by
  obtain ⟨honward, hreceived, htaken, hlatency, -⟩ := h
  have honward' := honward.turn hturn hno
  cases hturn with
  | ingest ticks l3 pick due =>
    have hsched := htaken.ingest pick
    have hreceived' := hreceived.schedule (e := e)
    exact ⟨honward', ⟨(hreceived' _).ticks, (hreceived' _).reports, (hreceived' _).unbuffered⟩,
      ⟨hsched.merge, hsched.deliveries⟩, by
        change (e.schedule _).core.config.feedLatencyNs = _
        rw [core_schedule, hlatency], by simp⟩
  | @event event queue ticks l3 pop later =>
    have hnone : (((e.withSources ticks l3).withQueue queue).dispatch event).2 = none := by
      cases herr : (((e.withSources ticks l3).withQueue queue).dispatch event).2 with
      | none => rfl
      | some err => exact absurd (statusOf_eq_failed.2 herr) (hok err)
    obtain ⟨new, hw, -⟩ := dispatch_spec ((e.withSources ticks l3).withQueue queue) event
    have hreceived' : ((e.withSources ticks l3).withQueue queue).Received :=
      ⟨hreceived.ticks, hreceived.reports, hreceived.unbuffered⟩
    have htaken' : ((e.withSources ticks l3).withQueue queue).TakenIn all l3s tks :=
      ⟨htaken.merge, htaken.deliveries⟩
    exact ⟨honward', hreceived'.dispatch hnone, htaken'.dispatch event,
      hw.feedLatency.trans hlatency, fun hf => absurd hf (statusOf_ne_finished _)⟩
  | flush ticks l3 pop later buffered =>
    have hnone : (e.withSources ticks l3).flush.2 = none := by
      cases herr : (e.withSources ticks l3).flush.2 with
      | none => rfl
      | some err => exact absurd (statusOf_eq_failed.2 herr) (hok err)
    obtain ⟨new, hw, -⟩ := flush_spec (e.withSources ticks l3)
    have hreceived' : (e.withSources ticks l3).Received :=
      ⟨hreceived.ticks, hreceived.reports, hreceived.unbuffered⟩
    have htaken' : (e.withSources ticks l3).TakenIn all l3s tks := ⟨htaken.merge, htaken.deliveries⟩
    exact ⟨honward', (hreceived'.flush hnone).1, htaken'.works hw, hw.feedLatency.trans hlatency,
      fun hf => absurd hf (statusOf_ne_finished _)⟩
  | finish ticks l3 pop later unbuffered =>
    refine ⟨honward', ⟨hreceived.ticks, hreceived.reports, hreceived.unbuffered⟩,
      ⟨htaken.merge, htaken.deliveries⟩, hlatency,
      fun _ => ⟨htaken.complete hmax later, pop, ?_⟩⟩
    cases hmode : e.core.config.mode with
    | tick => exact hreceived.unbuffered hmode
    | batch =>
      have hb := not_or.1 fun hb => unbuffered ⟨hmode, hb⟩
      have hempty : e.core.tickBuffer = [] ∧ e.core.reportBuffer = [] := by simpa using hb
      exact hempty

/-- A finished run has made all its progress. -/
theorem FinishedRun.progress {feedLatencyNs : ℤ} {e₀ : Engine T U Q S L R}
    (h : FinishedRun feedLatencyNs l3s tks e₀ e) :
    ∃ l3s' tks', Progress feedLatencyNs (KWayMerge.merge Record.key (records l3s tks)) True e
      l3s' tks' := by
  have hmax : ∀ r ∈ KWayMerge.merge Record.key (records l3s tks), r.tsExchange ≤ i64Max := by
    intro r hr
    obtain ⟨l, hl, hrl⟩ := List.mem_flatten.1 ((KWayMerge.merge_perm _ _).mem_iff.1 hr)
    exact h.i64 l hl r hrl
  let I (e : Engine T U Q S L R) (st : Status (EngineError (Strategy.Error S)))
      (l3s' : List (List L3Update)) (tks' : List (List Tick)) : Prop :=
    (∀ err, st ≠ .failed err) → Effect.overflow ∉ e.trace → Progress feedLatencyNs
      (KWayMerge.merge Record.key (records l3s tks)) (st = .finished) e l3s' tks'
  have start : I e₀ .running l3s tks := fun _ _ =>
    ⟨h.built.onward h.timely, h.built.received, h.built.takenIn, h.feedLatency, by simp⟩
  have step : ∀ e l3s tks r l3s' tks', I e .running l3s tks → Turn e l3s tks r l3s' tks' →
      I r.1 r.2 l3s' tks' := by
    intro e l3s tks r l3s' tks' hI hturn hok hno
    obtain ⟨honward, hreceived, htaken, hlatency, -⟩ := hI (by simp) (hturn.overflow hno)
    exact Progress.turn ⟨honward, hreceived, htaken, hlatency, False.elim⟩ hmax hturn hok hno
  obtain ⟨l3s', tks', -, hI⟩ := fed_invariant (I := I) h.run h.feeds start step
  obtain ⟨honward, hreceived, htaken, hlatency, hcomplete⟩ := hI (by simp) h.noOverflow
  exact ⟨l3s', tks', honward, hreceived, htaken, hlatency, fun _ => hcomplete rfl⟩

/-- A finished run hands over every tick once, sorted stably by delivery time, and every report it
popped once, in order. Another finished run over the same lists with the same feed latency, in
whatever mode, hands over the same ticks. -/
theorem delivered_exactly_once {feedLatencyNs : ℤ} {e₀ : Engine T U Q S L R}
    (h : FinishedRun feedLatencyNs l3s tks e₀ e) :
    ticksHanded e.trace = deliveries e₀.core.config l3s tks ∧
      reportsHanded e.trace = reportsPopped e.trace ∧
      ∀ e₁ e' : Engine T U Q S L R, FinishedRun feedLatencyNs l3s tks e₁ e' →
        ticksHanded e'.trace = ticksHanded e.trace := by
  have hticks : ∀ e₁ e' : Engine T U Q S L R, FinishedRun feedLatencyNs l3s tks e₁ e' →
      ticksHanded e'.trace = deliveries e₀.core.config l3s tks := by
    intro e₁ e' h'
    obtain ⟨l3s', tks', hprogress⟩ := h'.progress
    obtain ⟨hingested, hpop, htick, -⟩ := hprogress.complete trivial
    have hwait : e'.queue.waiting EventKind.isDelivery = [] := by
      simp [EventQueue.waiting, EventQueue.pop_eq_none.1 hpop]
    have hhanded := hprogress.received.ticks
    rw [htick, List.append_nil] at hhanded
    rw [hhanded, ticksPopped_of_agenda hprogress.onward.agenda hprogress.takenIn hwait, hingested,
      delivered_congr (hprogress.feedLatency.trans h.feedLatency.symm)]
    rfl
  obtain ⟨l3s', tks', hprogress⟩ := h.progress
  obtain ⟨-, -, -, hreport⟩ := hprogress.complete trivial
  refine ⟨hticks e₀ e h, ?_, fun e₁ e' h' => (hticks e₁ e' h').trans (hticks e₀ e h).symm⟩
  have hreports := hprogress.received.reports
  rwa [hreport, List.append_nil] at hreports

/-- Batch mode over two ticks, the first one local after the second. The order that the first call
sends is refused by the limit on the position, and the report of it is due before it is sent. -/
theorem delivered_exactly_once_sample :
    let order : Order := ⟨0, 0, 0, 0, 100, 5, 1, .buy, .limit⟩
    let first : Tick := ⟨1000, 2600, 0, 100, 1, 1, .buy, 0⟩
    let second : Tick := ⟨2000, 0, 1, 101, 1, 1, .sell, 0⟩
    let config : EngineConfig := {
      mode := .batch, maxBatchNs := 300, feedLatencyNs := 500, orderUpdateLatencyNs := -700,
      maxPosition := 1 }
    let e₀ := sample config 10 [[.submitOrder order]] [[first, second]]
    let e := (runFor turn 20 e₀).1
    ticksHanded e.trace = [{ second with tsLocal := 2500 }, first] ∧
      reportsHanded e.trace = reportsPopped e.trace ∧
      (reportsPopped e.trace).map OrderReport.orderId = [1] := by
  intro order first second config e₀ e
  have built : Built (fun _ kind => kind.isBackground = true) e₀ :=
    .external (.new _ _ _ _ _) (.addTickSource [first, second])
  have feeds : e₀.Feeds [] [[first, second]] := (feeds_new _ _ _ _ _).addTickSource (yields_list _)
  have timely : e₀.Timely [] [[first, second]] := ⟨by decide +kernel, by decide, by decide⟩
  have run : Reaches turn closed e₀ e .finished := reaches_of_runFor 20 (by decide +kernel)
  have finished : FinishedRun 500 [] [[first, second]] e₀ e :=
    ⟨built, feeds, timely, by decide +kernel, by decide, run, by decide +kernel⟩
  obtain ⟨hticks, hreports, -⟩ := delivered_exactly_once finished
  exact ⟨hticks.trans (by decide +kernel), hreports, by decide +kernel⟩

end Engine

end Backtester
