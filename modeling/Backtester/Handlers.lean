import Backtester.Runs

/-!
# What the handlers do

Most of a handler is exchange-side work : orders, fills and reports. It leaves the strategy's
side of the core as it is (`StrategySide`), pushes order events only, and calls no one. `Quiet t`
says so, and says when, counting from time `t`, the pushed events are due : reports after
exactly the update latency, the rest not before `t`. Everything about that work which does
not concern a particular order follows from `Quiet`.

The strategy is called in two places, `wake` and `flushStrategy`. `wake_spec` and
`flushStrategy_spec` say what they hand over and what is left in the buffers; after the
call comes the quiet work of the commands.
-/

open StableSort

set_option linter.unusedSectionVars false

namespace Backtester

/-! ## Effects of the exchange side -/

namespace Effect

/-- An effect of exchange-side work. -/
def isQuiet : Effect → Bool
  | scheduled _ kind => kind.isOrderEvent
  | ingested _ | popped _ _ | called _ _ _ => false
  | _ => true

/-- An effect of a handler : it neither pops nor ingests, and pushes order events and timers
only. -/
def isWork : Effect → Bool
  | scheduled _ kind => !kind.isMarket
  | ingested _ | popped _ _ => false
  | _ => true

/-- What the exchange side does is work. -/
theorem isWork_of_isQuiet {x : Effect} (h : x.isQuiet = true) : x.isWork = true := by
  cases x with
  | scheduled ts kind =>
    cases kind <;> first | rfl | cases h
  | _ => first | rfl | cases h

/-- When an effect of work at time `t` is due. -/
def Timely (t latency : ℤ) : Effect → Prop
  | scheduled ts (.orderReport _) => ts = t + latency
  | scheduled ts _ => t ≤ ts
  | called _ ts _ => ts = t
  | filled fill => fill.tsExchange = t
  | _ => True

end Effect

/-- An error that a handler can raise : none is about a source. -/
def EngineError.ofHandler {ε : Type} : EngineError ε → Prop
  | .tickSource _ | .internal (.sourceExhausted _) | .internal (.l3SourceExhausted _) => False
  | _ => True

/-- The part of the core that only deliveries, timers and flushes change. -/
structure StrategySide (S : Type) where
  config : EngineConfig
  strategy : S
  market : MarketView
  nowTsSim : ℤ
  tickBuffer : List Tick
  reportBuffer : List OrderReport
  activeBatchTimerId : Option ℕ
  nextTimerId : ℕ
  pendingWakeup : Bool

namespace Core

variable {Q S L R : Type} [QueueModel Q]

/-- The part of the engine that belongs to the strategy. -/
def strategySide (c : Core Q S L R) : StrategySide S :=
  ⟨c.config, c.strategy, c.market, c.nowTsSim, c.tickBuffer, c.reportBuffer,
    c.activeBatchTimerId, c.nextTimerId, c.pendingWakeup⟩

/-- The effects of a push at `ts + delay` that lands at `pushed`. -/
def pushEffects (ts delay pushed : ℤ) (kind : EventKind) : List Effect :=
  if MachineInt.InRange 64 (ts + delay) then [.scheduled pushed kind]
  else [.overflow, .scheduled pushed kind]

/-- The push changes nothing but the effects. -/
theorem pushAfter_eq (c : Core Q S L R) (ts delay : ℤ) (kind : EventKind) :
    c.pushAfter ts delay kind =
      { c with effects := c.effects ++ pushEffects ts delay (addI64 ts delay) kind } := by
  unfold pushAfter noteSum pushEffects
  split_ifs <;> simp [pushEvent, emit]

/-- The saturating push changes nothing but the effects. -/
theorem pushAfterSat_eq (c : Core Q S L R) (ts delay : ℤ) (kind : EventKind) :
    c.pushAfterSat ts delay kind =
      { c with effects := c.effects ++ pushEffects ts delay (satAddI64 ts delay) kind } := by
  unfold pushAfterSat noteSum pushEffects
  split_ifs <;> simp [pushEvent, emit]

/-- `c'` comes from `c` by exchange-side work at time `t`. -/
structure Quiet (t : ℤ) (c c' : Core Q S L R) : Prop where
  side : c'.strategySide = c.strategySide
  effects : ∃ new, c'.effects = c.effects ++ new ∧ (∀ x ∈ new, x.isQuiet = true) ∧
    (Effect.overflow ∉ new → ∀ x ∈ new, x.Timely t c.config.orderUpdateLatencyNs)

namespace Quiet

variable {t : ℤ} {c c' c'' : Core Q S L R}

/-- The settings stay, and with them all that belongs to the strategy. -/
theorem config (h : Quiet t c c') : c'.config = c.config := congrArg StrategySide.config h.side
theorem strategy (h : Quiet t c c') : c'.strategy = c.strategy :=
  congrArg StrategySide.strategy h.side
theorem market (h : Quiet t c c') : c'.market = c.market := congrArg StrategySide.market h.side
theorem nowTsSim (h : Quiet t c c') : c'.nowTsSim = c.nowTsSim :=
  congrArg StrategySide.nowTsSim h.side
theorem tickBuffer (h : Quiet t c c') : c'.tickBuffer = c.tickBuffer :=
  congrArg StrategySide.tickBuffer h.side
theorem reportBuffer (h : Quiet t c c') : c'.reportBuffer = c.reportBuffer :=
  congrArg StrategySide.reportBuffer h.side
theorem activeBatchTimerId (h : Quiet t c c') : c'.activeBatchTimerId = c.activeBatchTimerId :=
  congrArg StrategySide.activeBatchTimerId h.side
theorem nextTimerId (h : Quiet t c c') : c'.nextTimerId = c.nextTimerId :=
  congrArg StrategySide.nextTimerId h.side
theorem pendingWakeup (h : Quiet t c c') : c'.pendingWakeup = c.pendingWakeup :=
  congrArg StrategySide.pendingWakeup h.side

/-- A change of the exchange side that has no effects. -/
theorem of_eq (hside : c'.strategySide = c.strategySide) (heffects : c'.effects = c.effects) :
    Quiet t c c' :=
  ⟨hside, [], by simp [heffects], by simp, by simp⟩

/-- Doing nothing is quiet. -/
theorem refl (c : Core Q S L R) : Quiet t c c := of_eq rfl rfl

/-- One quiet piece of work after another is quiet. -/
theorem trans (h : Quiet t c c') (h' : Quiet t c' c'') : Quiet t c c'' := by
  obtain ⟨hside, new, heq, hquiet, htime⟩ := h
  obtain ⟨hside', new', heq', hquiet', htime'⟩ := h'
  have hconfig : c'.config = c.config := congrArg StrategySide.config hside
  refine ⟨hside'.trans hside, new ++ new', by rw [heq', heq, List.append_assoc], ?_, ?_⟩
  · exact fun x hx => (List.mem_append.1 hx).elim (hquiet x) (hquiet' x)
  · intro hno x hx
    rw [List.mem_append, not_or] at hno
    rcases List.mem_append.1 hx with hx | hx
    · exact htime hno.1 x hx
    · exact hconfig ▸ htime' hno.2 x hx

/-- A loop over quiet steps is quiet. -/
theorem foldl {α : Type} {f : Core Q S L R → α → Core Q S L R} : ∀ {l : List α}
    {c' : Core Q S L R}, Quiet t c c' → (∀ c, ∀ a ∈ l, Quiet t c (f c a)) →
      Quiet t c (l.foldl f c')
  | [], _, h, _ => h
  | a :: _, c', h, hf =>
    (h.trans (hf c' a (by simp))).foldl fun c b hb => hf c b (by simp [hb])

end Quiet

variable {t : ℤ} {c c' : Core Q S L R}

namespace Quiet

/-! ## One piece of work after another -/

/-- A change of the exchange side. -/
theorem change (h : Quiet t c c') {c'' : Core Q S L R} (hside : c''.strategySide = c'.strategySide)
    (heffects : c''.effects = c'.effects) : Quiet t c c'' :=
  h.trans (.of_eq hside heffects)

/-- A change of the exchange side that has one effect. -/
theorem effect (h : Quiet t c c') {c'' : Core Q S L R} (x : Effect)
    (hside : c''.strategySide = c'.strategySide) (heffects : c''.effects = c'.effects ++ [x])
    (hq : x.isQuiet = true) (ht : x.Timely t c'.config.orderUpdateLatencyNs) : Quiet t c c'' :=
  h.trans ⟨hside, [x], heffects, by simpa using hq, fun _ => by simpa using ht⟩

/-- An entry that is quiet and timely may be added. -/
theorem emit (h : Quiet t c c') (x : Effect) (hq : x.isQuiet = true)
    (ht : x.Timely t c'.config.orderUpdateLatencyNs) : Quiet t c (c'.emit x) :=
  h.effect x rfl rfl hq ht

/-- Storing an exchange is quiet. -/
theorem putExchange (h : Quiet t c c') (symbolId : ℕ) (ex : ExchangeSimulator Q) :
    Quiet t c (c'.putExchange symbolId ex) :=
  h.change rfl rfl

/-- A push at `t + delay`, however a sum that is not an `i64` is represented. -/
theorem pushSum (h : Quiet t c c') {delay ts : ℤ} {kind : EventKind}
    (hkind : kind.isOrderEvent = true)
    (htime : (Effect.scheduled (t + delay) kind).Timely t c'.config.orderUpdateLatencyNs)
    (hts : MachineInt.InRange 64 (t + delay) → ts = t + delay) :
    Quiet t c ((c'.noteSum t delay).pushEvent ts kind) := by
  unfold noteSum
  split_ifs with hin
  · exact h.emit _ hkind (hts hin ▸ htime)
  · refine h.trans ⟨rfl, [.overflow, .scheduled ts kind], by simp [pushEvent, Core.emit],
      ?_, by simp⟩
    simpa [Effect.isQuiet] using hkind

/-- A report is pushed with the update latency. -/
theorem pushReport (h : Quiet t c c') (r : OrderReport) :
    Quiet t c (c'.pushAfter t c'.config.orderUpdateLatencyNs (.orderReport r)) :=
  h.pushSum rfl rfl fun hin => MachineInt.wrap_eq_self (by norm_num) hin

/-- Sending a report with the saturating sum is quiet. -/
theorem pushReportSat (h : Quiet t c c') (r : OrderReport) :
    Quiet t c (c'.pushAfterSat t c'.config.orderUpdateLatencyNs (.orderReport r)) :=
  h.pushSum rfl rfl MachineInt.clamp_eq_self

/-- An acknowledgement is pushed with a latency that is not negative. -/
theorem pushAck (h : Quiet t c c') {dt : ℤ} (hdt : 0 ≤ dt) {kind : EventKind}
    (hkind : kind.isOrderEvent = true) (hreport : ∀ r, kind ≠ .orderReport r) :
    Quiet t c (c'.pushAfterSat t dt kind) := by
  refine h.pushSum hkind ?_ MachineInt.clamp_eq_self
  cases kind with
  | orderReport r => exact absurd rfl (hreport r)
  | _ => exact le_add_of_nonneg_right hdt

/-- A fill of the present is logged quietly. -/
theorem logFill (h : Quiet t c c') {fill : TradeFill} (ht : fill.tsExchange = t) :
    Quiet t c (c'.logFill fill) :=
  h.effect (.filled fill) rfl rfl rfl ht

/-- Settling a fill is quiet. -/
theorem settle (h : Quiet t c c') (ts : ℤ) (order : Order) (fill : TradeFill) :
    Quiet t c (c'.settle ts order fill) :=
  h.change rfl rfl

/-- The risk guard refuses an order or lets it pass, without a word to the strategy. -/
theorem screenOrder (h : Quiet t c c') (order : Order) : Quiet t c (c'.screenOrder t order) := by
  unfold Core.screenOrder
  split
  · next reason _ =>
    exact (h.emit (.refused order reason) rfl trivial).pushReportSat _
  · have hregister : Quiet t c (c'.registerOrder order) := h.change rfl rfl
    exact (hregister.emit (.accepted order) rfl trivial).emit (.scheduled t (.order order)) rfl
      le_rfl

/-- A command is carried out quietly. -/
theorem handleCommand (h : Quiet t c c') (command : Command) :
    Quiet t c (c'.handleCommand t command) := by
  cases command with
  | submitOrder order =>
    have hclaim : Quiet t c c'.claimId := h.change rfl rfl
    exact hclaim.screenOrder _
  | cancelOrder orderId => exact h.emit (.scheduled t (.orderCancel orderId)) rfl le_rfl

/-- All commands of an answer are carried out quietly. -/
theorem handleCommands (h : Quiet t c c') (commands : List Command) :
    Quiet t c (c'.handleCommands commands t) :=
  h.foldl fun c command _ => (Quiet.refl c).handleCommand command

end Quiet

/-! ## Exchange-side handlers -/

/-- The fill of a market order is booked quietly. -/
theorem quiet_bookTakerFill (h : Quiet t c c') (hnow : c'.nowTsSim = t)
    (maybeOrder : Option Order) (report : OrderReport) :
    Quiet t c (c'.bookTakerFill maybeOrder report) := by
  unfold bookTakerFill
  split
  · split_ifs
    · exact (h.logFill hnow).settle _ _ _
    · exact h
  · exact h

/-- What is left of a market order is cancelled quietly. -/
theorem quiet_cancelRest (h : Quiet t c c') (hnow : c'.nowTsSim = t) (orderId symbolId : ℕ) :
    Quiet t c (c'.cancelRest orderId symbolId) := by
  unfold cancelRest
  split
  · exact h
  · rw [hnow]
    exact (h.putExchange _ _).pushReportSat _

/-- The report of a market order is sent quietly. -/
theorem quiet_reportMarket (h : Quiet t c c') (hnow : c'.nowTsSim = t)
    (maybeOrder : Option Order) (report : OrderReport) :
    Quiet t c (c'.reportMarket maybeOrder report) := by
  have hbook := quiet_bookTakerFill h hnow maybeOrder report
  simp only [reportMarket]
  rw [hbook.nowTsSim.trans (h.nowTsSim.symm.trans hnow)]
  exact hbook.pushReportSat report

/-- A market order is carried out quietly. -/
theorem quiet_fillMarket (h : Quiet t c c') (hnow : c'.nowTsSim = t) (orderId symbolId : ℕ) :
    Quiet t c (c'.fillMarket orderId symbolId) := by
  simp only [fillMarket]
  split
  · exact h
  · next report ex _ =>
    have hreport := quiet_reportMarket (h.putExchange symbolId ex) hnow
      ((c'.exchange symbolId).getOrder orderId) report
    split_ifs
    · exact quiet_cancelRest hreport (hreport.nowTsSim.trans (h.nowTsSim.symm.trans hnow)) _ _
    · exact hreport

section Latency

variable [LatencyModel L R]

/-- The latency that is used is never negative. -/
theorem sampleOrderLatency_nonneg (c : Core Q S L R) : 0 ≤ c.sampleOrderLatency.1 :=
  le_max_right _ _

variable [Strategy S]

/-- An order that arrives is stored and acknowledged quietly. -/
theorem quiet_onOrder (c : Core Q S L R) (order : Order) :
    Quiet c.nowTsSim c (c.onOrder order).1 := by
  refine Quiet.pushAck ?_ (sampleOrderLatency_nonneg _) rfl (by simp)
  refine Quiet.emit ?_ (.orderLatency order.orderId _) rfl trivial
  exact (Quiet.refl c).change rfl rfl

/-- A cancel is quiet, whether the order is known or not. -/
theorem quiet_onOrderCancel (c : Core Q S L R) (orderId : ℕ) :
    Quiet c.nowTsSim c (c.onOrderCancel orderId).1 := by
  unfold onOrderCancel
  split
  · exact .refl c
  · dsimp only
    split
    · exact .of_eq rfl rfl
    · refine Quiet.pushAck ?_ (sampleOrderLatency_nonneg _) rfl (by simp)
      refine Quiet.emit ?_ (.cancelLatency orderId _) rfl trivial
      exact (Quiet.refl c).change rfl rfl

end Latency

variable [Strategy S]

/-- An acknowledgement is quiet, of a market order too. -/
theorem quiet_onOrderAck (c : Core Q S L R) (orderId : ℕ) :
    Quiet c.nowTsSim c (c.onOrderAck orderId).1 := by
  unfold onOrderAck
  split
  · exact .refl c
  · next symbolId _ =>
    have hput : Quiet c.nowTsSim c (c.exchangeMut symbolId) := (Quiet.refl c).putExchange _ _
    dsimp only
    split
    · exact quiet_fillMarket hput rfl _ _
    · split
      · exact hput
      · exact (hput.putExchange _ _).pushReportSat _

/-- The answer to a cancel is quiet. -/
theorem quiet_onOrderCancelAck (c : Core Q S L R) (orderId : ℕ) :
    Quiet c.nowTsSim c (c.onOrderCancelAck orderId).1 := by
  unfold onOrderCancelAck
  split
  · exact .refl c
  · next symbolId _ =>
    have hput : Quiet c.nowTsSim c (c.exchangeMut symbolId) := (Quiet.refl c).putExchange _ _
    dsimp only
    split
    · exact hput
    · exact (hput.putExchange _ _).pushReport _

/-- A terminal report ends the registration without an effect. -/
theorem quiet_forget (c : Core Q S L R) (report : OrderReport) : Quiet t c (c.forget report) := by
  unfold forget
  split_ifs
  · split
    · exact .refl c
    · exact .of_eq rfl rfl
  · exact .refl c

/-- Funding changes the account without an effect. -/
theorem quiet_applyFunding (c : Core Q S L R) (event : FundingEvent) :
    Quiet t c (c.applyFunding event) := by
  simp only [applyFunding]
  split
  · exact .refl c
  · exact .of_eq rfl rfl

/-- The symbol of a depth update is marked before the update is applied. -/
def markL2Depth (c : Core Q S L R) (s : ℕ) : Core Q S L R :=
  { c with l2DepthSymbols := insert s c.l2DepthSymbols }

/-- The symbol has a book of orders from now on. -/
def markL3Depth (c : Core Q S L R) (s : ℕ) : Core Q S L R :=
  { c with l3DepthSymbols := insert s c.l3DepthSymbols }

/-- How an L3 update ends. -/
def l3Flow : Except String Unit → Flow (Strategy.Error S)
  | .error error => .fail (.internal (.l3Rejected error))
  | .ok () => .next false

/-- A level update is refused for a symbol with a book of orders. -/
theorem onL2Update_mixed {c : Core Q S L R} {update : L2Update}
    (hl3 : update.symbolId ∈ c.l3DepthSymbols) :
    c.onL2Update update = (c, .fail (.internal (.mixedDepth update.symbolId))) := if_pos hl3

/-- A level update marks the symbol and goes to the exchange. -/
theorem onL2Update_eq {c : Core Q S L R} {update : L2Update}
    (hl3 : update.symbolId ∉ c.l3DepthSymbols) : c.onL2Update update =
      ((c.markL2Depth update.symbolId).putExchange update.symbolId
        (((c.markL2Depth update.symbolId).exchange update.symbolId).applyL2Update update),
        .next false) := if_neg hl3

/-- An order update is refused for a symbol with levels. -/
theorem onL3Update_mixed {c : Core Q S L R} {update : L3Update}
    (hl2 : update.symbolId ∈ c.l2DepthSymbols) :
    c.onL3Update update = (c, .fail (.internal (.mixedDepth update.symbolId))) := if_pos hl2

/-- An order update marks the symbol and goes to the exchange, which may still refuse it. -/
theorem onL3Update_eq {c : Core Q S L R} {update : L3Update}
    (hl2 : update.symbolId ∉ c.l2DepthSymbols) : c.onL3Update update =
      ((c.markL3Depth update.symbolId).putExchange update.symbolId
        (((c.markL3Depth update.symbolId).exchange update.symbolId).applyL3Update update).1,
        l3Flow
          (((c.markL3Depth update.symbolId).exchange update.symbolId).applyL3Update update).2) := by
  unfold onL3Update
  rw [if_neg hl2]
  unfold markL3Depth
  dsimp only
  split
  · next heq => rw [heq, l3Flow]
  · next heq => rw [heq, l3Flow]

/-- A level update is quiet. -/
theorem quiet_onL2Update (c : Core Q S L R) (update : L2Update) :
    Quiet t c (c.onL2Update update).1 := by
  by_cases hl3 : update.symbolId ∈ c.l3DepthSymbols
  · rw [onL2Update_mixed hl3]
    exact .refl c
  · rw [onL2Update_eq hl3]
    exact .of_eq rfl rfl

/-- An order update is quiet, also one that fails. -/
theorem quiet_onL3Update (c : Core Q S L R) (update : L3Update) :
    Quiet t c (c.onL3Update update).1 := by
  by_cases hl2 : update.symbolId ∈ c.l2DepthSymbols
  · rw [onL3Update_mixed hl2]
    exact .refl c
  · rw [onL3Update_eq hl2]
    exact .of_eq rfl rfl

/-- The fills of a trade are stamped with the time they are made for. -/
theorem tsExchange_of_mem_makerFills {ex : ExchangeSimulator Q} {ts feeBps : ℤ}
    {reports : List OrderReport} {f : Order × TradeFill}
    (h : f ∈ makerFills ex ts feeBps reports) : f.2.tsExchange = ts := by
  obtain ⟨r, -, hr⟩ := List.mem_filterMap.1 h
  split_ifs at hr
  obtain ⟨order, -, rfl⟩ := Option.map_eq_some_iff.1 hr
  rfl

/-- What a trade fills is booked and reported at the time of the trade. -/
theorem quiet_bookTrade (c : Core Q S L R) (tick : Tick) (ex : ExchangeSimulator Q)
    (reports : List OrderReport) :
    Quiet tick.tsExchange c (c.bookTrade tick ex reports) := by
  refine Quiet.foldl (Quiet.foldl (Quiet.foldl (.refl c) ?_) ?_) ?_
  · exact fun c f hf => (Quiet.refl c).logFill (tsExchange_of_mem_makerFills hf)
  · exact fun c f _ => (Quiet.refl c).settle _ _ _
  · exact fun c r _ => (Quiet.refl c).pushReport r

/-- A trade is quiet at its time. -/
theorem quiet_onTickEvent (c : Core Q S L R) (tick : Tick) :
    Quiet tick.tsExchange c (c.onTickEvent tick).1 := by
  have h : Quiet tick.tsExchange c ((c.observeTrade tick).putExchange tick.symbolId
      (((c.observeTrade tick).exchange tick.symbolId).onTrade tick).1) := .of_eq rfl rfl
  exact h.trans (quiet_bookTrade _ _ _ _)

/-! ## Calls to the strategy -/

/-- The core after a call that leaves the strategy in the given state. -/
def afterCall (c : Core Q S L R) (call : Call) (t : ℤ) (strategy : S) : Core Q S L R :=
  { c.emit (.called call t c.market) with strategy := strategy }

/-- A call records what it hands over; on success the strategy moves on. -/
theorem call_spec (c : Core Q S L R) (call : Call) (t : ℤ) :
    (∃ err, c.call call t = (c.afterCall call t c.strategy, .error err)) ∨
      ∃ strategy commands, c.call call t = (c.afterCall call t strategy, .ok commands) := by
  simp only [Core.call]
  split
  · next err _ => exact .inl ⟨err, rfl⟩
  · next strategy commands _ => exact .inr ⟨strategy, commands, rfl⟩

/-- After the call come the commands, if the strategy did not fail. -/
theorem wake_spec (c : Core Q S L R) (call : Call) (t : ℤ) (wakeup : Bool) :
    (∃ err, c.wake call t wakeup = (c.afterCall call t c.strategy, .fail (.strategy err))) ∨
      ∃ strategy commands, c.wake call t wakeup =
        ((c.afterCall call t strategy).handleCommands commands t, .next wakeup) := by
  rcases call_spec c call t with ⟨err, h⟩ | ⟨strategy, commands, h⟩
  · exact .inl ⟨err, by simp [wake, h]⟩
  · exact .inr ⟨strategy, commands, by simp only [wake, h]⟩

/-- The commands of an answer start from a core as it is. -/
theorem quiet_handleCommands (c : Core Q S L R) (commands : List Command) :
    Quiet t c (c.handleCommands commands t) :=
  (Quiet.refl c).handleCommands commands

/-- The call that hands over the buffered ticks, if there are any. -/
def tickCalls (c : Core Q S L R) : List Call :=
  if c.tickBuffer.isEmpty then [] else [.onTicks c.tickBuffer]

/-- The call that hands the buffered reports over. -/
def reportCalls (c : Core Q S L R) : List Call :=
  if c.reportBuffer.isEmpty then [] else [.onOrderUpdates c.reportBuffer]

/-- The calls by which a flush hands over what is buffered. -/
def handover (c : Core Q S L R) : List Call := c.tickCalls ++ c.reportCalls

/-- The core after the calls `calls`, with what they leave in the buffers. -/
def handed (c : Core Q S L R) (t : ℤ) (strategy : S) (calls : List Call)
    (tickBuffer : List Tick) (reportBuffer : List OrderReport) : Core Q S L R :=
  { c with
    strategy := strategy
    tickBuffer := tickBuffer
    reportBuffer := reportBuffer
    effects := c.effects ++ calls.map (Effect.called · t c.market) }

/-- Two handovers make one of the calls of both. -/
theorem handed_handed (c : Core Q S L R) (t : ℤ) (strategy strategy' : S) (calls calls' : List Call)
    (tickBuffer tickBuffer' : List Tick) (reportBuffer reportBuffer' : List OrderReport) :
    (c.handed t strategy calls tickBuffer reportBuffer).handed t strategy' calls' tickBuffer'
      reportBuffer' = c.handed t strategy' (calls ++ calls') tickBuffer' reportBuffer' := by
  simp [handed]

/-- Handing the ticks over calls the strategy once, and empties the buffer unless it fails. -/
theorem flushTicks_spec (c : Core Q S L R) (t : ℤ) :
    (∃ err, c.flushTicks t =
      (c.handed t c.strategy c.tickCalls c.tickBuffer c.reportBuffer, .error err)) ∨
    ∃ strategy commands, c.flushTicks t =
      (c.handed t strategy c.tickCalls [] c.reportBuffer, .ok commands) := by
  unfold flushTicks tickCalls
  split_ifs with hb
  · refine .inr ⟨c.strategy, [], ?_⟩
    simp only [List.isEmpty_iff] at hb
    simp [handed, ← hb]
  · rcases call_spec c (.onTicks c.tickBuffer) t with ⟨err, h⟩ | ⟨strategy, commands, h⟩
    · exact .inl ⟨err, by simp [h, handed, afterCall, emit]⟩
    · exact .inr ⟨strategy, commands, by simp [h, handed, afterCall, emit]⟩

/-- Handing the reports over calls the strategy once, and empties the buffer unless it fails. -/
theorem flushReports_spec (c : Core Q S L R) (t : ℤ) :
    (∃ err, c.flushReports t =
      (c.handed t c.strategy c.reportCalls c.tickBuffer c.reportBuffer, .error err)) ∨
    ∃ strategy commands, c.flushReports t =
      (c.handed t strategy c.reportCalls c.tickBuffer [], .ok commands) := by
  unfold flushReports reportCalls
  split_ifs with hb
  · refine .inr ⟨c.strategy, [], ?_⟩
    simp only [List.isEmpty_iff] at hb
    simp [handed, ← hb]
  · rcases call_spec c (.onOrderUpdates c.reportBuffer) t with ⟨err, h⟩ | ⟨strategy, commands, h⟩
    · exact .inl ⟨err, by simp [h, handed, afterCall, emit]⟩
    · exact .inr ⟨strategy, commands, by simp [h, handed, afterCall, emit]⟩

/-- The core when a flush starts : an early flush invalidates the pending timer. -/
def disarmed (c : Core Q S L R) : Core Q S L R := { c with activeBatchTimerId := none }

/-- A flush hands over what is buffered, stops at a call that fails, and otherwise carries
out the commands. -/
theorem flushStrategy_spec (c : Core Q S L R) (t : ℤ) :
    (c.tickBuffer = [] ∧ c.reportBuffer = [] ∧ c.flushStrategy t = (c, none)) ∨
    (∃ strategy calls tickBuffer err, (calls <+: c.handover ∧ tickBuffer ⊆ c.tickBuffer) ∧
      c.flushStrategy t =
        (c.disarmed.handed t strategy calls tickBuffer c.reportBuffer, some (.strategy err))) ∨
    ∃ strategy commands, c.flushStrategy t =
      (((c.disarmed.handed t strategy c.handover [] []).handleCommands commands t).tune, none) := by
  unfold flushStrategy
  split_ifs with hb
  · simp only [Bool.and_eq_true, List.isEmpty_iff] at hb
    exact .inl ⟨hb.1, hb.2, rfl⟩
  · refine .inr ?_
    rw [show { c with activeBatchTimerId := none } = c.disarmed from rfl]
    rcases flushTicks_spec c.disarmed t with ⟨err, h⟩ | ⟨strategy, commands, h⟩
    · refine .inl ⟨c.strategy, c.tickCalls, c.tickBuffer, err,
        ⟨List.prefix_append _ _, List.Subset.refl _⟩, ?_⟩
      rw [h]
      rfl
    · rw [h]
      rcases flushReports_spec (c.disarmed.handed t strategy c.disarmed.tickCalls []
        c.disarmed.reportBuffer) t with ⟨err, h'⟩ | ⟨strategy', commands', h'⟩
      · refine .inl ⟨strategy, c.handover, [], err, ⟨List.prefix_refl _, List.nil_subset _⟩, ?_⟩
        simp only [h', handed_handed]
        rfl
      · refine .inr ⟨strategy', commands ++ commands', ?_⟩
        simp only [h', handed_handed]
        rfl

/-! ## How handlers fail -/

/-- Waking the strategy fails with its error only. -/
theorem ofHandler_of_wake {call : Call} {wakeup : Bool} {err : EngineError (Strategy.Error S)}
    (h : (c.wake call t wakeup).2 = .fail err) : err.ofHandler := by
  rcases wake_spec c call t wakeup with ⟨err', h'⟩ | ⟨strategy, commands, h'⟩
  · rw [h'] at h
    cases h
    trivial
  · rw [h'] at h
    cases h

/-- A flush fails only when the strategy does. -/
theorem strategy_of_flushStrategy {err : EngineError (Strategy.Error S)}
    (h : (c.flushStrategy t).2 = some err) : ∃ err', err = .strategy err' := by
  rcases flushStrategy_spec c t with
    ⟨-, -, h'⟩ | ⟨strategy, calls, tickBuffer, err', -, h'⟩ | ⟨strategy, commands, h'⟩
  · rw [h'] at h
    cases h
  · rw [h'] at h
    cases h
    exact ⟨err', rfl⟩
  · rw [h'] at h
    cases h

/-- No handler fails with the error of a source. -/
theorem ofHandler_of_handle [LatencyModel L R] {kind : EventKind}
    {err : EngineError (Strategy.Error S)} (h : (c.handle kind).2 = .fail err) :
    err.ofHandler := by
  cases kind with
  | tick tick => cases h
  | tickDelivery tick =>
    simp only [handle, onTickDelivery] at h
    split at h
    · exact ofHandler_of_wake h
    · split_ifs at h
  | l2Update update =>
    simp only [handle, onL2Update] at h
    split_ifs at h
    cases h
    trivial
  | l3Update update =>
    simp only [handle, onL3Update] at h
    split_ifs at h
    · cases h
      trivial
    · split at h
      · cases h
        trivial
      · cases h
  | order order => cases h
  | orderAck orderId =>
    simp only [handle, onOrderAck] at h
    split at h
    · cases h
    · split at h
      · cases h
      · split at h <;> cases h
  | orderCancel orderId =>
    simp only [handle, onOrderCancel] at h
    split at h
    · cases h
    · split at h <;> cases h
  | orderCancelAck orderId =>
    simp only [handle, onOrderCancelAck] at h
    split at h
    · cases h
    · split at h <;> cases h
  | orderReport report =>
    simp only [handle, onOrderReport] at h
    split at h
    · exact ofHandler_of_wake h
    · cases h
  | funding event => exact ofHandler_of_wake h
  | timer timerId =>
    simp only [handle, onTimer] at h
    split_ifs at h

/-! ## All handlers -/

/-- `c'` comes from `c` by the work of a handler at time `t` : the configuration stays up to the
batch size, and the effects are those of handlers, due at `t`. -/
structure Grows (t : ℤ) (c c' : Core Q S L R) : Prop where
  config : c'.config = { c.config with maxBatchNs := c'.config.maxBatchNs }
  nowTsSim : c'.nowTsSim = c.nowTsSim
  effects : ∃ new, c'.effects = c.effects ++ new ∧ (∀ x ∈ new, x.isWork = true) ∧
    (Effect.overflow ∉ new → ∀ x ∈ new, x.Timely t c.config.orderUpdateLatencyNs)

namespace Grows

variable {c'' : Core Q S L R}

/-- The latency of the reports stays, though the batch duration may change. -/
theorem latency (h : Grows t c c') :
    c'.config.orderUpdateLatencyNs = c.config.orderUpdateLatencyNs := by
  rw [h.config]

/-- A change without effects. -/
theorem of_eq (hconfig : c'.config = { c.config with maxBatchNs := c'.config.maxBatchNs })
    (hnow : c'.nowTsSim = c.nowTsSim) (heffects : c'.effects = c.effects) : Grows t c c' :=
  ⟨hconfig, hnow, [], by simp [heffects], by simp, by simp⟩

/-- A core grows into itself. -/
theorem refl (c : Core Q S L R) : Grows t c c := of_eq rfl rfl rfl

/-- A core that grows twice has grown. -/
theorem trans (h : Grows t c c') (h' : Grows t c' c'') : Grows t c c'' := by
  obtain ⟨new, heq, hwork, htime⟩ := h.effects
  obtain ⟨new', heq', hwork', htime'⟩ := h'.effects
  refine ⟨?_, h'.nowTsSim.trans h.nowTsSim, new ++ new', by rw [heq', heq, List.append_assoc],
    fun x hx => (List.mem_append.1 hx).elim (hwork x) (hwork' x), fun hno x hx => ?_⟩
  · rw [h'.config, h.config]
  · rw [List.mem_append, not_or] at hno
    rcases List.mem_append.1 hx with hx | hx
    · exact htime hno.1 x hx
    · exact h.latency ▸ htime' hno.2 x hx

/-- A core that works quietly grows. -/
theorem of_quiet (h : Quiet t c c') : Grows t c c' := by
  obtain ⟨new, heq, hquiet, htime⟩ := h.effects
  exact ⟨by rw [h.config], h.nowTsSim, new, heq,
    fun x hx => Effect.isWork_of_isQuiet (hquiet x hx), htime⟩

end Grows

/-- A core grows by a call to the strategy. -/
theorem grows_call (c : Core Q S L R) (call : Call) (strategy : S) :
    Grows t c (c.afterCall call t strategy) :=
  ⟨rfl, rfl, [.called call t c.market], rfl, by simp [Effect.isWork], by simp [Effect.Timely]⟩

/-- A core grows when the strategy is woken and its answer carried out. -/
theorem grows_wake (c : Core Q S L R) (call : Call) (wakeup : Bool) :
    Grows t c (c.wake call t wakeup).1 := by
  rcases wake_spec c call t wakeup with ⟨err, h⟩ | ⟨strategy, commands, h⟩
  · rw [h]
    exact grows_call c call c.strategy
  · rw [h]
    exact (grows_call c call strategy).trans (.of_quiet (quiet_handleCommands _ commands))

/-- A timer is due after the present. -/
theorem grows_armTimer (c : Core Q S L R) (h : 0 < c.config.maxBatchNs) :
    Grows t c (c.armTimer t) := by
  unfold armTimer
  rw [pushAfter_eq]
  refine ⟨rfl, rfl, _, rfl, ?_, ?_⟩
  · unfold pushEffects
    split_ifs <;> simp [Effect.isWork, EventKind.isMarket]
  · unfold pushEffects
    split_ifs with hin
    · have hadd : addI64 t c.config.maxBatchNs = t + c.config.maxBatchNs :=
        MachineInt.wrap_eq_self (by norm_num) hin
      simpa [Effect.Timely, hadd] using h.le
    · simp

/-- Tuning changes the batch duration only. -/
theorem grows_tune (c : Core Q S L R) : Grows t c c.tune := by
  unfold tune
  split_ifs
  · exact .of_eq rfl rfl rfl
  · exact .refl c

/-- A core grows by a flush. -/
theorem grows_flushStrategy (c : Core Q S L R) : Grows t c (c.flushStrategy t).1 := by
  have hcalls : ∀ strategy (calls : List Call) tickBuffer reportBuffer,
      Grows t c (c.disarmed.handed t strategy calls tickBuffer reportBuffer) :=
    fun strategy calls _ _ => ⟨rfl, rfl, calls.map (Effect.called · t c.market), rfl,
      by simp [Effect.isWork], by simp [Effect.Timely]⟩
  rcases flushStrategy_spec c t with
    ⟨-, -, h⟩ | ⟨strategy, calls, tickBuffer, err, -, h⟩ | ⟨strategy, commands, h⟩
  · rw [h]
    exact .refl c
  · rw [h]
    exact hcalls _ _ _ _
  · rw [h]
    exact ((hcalls _ _ _ _).trans (.of_quiet (quiet_handleCommands _ commands))).trans
      (grows_tune _)

/-- A core grows by the delivery of a tick, in either mode. -/
theorem grows_onTickDelivery (c : Core Q S L R) (tick : Tick) :
    Grows tick.tsLocal c (c.onTickDelivery tick).1 := by
  have hobserve : Grows tick.tsLocal c (c.observeDelivery tick) := .of_eq rfl rfl rfl
  have hbuffer : Grows tick.tsLocal c ((c.observeDelivery tick).bufferTick tick) :=
    .of_eq rfl rfl rfl
  unfold onTickDelivery
  dsimp only
  split
  · exact hobserve.trans (grows_wake _ _ _)
  · split_ifs with htimer
    · exact hbuffer.trans (grows_armTimer _ htimer.2)
    · exact hbuffer

/-- The time at which the event of a popped kind is worked on. -/
def workTime (kind : EventKind) (now : ℤ) : ℤ :=
  match kind with
  | .tick tick => tick.tsExchange
  | .tickDelivery tick => tick.tsLocal
  | _ => now

/-- A core grows by every handler, at the time at which it works. -/
theorem grows_handle [LatencyModel L R] (c : Core Q S L R) (kind : EventKind) :
    Grows (workTime kind c.nowTsSim) c (c.handle kind).1 := by
  cases kind with
  | tick tick => exact .of_quiet (quiet_onTickEvent c tick)
  | tickDelivery tick => exact grows_onTickDelivery c tick
  | l2Update update => exact .of_quiet (quiet_onL2Update c update)
  | l3Update update => exact .of_quiet (quiet_onL3Update c update)
  | order order => exact .of_quiet (quiet_onOrder c order)
  | orderAck orderId => exact .of_quiet (quiet_onOrderAck c orderId)
  | orderCancel orderId => exact .of_quiet (quiet_onOrderCancel c orderId)
  | orderCancelAck orderId => exact .of_quiet (quiet_onOrderCancelAck c orderId)
  | orderReport report =>
    have hforget : Quiet c.nowTsSim c (c.forget report) := quiet_forget c report
    simp only [handle, onOrderReport]
    split
    · rw [hforget.nowTsSim]
      exact (Grows.of_quiet hforget).trans (grows_wake _ _ _)
    · exact (Grows.of_quiet hforget).trans (.of_eq rfl rfl rfl)
  | funding event =>
    have hfunding : Quiet c.nowTsSim c (c.applyFunding event) := quiet_applyFunding c event
    simp only [handle, onFunding]
    rw [hfunding.nowTsSim]
    exact (Grows.of_quiet hfunding).trans (grows_wake _ _ _)
  | timer timerId =>
    simp only [handle, onTimer]
    split_ifs
    · exact .of_eq rfl rfl rfl
    · exact .refl c

end Core

namespace Engine

variable {T U Q S L R : Type} [QueueModel Q]

/-- `e'` comes from `e` by the work of handlers with the effects `new`. -/
structure Works (e e' : Engine T U Q S L R) (new : List Effect) : Prop where
  config : e'.core.config = { e.core.config with maxBatchNs := e'.core.config.maxBatchNs }
  nowTsSim : e'.core.nowTsSim = e.core.nowTsSim
  trace : e'.trace = e.trace ++ new
  isWork : ∀ x ∈ new, x.isWork = true
  waiting : ∀ p : EventKind → Bool,
    e'.queue.waiting p = insertAll Prod.fst (scheduledIn p new) (e.queue.waiting p)

/-- The effects `new` of `e` are due at time `t`. -/
def TimelyAt (t : ℤ) (e : Engine T U Q S L R) (new : List Effect) : Prop :=
  Effect.overflow ∉ new → ∀ x ∈ new, x.Timely t e.core.config.orderUpdateLatencyNs

variable {e e' e'' : Engine T U Q S L R} {new new' : List Effect}

namespace Works

/-- An engine may do no work. -/
theorem refl (e : Engine T U Q S L R) : Works e e [] :=
  ⟨rfl, rfl, (List.append_nil _).symm, by simp, fun _ => rfl⟩

/-- The work of one step and then of the next. -/
theorem trans (h : Works e e' new) (h' : Works e' e'' new') : Works e e'' (new ++ new') := by
  refine ⟨?_, h'.nowTsSim.trans h.nowTsSim, by rw [h'.trace, h.trace, List.append_assoc],
    fun x hx => (List.mem_append.1 hx).elim (h.isWork x) (h'.isWork x), fun p => ?_⟩
  · rw [h'.config, h.config]
  · rw [h'.waiting, h.waiting, scheduledIn_append, insertAll_append_right]

/-- Work does not touch the latency of the reports. -/
theorem latency (h : Works e e' new) :
    e'.core.config.orderUpdateLatencyNs = e.core.config.orderUpdateLatencyNs := by
  rw [h.config]

/-- Work does not touch the latency of the feed. -/
theorem feedLatency (h : Works e e' new) :
    e'.core.config.feedLatencyNs = e.core.config.feedLatencyNs := by
  rw [h.config]

/-- Work does not touch the mode. -/
theorem mode (h : Works e e' new) : e'.core.config.mode = e.core.config.mode := by
  rw [h.config]

/-- Handlers schedule no market event. -/
theorem scheduledIn_eq_nil (h : Works e e' new) {p : EventKind → Bool}
    (hp : ∀ kind, p kind = true → kind.isMarket = true) : scheduledIn p new = [] := by
  refine List.eq_nil_iff_forall_not_mem.2 fun x hx => ?_
  obtain ⟨hpx, hmem⟩ := mem_scheduledIn.1 hx
  have := h.isWork _ hmem
  simp [Effect.isWork, hp _ hpx] at this

/-- Work pops nothing. -/
theorem poppedIn_eq_nil (h : Works e e' new) (p : EventKind → Bool) : poppedIn p new = [] := by
  refine List.eq_nil_iff_forall_not_mem.2 fun x hx => ?_
  obtain ⟨-, event, activeTimer, hmem, -⟩ := mem_poppedIn.1 hx
  have := h.isWork _ hmem
  simp [Effect.isWork] at this

/-- Work leaves what was popped as it is. -/
theorem poppedIn_trace (h : Works e e' new) (p : EventKind → Bool) :
    poppedIn p e'.trace = poppedIn p e.trace := by
  rw [h.trace, poppedIn_append, h.poppedIn_eq_nil, List.append_nil]

/-- The market events of the queue stay as they are. -/
theorem waiting_market (h : Works e e' new) {p : EventKind → Bool}
    (hp : ∀ kind, p kind = true → kind.isMarket = true) :
    e'.queue.waiting p = e.queue.waiting p := by
  rw [h.waiting, h.scheduledIn_eq_nil hp]
  rfl

end Works

/-- Timely work after timely work is timely. -/
theorem TimelyAt.append {t : ℤ} (h : TimelyAt t e new) (hw : Works e e' new)
    (h' : TimelyAt t e' new') : TimelyAt t e (new ++ new') := by
  intro hno x hx
  rw [List.mem_append, not_or] at hno
  rcases List.mem_append.1 hx with hx | hx
  · exact h hno.1 x hx
  · exact hw.latency ▸ h' hno.2 x hx

/-- The work of a handler, absorbed. -/
theorem absorb_spec (e : Engine T U Q S L R) {t now : ℤ} {core : Core Q S L R}
    (h : Core.Grows t (e.core.cleared.atTime now) core) :
    ∃ new, Works { e with core := e.core.atTime now } (e.absorb core) new ∧ TimelyAt t e new := by
  obtain ⟨new, heq, hwork, htime⟩ := h.effects
  obtain rfl : core.effects = new := heq
  refine ⟨core.effects, ⟨?_, ?_, trace_absorb e core, hwork, waiting_absorb e core⟩, htime⟩
  · rw [core_absorb]
    exact h.config
  · rw [core_absorb]
    exact h.nowTsSim

/-- Noting a wakeup is no work. -/
theorem works_setPendingWakeup (e : Engine T U Q S L R) (b : Bool) :
    Works e (e.setPendingWakeup b) [] :=
  ⟨rfl, rfl, (List.append_nil _).symm, by simp, fun _ => rfl⟩

/-- Doing nothing is timely. -/
theorem timelyAt_nil {t : ℤ} : TimelyAt t e [] := by simp [TimelyAt]

variable [Strategy S]

/-- A flush is work at the present time. -/
theorem flush_spec (e : Engine T U Q S L R) :
    ∃ new, Works e e.flush.1 new ∧ TimelyAt e.core.nowTsSim e new :=
  have h : Core.Grows e.core.nowTsSim (e.core.cleared.atTime e.core.nowTsSim)
      (e.core.cleared.flushStrategy e.core.nowTsSim).1 := Core.grows_flushStrategy e.core.cleared
  absorb_spec e h

/-- A flush that may be put off is work at the present time. -/
theorem deferredFlush_spec (e : Engine T U Q S L R) (wakeup : Bool) :
    ∃ new, Works e (e.deferredFlush wakeup).1 new ∧ TimelyAt e.core.nowTsSim e new := by
  obtain ⟨new, h, htime⟩ := flush_spec e
  unfold deferredFlush
  split_ifs
  · split
    · next heq => exact ⟨new, by simpa [heq] using h, htime⟩
    · next e' heq =>
      have h' : Works e e' new := by simpa [heq] using h
      exact ⟨new ++ [], h'.trans (works_setPendingWakeup e' false), by simpa using htime⟩
  · exact ⟨[], works_setPendingWakeup e true, timelyAt_nil⟩
  · exact ⟨[], .refl e, timelyAt_nil⟩

variable [LatencyModel L R]

/-- The engine with an event popped : the trace has it, and the time is its timestamp. -/
def popped (e : Engine T U Q S L R) (event : Event) : Engine T U Q S L R :=
  { e.log (.popped event e.core.activeBatchTimerId) with core := e.core.atTime event.tsSim }

/-- Handling an event is work at the time of the event. -/
theorem handleEvent_spec (e : Engine T U Q S L R) (event : Event) :
    ∃ new, Works (e.popped event) (e.handleEvent event).1 new ∧
      TimelyAt (Core.workTime event.kind event.tsSim) (e.popped event) new :=
  absorb_spec (e.log (.popped event e.core.activeBatchTimerId))
    (Core.grows_handle (e.core.cleared.atTime event.tsSim) event.kind)

/-- The effects of an event that is worked on when it is due are due at its time. -/
theorem dispatch_spec (e : Engine T U Q S L R) (event : Event) :
    ∃ new, Works (e.popped event) (e.dispatch event).1 new ∧
      (Core.workTime event.kind event.tsSim = event.tsSim →
        TimelyAt event.tsSim (e.popped event) new) := by
  obtain ⟨new, h, htime⟩ := handleEvent_spec e event
  unfold dispatch
  split
  · next heq => exact ⟨new, by simpa [heq] using h, fun hdue => hdue ▸ htime⟩
  · next heq => exact ⟨new, by simpa [heq] using h, fun hdue => hdue ▸ htime⟩
  · next e' wakeup heq =>
    have h' : Works (e.popped event) e' new := by simpa [heq] using h
    obtain ⟨new', hf, hftime⟩ := deferredFlush_spec e' wakeup
    have hnow : e'.core.nowTsSim = event.tsSim := h'.nowTsSim
    exact ⟨new ++ new', h'.trans hf, fun hdue =>
      TimelyAt.append (hdue ▸ htime) h' (hnow ▸ hftime)⟩

/-- A flush fails with an error of a handler. -/
theorem ofHandler_of_flush {err : EngineError (Strategy.Error S)}
    (h : e.flush.2 = some err) : err.ofHandler := by
  obtain ⟨err', rfl⟩ := Core.strategy_of_flushStrategy h
  trivial

omit [LatencyModel L R] in
/-- A flush that may be put off fails with an error of the strategy. -/
theorem strategy_of_deferredFlush {wakeup : Bool} {err : EngineError (Strategy.Error S)}
    (h : (e.deferredFlush wakeup).2 = some err) : ∃ err', err = .strategy err' := by
  unfold deferredFlush at h
  split_ifs at h
  split at h
  · next heq =>
    cases h
    exact Core.strategy_of_flushStrategy (congrArg Prod.snd heq)
  · cases h

/-- No event fails with the error of a source. -/
theorem ofHandler_of_dispatch {event : Event}
    {err : EngineError (Strategy.Error S)} (h : (e.dispatch event).2 = some err) :
    err.ofHandler := by
  unfold dispatch at h
  split at h
  · next heq =>
    cases h
    exact Core.ofHandler_of_handle (congrArg Prod.snd heq)
  · cases h
  · obtain ⟨err', rfl⟩ := strategy_of_deferredFlush h
    trivial

end Engine

end Backtester
