import Backtester.ExchangeSimulator
import Backtester.Source
import Backtester.Strategy
import Backtester.Library.Run

/-!
# Engine

The engine takes source records up to the head of its event queue, pops the head, and
handles it; `run` repeats this until nothing is left. A `turn` here is one pass of the
ingestion loop, one event, or one final flush of `run`, so `run` is `turn` repeated.

The handlers work on the `Core` : everything except the queue, the counter that numbers its
events, and the sources. An event that a handler pushes is an effect, and the engine moves
the effects into the queue, in order, when the handler is done (`Engine.absorb`). No
handler looks at the queue before that. The other effects record what the handlers do, and
all effects together with the ingested records and the popped events make up `Engine.trace`.

The counters of events, orders and timers do not wrap. `BatchTuner` measures wall-clock
time, so what it answers is a parameter (`Core.currentBatchNs`).
-/

namespace Backtester

open Std

/-! ## Configuration and errors -/

/-- Whether the strategy is called for every tick or for a batch of them. -/
inductive EngineMode where
  | tick
  | batch
  deriving DecidableEq, Repr

/-- The settings of a run. -/
structure EngineConfig where
  /-- Delay of a tick that has no `tsLocal`. -/
  feedLatencyNs : ℤ := 0
  /-- Delay of the reports to the strategy. -/
  orderUpdateLatencyNs : ℤ := 0
  mode : EngineMode := .tick
  maxBatchNs : ℤ := 0
  autoTune : Bool := false
  seed : ℕ := 0
  tradeLogMode : TradeLogMode := .all
  makerFeeBps : ℤ := 0
  takerFeeBps : ℤ := 0
  /-- `0` is no limit, as in the two limits below. -/
  maxOpenOrders : ℕ := 0
  maxPosition : ℤ := 0
  maxLoss : ℤ := 0
  deriving DecidableEq, Repr

/-- What an `Internal` error is about. -/
inductive InternalFault where
  | mixedDepth (symbolId : ℕ)
  | l3Rejected (error : String)
  | sourceExhausted (sourceIdx : ℕ)
  | l3SourceExhausted (sourceIdx : ℕ)
  deriving DecidableEq, Repr

/-- The text of a fault. -/
def InternalFault.message : InternalFault → String
  | mixedDepth symbolId => "mixed L2/L3 depth for symbol_id " ++ toString symbolId
  | l3Rejected error => error
  | sourceExhausted sourceIdx =>
    "source " ++ toString sourceIdx ++ " was queued but had no next tick"
  | l3SourceExhausted sourceIdx =>
    "l3 source " ++ toString sourceIdx ++ " was queued but had no next update"

/-- Why a run stops early : a source, the strategy, or the engine itself. -/
inductive EngineError (ε : Type) where
  | tickSource (err : TickSourceError)
  | strategy (err : ε)
  | internal (fault : InternalFault)
  deriving DecidableEq, Repr

/-! ## The trace -/

/-- A record of a source. -/
inductive Record where
  | l3 (update : L3Update)
  | tick (tick : Tick)
  deriving DecidableEq, Repr

/-- What happens in a run, one entry for each thing a proof may speak of. -/
inductive Effect where
  /-- An event is pushed. -/
  | scheduled (tsSim : ℤ) (kind : EventKind)
  /-- A record is taken from a source. -/
  | ingested (record : Record)
  /-- An event is popped; `activeTimer` is `active_batch_timer_id` at that moment. -/
  | popped (event : Event) (activeTimer : Option ℕ)
  /-- The strategy is called. -/
  | called (call : Call) (tsLocal : ℤ) (market : MarketView)
  /-- The risk guard lets an order pass. -/
  | accepted (order : Order)
  /-- The risk guard refuses an order. -/
  | refused (order : Order) (reason : String)
  /-- A latency is sampled for an order at the exchange. -/
  | orderLatency (orderId : ℕ) (dt : ℤ)
  /-- A latency is sampled for a cancel that the exchange accepted. -/
  | cancelLatency (orderId : ℕ) (dt : ℤ)
  | filled (fill : TradeFill)
  /-- The sum of a timestamp and a delay is not an `i64`. -/
  | overflow

/-! ## The core -/

/-- The engine without its event queue and its sources : what an event handler reads and writes. -/
structure Core (Q S L R : Type) [QueueModel Q] where
  config : EngineConfig
  queueModel : Q
  exchanges : ExtTreeMap ℕ (ExchangeSimulator Q)
  orderSymbolById : ExtTreeMap ℕ ℕ
  nextOrderId : ℕ
  strategy : S
  latencyModel : L
  rng : R
  account : Account
  tradeLog : TradeLog
  market : MarketView
  truthLastTradeBySymbol : ExtTreeMap ℕ Tick
  nowTsSim : ℤ
  tickBuffer : List Tick
  reportBuffer : List OrderReport
  activeBatchTimerId : Option ℕ
  nextTimerId : ℕ
  pendingWakeup : Bool
  l2DepthSymbols : Finset ℕ
  l3DepthSymbols : Finset ℕ
  riskGuard : RiskGuard
  /-- `current_batch_ns` after the `n`-th recorded batch. -/
  currentBatchNs : ℕ → ℤ
  recordedBatches : ℕ
  effects : List Effect

/-- How a handler ends : with an error, by an early `return`, or by falling through to the
flush, which it may ask for. -/
inductive Flow (ε : Type) where
  | fail (err : EngineError ε)
  | ret
  | next (wakeupRequested : Bool)
  deriving DecidableEq, Repr

namespace Core

variable {Q S L R : Type} [QueueModel Q]

/-- The core with no effects yet : where every handler starts. -/
def cleared (c : Core Q S L R) : Core Q S L R := { c with effects := [] }

/-- Adds an entry to what the handler has done. -/
def emit (c : Core Q S L R) (effect : Effect) : Core Q S L R :=
  { c with effects := c.effects ++ [effect] }

/-- An event to push. The engine pushes it when the handler is through (`Engine.absorb`). -/
def pushEvent (c : Core Q S L R) (tsSim : ℤ) (kind : EventKind) : Core Q S L R :=
  c.emit (.scheduled tsSim kind)

/-- Note a sum of a timestamp and a delay that leaves `i64`. -/
def noteSum (c : Core Q S L R) (ts delay : ℤ) : Core Q S L R :=
  if MachineInt.InRange 64 (ts + delay) then c else c.emit .overflow

/-- `push_event(ts + delay, kind)`. -/
def pushAfter (c : Core Q S L R) (ts delay : ℤ) (kind : EventKind) : Core Q S L R :=
  (c.noteSum ts delay).pushEvent (addI64 ts delay) kind

/-- `push_event(ts.saturating_add(delay), kind)`. -/
def pushAfterSat (c : Core Q S L R) (ts delay : ℤ) (kind : EventKind) : Core Q S L R :=
  (c.noteSum ts delay).pushEvent (satAddI64 ts delay) kind

/-! ### Exchanges -/

/-- The exchange of a symbol, as `exchange_mut` makes it on first use. -/
def exchange (c : Core Q S L R) (symbolId : ℕ) : ExchangeSimulator Q :=
  c.exchanges[symbolId]?.getD
    (if symbolId ∈ c.l3DepthSymbols then .newL3 c.queueModel else .new c.queueModel)

/-- Stores the exchange of a symbol. -/
def putExchange (c : Core Q S L R) (symbolId : ℕ) (ex : ExchangeSimulator Q) : Core Q S L R :=
  { c with exchanges := c.exchanges.insert symbolId ex }

/-- The effect of `exchange_mut` alone : the exchange is there. -/
def exchangeMut (c : Core Q S L R) (symbolId : ℕ) : Core Q S L R :=
  c.putExchange symbolId (c.exchange symbolId)

/-! ### Fills -/

/-- Book a fill : the account, the PnL net of the fee, and the kill switch. -/
def settle (ts : ℤ) (c : Core Q S L R) (order : Order) (fill : TradeFill) : Core Q S L R :=
  let (account, pnl) := c.account.onFill order fill.qty fill.price
  let netPnl := satSubI64 pnl fill.fee
  { c with
    account := account
    tradeLog := c.tradeLog.pushPnlDelta ts netPnl
    riskGuard := c.riskGuard.updatePnl netPnl }

/-- The fill goes to the trade log. -/
def logFill (c : Core Q S L R) (fill : TradeFill) : Core Q S L R :=
  { c with tradeLog := c.tradeLog.pushFill fill }.emit (.filled fill)

/-- The fill a report tells about. -/
def tradeFill (ts : ℤ) (isTaker : Bool) (feeBps : ℤ) (order : Order) (r : OrderReport) :
    TradeFill where
  tsExchange := ts
  orderId := r.orderId
  price := r.lastFillPrice
  qty := r.lastFillQty
  fee := computeFee r.lastFillPrice r.lastFillQty feeBps
  symbolId := r.symbolId
  side := order.side
  isTaker := isTaker

/-- The fills of a trade, with their orders. -/
def makerFills (ex : ExchangeSimulator Q) (ts feeBps : ℤ) (reports : List OrderReport) :
    List (Order × TradeFill) :=
  reports.filterMap fun r =>
    if 0 < r.lastFillQty then
      (ex.getOrder r.orderId).map fun order => (order, tradeFill ts false feeBps order r)
    else none

/-! ### Commands -/

/-- The next order takes its id. -/
def claimId (c : Core Q S L R) : Core Q S L R := { c with nextOrderId := c.nextOrderId + 1 }

/-- The registry learns the symbol of an order. -/
def registerOrder (c : Core Q S L R) (order : Order) : Core Q S L R :=
  { c with orderSymbolById := c.orderSymbolById.insert order.orderId order.symbolId }

/-- The registry forgets an order. -/
def unregisterOrder (c : Core Q S L R) (orderId : ℕ) : Core Q S L R :=
  { c with orderSymbolById := c.orderSymbolById.erase orderId }

/-- Put an order before the risk guard : it goes to the exchange, or its rejection goes back
to the strategy. -/
def screenOrder (c : Core Q S L R) (tsLocal : ℤ) (order : Order) : Core Q S L R :=
  match c.riskGuard.checkOrder order c.orderSymbolById.size
      (c.account.positionQty order.symbolId) with
  | some reason =>
    (c.emit (.refused order reason)).pushAfterSat tsLocal c.config.orderUpdateLatencyNs
      (.orderReport (order.report .rejected 0 0 0 order.qty (some reason)))
  | none => ((c.registerOrder order).emit (.accepted order)).pushEvent tsLocal (.order order)

/-- An order gets the next id and goes past the risk guard. A cancel is sent as it is. -/
def handleCommand (tsLocal : ℤ) (c : Core Q S L R) : Command → Core Q S L R
  | .submitOrder order =>
    c.claimId.screenOrder tsLocal { order with tsSubmit := tsLocal, orderId := c.nextOrderId }
  | .cancelOrder orderId => c.pushEvent tsLocal (.orderCancel orderId)

/-- The commands one after the other. -/
def handleCommands (c : Core Q S L R) (commands : List Command) (tsLocal : ℤ) : Core Q S L R :=
  commands.foldl (handleCommand tsLocal) c

/-! ### Calls to the strategy -/

variable [Strategy S]

/-- Call the strategy, and keep its commands for later. -/
def call (c : Core Q S L R) (call : Call) (tsLocal : ℤ) :
    Core Q S L R × Except (Strategy.Error S) (List Command) :=
  let c := c.emit (.called call tsLocal c.market)
  match Strategy.answer c.strategy call ⟨tsLocal, c.market⟩ with
  | .error err => (c, .error err)
  | .ok (strategy, commands) => ({ c with strategy := strategy }, .ok commands)

/-- Call the strategy and carry out its commands. -/
def wake (c : Core Q S L R) (call : Call) (tsLocal : ℤ) (wakeupRequested : Bool) :
    Core Q S L R × Flow (Strategy.Error S) :=
  match c.call call tsLocal with
  | (c, .error err) => (c, .fail (.strategy err))
  | (c, .ok commands) => (c.handleCommands commands tsLocal, .next wakeupRequested)

/-- Hands the buffered ticks over, if there are any. They stay buffered when the strategy fails. -/
def flushTicks (c : Core Q S L R) (tsLocal : ℤ) :
    Core Q S L R × Except (Strategy.Error S) (List Command) :=
  if c.tickBuffer.isEmpty then (c, .ok [])
  else
    match c.call (.onTicks c.tickBuffer) tsLocal with
    | (c, .error err) => (c, .error err)
    | (c, .ok commands) => ({ c with tickBuffer := [] }, .ok commands)

/-- Hands the buffered reports over, if there are any. -/
def flushReports (c : Core Q S L R) (tsLocal : ℤ) :
    Core Q S L R × Except (Strategy.Error S) (List Command) :=
  if c.reportBuffer.isEmpty then (c, .ok [])
  else
    match c.call (.onOrderUpdates c.reportBuffer) tsLocal with
    | (c, .error err) => (c, .error err)
    | (c, .ok commands) => ({ c with reportBuffer := [] }, .ok commands)

/-- Take over the batch size the tuner answers after one more batch. -/
def tune (c : Core Q S L R) : Core Q S L R :=
  if c.config.mode = .batch ∧ c.config.autoTune then
    { c with
      recordedBatches := c.recordedBatches + 1
      config := { c.config with maxBatchNs := c.currentBatchNs (c.recordedBatches + 1) } }
  else c

/-- Hand over what is buffered, ticks before reports. The commands of both calls are carried
out together. -/
def flushStrategy (c : Core Q S L R) (tsLocal : ℤ) :
    Core Q S L R × Option (EngineError (Strategy.Error S)) :=
  if c.tickBuffer.isEmpty && c.reportBuffer.isEmpty then (c, none)
  else
    -- an early flush invalidates the pending timer
    match { c with activeBatchTimerId := none }.flushTicks tsLocal with
    | (c, .error err) => (c, some (.strategy err))
    | (c, .ok commands) =>
      match c.flushReports tsLocal with
      | (c, .error err) => (c, some (.strategy err))
      | (c, .ok commands') => ((c.handleCommands (commands ++ commands') tsLocal).tune, none)

/-! ### Event handlers -/

/-- Log and book the fills of a trade, and send its reports. -/
def bookTrade (c : Core Q S L R) (tick : Tick) (ex : ExchangeSimulator Q)
    (reports : List OrderReport) : Core Q S L R :=
  let fills := makerFills ex tick.tsExchange c.config.makerFeeBps reports
  let c := fills.foldl (fun c f => c.logFill f.2) c
  let c := fills.foldl (fun c f => c.settle tick.tsExchange f.1 f.2) c
  reports.foldl (fun c r =>
    c.pushAfter tick.tsExchange c.config.orderUpdateLatencyNs (.orderReport r)) c

/-- The last trade of a symbol, as the exchange sees it. -/
def observeTrade (c : Core Q S L R) (tick : Tick) : Core Q S L R :=
  { c with truthLastTradeBySymbol := c.truthLastTradeBySymbol.insert tick.symbolId tick }

/-- A trade reaches the exchange of its symbol, and what it fills is booked. -/
def onTickEvent (c : Core Q S L R) (tick : Tick) : Core Q S L R × Flow (Strategy.Error S) :=
  let c := c.observeTrade tick
  let (ex, reports) := (c.exchange tick.symbolId).onTrade tick
  ((c.putExchange tick.symbolId ex).bookTrade tick ex reports, .next false)

/-- The market view learns of a delivered tick. -/
def observeDelivery (c : Core Q S L R) (tick : Tick) : Core Q S L R :=
  { c with market := c.market.onTickDelivery tick }

/-- A tick waits for the next batch. -/
def bufferTick (c : Core Q S L R) (tick : Tick) : Core Q S L R :=
  { c with tickBuffer := c.tickBuffer ++ [tick] }

/-- A report waits for the next batch. -/
def bufferReport (c : Core Q S L R) (report : OrderReport) : Core Q S L R :=
  { c with reportBuffer := c.reportBuffer ++ [report] }

/-- Make the next timer the active one. -/
def nextTimer (c : Core Q S L R) : Core Q S L R :=
  { c with nextTimerId := c.nextTimerId + 1, activeBatchTimerId := some c.nextTimerId }

/-- Start a batch timer. -/
def armTimer (c : Core Q S L R) (tsLocal : ℤ) : Core Q S L R :=
  c.nextTimer.pushAfter tsLocal c.config.maxBatchNs (.timer c.nextTimerId)

/-- A tick reaches the strategy at once, or is buffered until the timer of its batch. -/
def onTickDelivery (c : Core Q S L R) (tick : Tick) : Core Q S L R × Flow (Strategy.Error S) :=
  let c := c.observeDelivery tick
  match c.config.mode with
  | .tick => c.wake (.onTick tick) tick.tsLocal false
  | .batch =>
    let c := c.bufferTick tick
    if c.activeBatchTimerId.isNone ∧ 0 < c.config.maxBatchNs then
      (c.armTimer tick.tsLocal, .next false)
    else (c, .next false)

/-- An update of levels, an error for a symbol that has a book of orders. -/
def onL2Update (c : Core Q S L R) (update : L2Update) : Core Q S L R × Flow (Strategy.Error S) :=
  if update.symbolId ∈ c.l3DepthSymbols then (c, .fail (.internal (.mixedDepth update.symbolId)))
  else
    let c := { c with l2DepthSymbols := insert update.symbolId c.l2DepthSymbols }
    (c.putExchange update.symbolId ((c.exchange update.symbolId).applyL2Update update), .next false)

/-- An update of a book of orders, an error for a symbol that has levels or if the book refuses
it. -/
def onL3Update (c : Core Q S L R) (update : L3Update) : Core Q S L R × Flow (Strategy.Error S) :=
  if update.symbolId ∈ c.l2DepthSymbols then (c, .fail (.internal (.mixedDepth update.symbolId)))
  else
    let c := { c with l3DepthSymbols := insert update.symbolId c.l3DepthSymbols }
    let (ex, result) := (c.exchange update.symbolId).applyL3Update update
    let c := c.putExchange update.symbolId ex
    match result with
    | .error error => (c, .fail (.internal (.l3Rejected error)))
    | .ok () => (c, .next false)

/-- The latency of an order request at `now`, never negative, and the generator after it. -/
def sampleOrderLatency [LatencyModel L R] (c : Core Q S L R) : ℤ × Core Q S L R :=
  let (dt, rng) := LatencyModel.sampleOrderLatency c.latencyModel c.nowTsSim c.rng
  (max dt 0, { c with rng := rng })

/-- An order arrives at its exchange, which acknowledges it after a latency. -/
def onOrder [LatencyModel L R] (c : Core Q S L R) (order : Order) :
    Core Q S L R × Flow (Strategy.Error S) :=
  let c := c.putExchange order.symbolId ((c.exchange order.symbolId).submitOrder order)
  let (dt, c) := c.sampleOrderLatency
  let c := c.emit (.orderLatency order.orderId dt)
  (c.pushAfterSat c.nowTsSim dt (.orderAck order.orderId), .next false)

/-- Book the fill a market order's report tells about. -/
def bookTakerFill (c : Core Q S L R) (maybeOrder : Option Order) (report : OrderReport) :
    Core Q S L R :=
  match maybeOrder with
  | some order =>
    if 0 < report.lastFillQty then
      let fill := tradeFill c.nowTsSim true c.config.takerFeeBps order report
      (c.logFill fill).settle c.nowTsSim order fill
    else c
  | none => c

/-- Book and report what happened to a market order. -/
def reportMarket (c : Core Q S L R) (maybeOrder : Option Order) (report : OrderReport) :
    Core Q S L R :=
  let c := c.bookTakerFill maybeOrder report
  c.pushAfterSat c.nowTsSim c.config.orderUpdateLatencyNs (.orderReport report)

/-- Cancel what a partial fill leaves of a market order. -/
def cancelRest (c : Core Q S L R) (orderId symbolId : ℕ) : Core Q S L R :=
  match (c.exchange symbolId).forceCancelPartialFill orderId with
  | none => c
  | some (cancelReport, ex) =>
    (c.putExchange symbolId ex).pushAfterSat c.nowTsSim c.config.orderUpdateLatencyNs
      (.orderReport cancelReport)

/-- The fill of a market order on its ACK. Without a quote it trades at the last truth
price. -/
def fillMarket (c : Core Q S L R) (orderId symbolId : ℕ) : Core Q S L R :=
  let fallbackPrice := c.truthLastTradeBySymbol[symbolId]?.map (·.price)
  let maybeOrder := (c.exchange symbolId).getOrder orderId
  match (c.exchange symbolId).fillMarketImmediately orderId fallbackPrice with
  | none => c
  | some (report, ex) =>
    let c := (c.putExchange symbolId ex).reportMarket maybeOrder report
    if report.status = .partiallyFilled then c.cancelRest orderId symbolId else c

/-- A market order is filled, any other order is opened, and the report is on its way. -/
def onOrderAck (c : Core Q S L R) (orderId : ℕ) : Core Q S L R × Flow (Strategy.Error S) :=
  match c.orderSymbolById[orderId]? with
  | none => (c, .ret)
  | some symbolId =>
    let c := c.exchangeMut symbolId
    match ((c.exchange symbolId).getOrder orderId).map Order.orderType with
    | some .market => (c.fillMarket orderId symbolId, .next false)
    | _ =>
      match (c.exchange symbolId).ackNew orderId with
      | .error _ => (c, .next false)
      | .ok (report, ex) =>
        ((c.putExchange symbolId ex).pushAfterSat c.nowTsSim c.config.orderUpdateLatencyNs
          (.orderReport report), .next false)

/-- A cancel arrives at the exchange, which acknowledges it after a latency. -/
def onOrderCancel [LatencyModel L R] (c : Core Q S L R) (orderId : ℕ) :
    Core Q S L R × Flow (Strategy.Error S) :=
  match c.orderSymbolById[orderId]? with
  -- an unknown order is ignored
  | none => (c, .ret)
  | some symbolId =>
    let c := c.exchangeMut symbolId
    match (c.exchange symbolId).cancelOrder orderId with
    | .error _ => (c, .next false)
    | .ok ex =>
      let (dt, c) := (c.putExchange symbolId ex).sampleOrderLatency
      let c := c.emit (.cancelLatency orderId dt)
      (c.pushAfterSat c.nowTsSim dt (.orderCancelAck orderId), .next false)

/-- The exchange answers the cancel, unless a partial fill has come in between. -/
def onOrderCancelAck (c : Core Q S L R) (orderId : ℕ) : Core Q S L R × Flow (Strategy.Error S) :=
  match c.orderSymbolById[orderId]? with
  | none => (c, .next false)
  | some symbolId =>
    let c := c.exchangeMut symbolId
    match (c.exchange symbolId).ackCancel orderId with
    | .error _ => (c, .next false)
    | .ok (report, ex) =>
      ((c.putExchange symbolId ex).pushAfter c.nowTsSim c.config.orderUpdateLatencyNs
        (.orderReport report), .next false)

/-- Forget an order whose terminal report is processed. -/
def forget (c : Core Q S L R) (report : OrderReport) : Core Q S L R :=
  if report.status.isTerminal then
    match c.orderSymbolById[report.orderId]? with
    | none => c
    | some symbolId =>
      (c.putExchange symbolId ((c.exchange symbolId).removeOrder report.orderId)).unregisterOrder
        report.orderId
  else c

/-- A report reaches the strategy at once, or waits for a flush. A terminal one ends the
registration. -/
def onOrderReport (c : Core Q S L R) (report : OrderReport) :
    Core Q S L R × Flow (Strategy.Error S) :=
  let c := c.forget report
  match c.config.mode with
  | .tick => c.wake (.onOrderUpdate report) c.nowTsSim false
  | .batch => (c.bufferReport report, .next true)

/-- Book a funding payment at a mark price : the last trade's, else the book's. -/
def applyFunding (c : Core Q S L R) (event : FundingEvent) : Core Q S L R :=
  let markPrice := (c.truthLastTradeBySymbol[event.symbolId]?.map (·.price)).or
    (c.exchanges[event.symbolId]?.bind (·.markPrice))
  match markPrice with
  | none => c
  | some markPrice =>
    let (account, pnl) := c.account.applyFunding event markPrice
    { c with
      account := account
      tradeLog := c.tradeLog.pushPnlEvent ⟨event.tsExchange, pnl⟩
      riskGuard := c.riskGuard.updatePnl pnl }

/-- A funding payment is booked, and the strategy is told. -/
def onFunding (c : Core Q S L R) (event : FundingEvent) : Core Q S L R × Flow (Strategy.Error S) :=
  let c := c.applyFunding event
  -- funding wakes the strategy at once in both modes, and asks for a flush in batch mode
  c.wake (.onFunding event) c.nowTsSim (c.config.mode = .batch)

/-- The timer of the current batch asks for a flush. Any other timer is out of date. -/
def onTimer (c : Core Q S L R) (timerId : ℕ) : Core Q S L R × Flow (Strategy.Error S) :=
  if c.config.mode = .batch ∧ c.activeBatchTimerId = some timerId then
    ({ c with activeBatchTimerId := none }, .next true)
  else (c, .next false)

/-- The time moves to the popped event. -/
def atTime (c : Core Q S L R) (tsSim : ℤ) : Core Q S L R := { c with nowTsSim := tsSim }

/-- The `match` on the event's kind in `step`. -/
def handle [LatencyModel L R] (c : Core Q S L R) : EventKind →
    Core Q S L R × Flow (Strategy.Error S)
  | .tick tick => c.onTickEvent tick
  | .tickDelivery tick => c.onTickDelivery tick
  | .l2Update update => c.onL2Update update
  | .l3Update update => c.onL3Update update
  | .order order => c.onOrder order
  | .orderAck orderId => c.onOrderAck orderId
  | .orderCancel orderId => c.onOrderCancel orderId
  | .orderCancelAck orderId => c.onOrderCancelAck orderId
  | .orderReport report => c.onOrderReport report
  | .funding event => c.onFunding event
  | .timer timerId => c.onTimer timerId

end Core

/-! ## The engine -/

/-- The whole engine, and the trace of what has happened. -/
structure Engine (T U Q S L R : Type) [QueueModel Q] where
  core : Core Q S L R
  queue : EventQueue
  ticks : SourceQueue T
  l3 : SourceQueue U
  trace : List Effect

namespace Engine

variable {T U Q S L R : Type} [QueueModel Q]

/-- `Engine::new`. `currentBatchNs` is what the tuner will answer. -/
def new [SeedableRng R] (queueModel : Q) (strategy : S) (config : EngineConfig) (latencyModel : L)
    (currentBatchNs : ℕ → ℤ) : Engine T U Q S L R where
  core := {
    config := config
    queueModel := queueModel
    exchanges := ∅
    orderSymbolById := ∅
    nextOrderId := 1
    strategy := strategy
    latencyModel := latencyModel
    rng := SeedableRng.makeSmallRng config.seed
    account := {}
    tradeLog := .new config.tradeLogMode
    market := {}
    truthLastTradeBySymbol := ∅
    nowTsSim := 0
    tickBuffer := []
    reportBuffer := []
    activeBatchTimerId := none
    nextTimerId := 1
    pendingWakeup := false
    l2DepthSymbols := ∅
    l3DepthSymbols := ∅
    riskGuard := ⟨config.maxOpenOrders, config.maxPosition, config.maxLoss, false, 0⟩
    currentBatchNs := currentBatchNs
    recordedBatches := 0
    effects := [] }
  queue := .empty
  ticks := {}
  l3 := {}
  trace := []

/-- One more source of ticks. -/
def addTickSource [TickSource T] (e : Engine T U Q S L R) (source : T) : Engine T U Q S L R :=
  { e with ticks := e.ticks.add source }

/-- One more source of order updates. Its symbol has a book of orders from now on. -/
def addL3Source [L3Source U] (e : Engine T U Q S L R) (source : U) : Engine T U Q S L R :=
  { e with
    core := { e.core with
      l3DepthSymbols := insert (L3Source.symbolId source) e.core.l3DepthSymbols }
    l3 := e.l3.add source }

/-- Adds an entry to the trace. -/
def log (e : Engine T U Q S L R) (effect : Effect) : Engine T U Q S L R :=
  { e with trace := e.trace ++ [effect] }

/-- Pushes an event and notes it in the trace. -/
def pushEvent (e : Engine T U Q S L R) (tsSim : ℤ) (kind : EventKind) : Engine T U Q S L R :=
  { e with
    queue := e.queue.push tsSim kind
    trace := e.trace ++ [.scheduled tsSim kind] }

/-- Carry out one effect of a handler. -/
def record (e : Engine T U Q S L R) : Effect → Engine T U Q S L R
  | .scheduled tsSim kind => e.pushEvent tsSim kind
  | effect => e.log effect

/-- Continue with the core a handler returned : its effects are carried out in order. -/
def absorb (e : Engine T U Q S L R) (core : Core Q S L R) : Engine T U Q S L R :=
  core.effects.foldl record { e with core := core.cleared }

/-! ### Ingestion -/

/-- The timestamp of the head of the queue. -/
def nextQueueTs (e : Engine T U Q S L R) : ℤ := (e.queue.peek.map Event.tsSim).getD i64Max

/-- The source record to take before the head of the queue : L3 first on equal `(ts, seq)`. -/
def nextRecord (e : Engine T U Q S L R) : Option (PeekedEvent ⊕ PeekedEvent) :=
  let tickNext := e.ticks.heap.peek.bind fun pe =>
    if pe.ts ≤ e.nextQueueTs then some (Sum.inr pe) else none
  match e.l3.heap.peek with
  | none => tickNext
  | some pe =>
    let l3IsNextSource :=
      match e.ticks.heap.peek with
      | none => true
      | some tick => decide (pe.ts < tick.ts) || pe.ts == tick.ts && decide (pe.seq ≤ tick.seq)
    if pe.ts ≤ e.nextQueueTs && l3IsNextSource then some (Sum.inl pe) else tickNext

/-- The delivery time of a tick. `0` means that the feed latency applies. -/
def deliveryTs (config : EngineConfig) (tick : Tick) : ℤ :=
  if tick.tsLocal = 0 then addI64 tick.tsExchange config.feedLatencyNs else tick.tsLocal

/-- The tick as the strategy gets it. -/
def delivered (config : EngineConfig) (tick : Tick) : Tick :=
  { tick with tsLocal := deliveryTs config tick }

/-- Note a delivery time that leaves `i64`. -/
def noteDelivery (e : Engine T U Q S L R) (tick : Tick) : Engine T U Q S L R :=
  if tick.tsLocal = 0 ∧ ¬MachineInt.InRange 64 (tick.tsExchange + e.core.config.feedLatencyNs) then
    e.log .overflow
  else e

/-- Schedule the truth and the delivery of a tick. -/
def scheduleTick (e : Engine T U Q S L R) (tick : Tick) : Engine T U Q S L R :=
  ((e.pushEvent tick.tsExchange (.tick tick)).noteDelivery tick).pushEvent
    (deliveryTs e.core.config tick) (.tickDelivery (delivered e.core.config tick))

/-- How a pass of the ingestion loop ends. -/
inductive Pass (ε : Type) where
  | ingested
  | settled
  | fault (err : EngineError ε)
  deriving DecidableEq, Repr

variable {ε : Type}

/-- Takes an update out of a source, schedules it and reads ahead. -/
def ingestL3 [L3Source U] (e : Engine T U Q S L R) (sourceIdx : ℕ) :
    Engine T U Q S L R × Pass ε :=
  match e.l3.take sourceIdx with
  | .error err => (e, .fault (.tickSource err))
  | .ok (none, l3) => ({ e with l3 := l3 }, .fault (.internal (.l3SourceExhausted sourceIdx)))
  | .ok (some update, l3) =>
    let e := { e with l3 := l3 }.log (.ingested (.l3 update))
    let e := e.pushEvent update.tsExchange (.l3Update update)
    match e.l3.requeue sourceIdx with
    | .error err => (e, .fault (.tickSource err))
    | .ok l3 => ({ e with l3 := l3 }, .ingested)

/-- Takes a tick out of a source, schedules it and reads ahead. -/
def ingestTick [TickSource T] (e : Engine T U Q S L R) (sourceIdx : ℕ) :
    Engine T U Q S L R × Pass ε :=
  match e.ticks.take sourceIdx with
  | .error err => (e, .fault (.tickSource err))
  | .ok (none, ticks) =>
    ({ e with ticks := ticks }, .fault (.internal (.sourceExhausted sourceIdx)))
  | .ok (some tick, ticks) =>
    let e := { e with ticks := ticks }.log (.ingested (.tick tick))
    let e := e.scheduleTick tick
    match e.ticks.requeue sourceIdx with
    | .error err => (e, .fault (.tickSource err))
    | .ok ticks => ({ e with ticks := ticks }, .ingested)

variable [TickSource T] [L3Source U]

/-- One pass of the ingestion loop. -/
def ingest (e : Engine T U Q S L R) : Engine T U Q S L R × Pass ε :=
  match e.ticks.init with
  | .error err => (e, .fault (.tickSource err))
  | .ok ticks =>
    let e := { e with ticks := ticks }
    match e.l3.init with
    | .error err => (e, .fault (.tickSource err))
    | .ok l3 =>
      let e := { e with l3 := l3 }
      match e.nextRecord with
      | some (.inl pe) => e.ingestL3 pe.sourceIdx
      | some (.inr pe) => e.ingestTick pe.sourceIdx
      | none => (e, .settled)

/-! ### Events -/

variable [Strategy S] [LatencyModel L R]

/-- Flush the strategy at `now`. -/
def flush (e : Engine T U Q S L R) : Engine T U Q S L R × Option (EngineError (Strategy.Error S)) :=
  let (core, err) := e.core.cleared.flushStrategy e.core.nowTsSim
  (e.absorb core, err)

/-- Notes that a flush is due once the events of this time are through. -/
def setPendingWakeup (e : Engine T U Q S L R) (pending : Bool) : Engine T U Q S L R :=
  { e with core := { e.core with pendingWakeup := pending } }

/-- The end of `step` : a flush asked for waits for the last event of the timestamp. -/
def deferredFlush (e : Engine T U Q S L R) (wakeupRequested : Bool) :
    Engine T U Q S L R × Option (EngineError (Strategy.Error S)) :=
  if e.core.config.mode = .batch ∧ (wakeupRequested ∨ e.core.pendingWakeup) then
    if e.queue.peek.map Event.tsSim ≠ some e.core.nowTsSim then
      match e.flush with
      | (e, some err) => (e, some err)
      | (e, none) => (e.setPendingWakeup false, none)
    else (e.setPendingWakeup true, none)
  else (e, none)

/-- The `match` of `step` on a popped event. -/
def handleEvent (e : Engine T U Q S L R) (event : Event) :
    Engine T U Q S L R × Flow (Strategy.Error S) :=
  let (core, flow) := (e.core.cleared.atTime event.tsSim).handle event.kind
  ((e.log (.popped event e.core.activeBatchTimerId)).absorb core, flow)

/-- What `step` does with a popped event. -/
def dispatch (e : Engine T U Q S L R) (event : Event) :
    Engine T U Q S L R × Option (EngineError (Strategy.Error S)) :=
  match e.handleEvent event with
  | (e, .fail err) => (e, some err)
  | (e, .ret) => (e, none)
  | (e, .next wakeupRequested) => e.deferredFlush wakeupRequested

/-- The status of a run after a part of it that may have failed. -/
def statusOf : Option ε → Run.Status ε
  | some err => .failed err
  | none => .running

/-- One pass of the ingestion loop, or, when it has settled, one event, or, with no event
left, the final flush of `run`. -/
def turn (e : Engine T U Q S L R) :
    Engine T U Q S L R × Run.Status (EngineError (Strategy.Error S)) :=
  match e.ingest with
  | (e, .ingested) => (e, .running)
  | (e, .fault err) => (e, .failed err)
  | (e, .settled) =>
    match e.queue.pop with
    | some (event, queue) =>
      let (e, err) := { e with queue := queue }.dispatch event
      (e, statusOf err)
    | none =>
      if e.core.config.mode = .batch ∧
          (e.core.tickBuffer.isEmpty = false ∨ e.core.reportBuffer.isEmpty = false) then
        let (e, err) := e.flush
        (e, statusOf err)
      else (e, .finished)

end Engine

end Backtester
