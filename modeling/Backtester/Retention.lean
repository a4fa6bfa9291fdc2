import Backtester.Handlers
import Backtester.Stats

/-!
# Log retention

A retention forgets part of a trade log, in step with what is pushed : `Retention.summary` keeps
what all modes but `none` keep, and `Retention.nothing` keeps nothing. The engine never reads its
log, so a retention commutes with every handler (`relog_handle`) and with a whole turn
(`relog_turn`). Two runs that differ in the mode of the log only agree with the same run of the
engine that forgets, and so with each other.
-/

open Run Std

set_option linter.unusedSectionVars false

namespace Backtester

/-- What is kept of a log, whatever is pushed. -/
structure Retention where
  log : TradeLog → TradeLog
  mode : TradeLogMode → TradeLogMode
  new (m : TradeLogMode) : log (.new m) = .new (mode m)
  pushFill (l : TradeLog) (fill : TradeFill) : log (l.pushFill fill) = (log l).pushFill fill
  pushPnl (l : TradeLog) (ts pnl : ℤ) (isTrade : Bool) :
    log (l.pushPnl ts pnl isTrade) = (log l).pushPnl ts pnl isTrade

namespace Retention

/-- The mode that keeps no fills. -/
def bareMode : TradeLogMode → TradeLogMode
  | .none => .none
  | _ => .summaryOnly

/-- Every mode that keeps statistics keeps them alike. -/
theorem bareMode_of_ne {mode : TradeLogMode} (hmode : mode ≠ .none) :
    bareMode mode = .summaryOnly := by
  cases mode <;> first | rfl | exact absurd rfl hmode

/-- Keep what the statistics read. -/
def summary : Retention where
  log l := { mode := bareMode l.mode, pnlHistory := l.pnlHistory, incremental := l.incremental }
  mode := bareMode
  new _ := rfl
  pushFill l fill := by
    cases hmode : l.mode <;> simp [TradeLog.pushFill, bareMode, hmode]
  pushPnl l ts pnl isTrade := by
    cases hmode : l.mode <;> simp [TradeLog.pushPnl, bareMode, hmode]

/-- The statistics do not look at the fills that are kept. -/
theorem calculateStatsBy_summary (reduce : Reductions) (sqrt : ℚ → ℚ) (l : TradeLog) :
    calculateStatsBy reduce sqrt (summary.log l) = calculateStatsBy reduce sqrt l := by
  by_cases hmode : l.mode = .none
  · have hbare : (summary.log l).mode = .none := by simp [summary, hmode, bareMode]
    rw [calculateStatsBy, if_pos hbare, calculateStatsBy, if_pos hmode]
  · have hbare : (summary.log l).mode ≠ .none := by
      simp [summary, bareMode_of_ne hmode]
    rw [calculateStatsBy, if_neg hbare, calculateStatsBy, if_neg hmode]
    rfl

/-- Keep nothing. -/
def nothing : Retention where
  log _ := .new .none
  mode _ := .none
  new _ := rfl
  pushFill _ _ := rfl
  pushPnl _ _ _ _ := rfl

end Retention

/-! ## The core -/

namespace Core

variable {Q S L R : Type} [QueueModel Q] (κ : Retention) (c : Core Q S L R)

/-- The same core, with the log and its mode rewritten. -/
def relog : Core Q S L R :=
  { c with
    tradeLog := κ.log c.tradeLog
    config := { c.config with tradeLogMode := κ.mode c.config.tradeLogMode } }

/-- A core with another log has the same settings, books and buffers. -/
@[simp] theorem mode_relog : (c.relog κ).config.mode = c.config.mode := rfl
@[simp] theorem autoTune_relog : (c.relog κ).config.autoTune = c.config.autoTune := rfl
@[simp] theorem maxBatchNs_relog : (c.relog κ).config.maxBatchNs = c.config.maxBatchNs := rfl
@[simp] theorem makerFeeBps_relog : (c.relog κ).config.makerFeeBps = c.config.makerFeeBps := rfl
@[simp] theorem exchange_relog (s : ℕ) : (c.relog κ).exchange s = c.exchange s := rfl
@[simp] theorem orderSymbolById_relog : (c.relog κ).orderSymbolById = c.orderSymbolById := rfl
@[simp] theorem truthLastTradeBySymbol_relog :
    (c.relog κ).truthLastTradeBySymbol = c.truthLastTradeBySymbol := rfl
@[simp] theorem nowTsSim_relog : (c.relog κ).nowTsSim = c.nowTsSim := rfl
@[simp] theorem tickBuffer_relog : (c.relog κ).tickBuffer = c.tickBuffer := rfl
@[simp] theorem reportBuffer_relog : (c.relog κ).reportBuffer = c.reportBuffer := rfl
@[simp] theorem activeBatchTimerId_relog :
    (c.relog κ).activeBatchTimerId = c.activeBatchTimerId := rfl
@[simp] theorem l2DepthSymbols_relog : (c.relog κ).l2DepthSymbols = c.l2DepthSymbols := rfl
@[simp] theorem l3DepthSymbols_relog : (c.relog κ).l3DepthSymbols = c.l3DepthSymbols := rfl

/-- Work on a core with another log is the same work, and leaves the other log rewritten. -/
@[simp] theorem relog_emit (effect : Effect) :
    (c.relog κ).emit effect = (c.emit effect).relog κ := rfl
@[simp] theorem relog_putExchange (s : ℕ) (ex : ExchangeSimulator Q) :
    (c.relog κ).putExchange s ex = (c.putExchange s ex).relog κ := rfl
@[simp] theorem relog_exchangeMut (s : ℕ) :
    (c.relog κ).exchangeMut s = (c.exchangeMut s).relog κ := rfl
@[simp] theorem relog_observeTrade (tick : Tick) :
    (c.relog κ).observeTrade tick = (c.observeTrade tick).relog κ := rfl
@[simp] theorem relog_observeDelivery (tick : Tick) :
    (c.relog κ).observeDelivery tick = (c.observeDelivery tick).relog κ := rfl
@[simp] theorem relog_bufferTick (tick : Tick) :
    (c.relog κ).bufferTick tick = (c.bufferTick tick).relog κ := rfl
@[simp] theorem relog_bufferReport (report : OrderReport) :
    (c.relog κ).bufferReport report = (c.bufferReport report).relog κ := rfl
@[simp] theorem relog_unregisterOrder (orderId : ℕ) :
    (c.relog κ).unregisterOrder orderId = (c.unregisterOrder orderId).relog κ := rfl

/-- A push is the same push whatever the log. -/
@[simp] theorem relog_pushAfter (ts delay : ℤ) (kind : EventKind) :
    (c.relog κ).pushAfter ts delay kind = (c.pushAfter ts delay kind).relog κ := by
  unfold pushAfter noteSum
  split_ifs <;> rfl

@[simp] theorem relog_pushAfterSat (ts delay : ℤ) (kind : EventKind) :
    (c.relog κ).pushAfterSat ts delay kind = (c.pushAfterSat ts delay kind).relog κ := by
  unfold pushAfterSat noteSum
  split_ifs <;> rfl

/-- The fill goes to the other log. -/
@[simp] theorem relog_logFill (fill : TradeFill) :
    (c.relog κ).logFill fill = (c.logFill fill).relog κ := by
  simp only [logFill, relog, κ.pushFill, emit]

/-- Settling a fill changes account and guard alike. -/
@[simp] theorem relog_settle (ts : ℤ) (order : Order) (fill : TradeFill) :
    (c.relog κ).settle ts order fill = (c.settle ts order fill).relog κ := by
  simp only [settle, relog, TradeLog.pushPnlDelta, κ.pushPnl]

/-- Funding is paid alike. -/
@[simp] theorem relog_applyFunding (event : FundingEvent) :
    (c.relog κ).applyFunding event = (c.applyFunding event).relog κ := by
  unfold applyFunding
  dsimp only [relog]
  split
  · rfl
  · simp only [TradeLog.pushPnlEvent, κ.pushPnl]

/-! ### Commands and calls -/

/-- The commands are carried out alike. -/
@[simp] theorem relog_handleCommands (commands : List Command) (t : ℤ) :
    (c.relog κ).handleCommands commands t = (c.handleCommands commands t).relog κ := by
  have hcommand : ∀ (c : Core Q S L R) command,
      (c.relog κ).handleCommand t command = (c.handleCommand t command).relog κ := by
    intro c command
    cases command with
    | submitOrder order =>
      change (c.claimId.relog κ).screenOrder t _ = (c.claimId.screenOrder t _).relog κ
      unfold screenOrder
      dsimp only [relog]
      split
      · next reason _ => exact relog_pushAfterSat κ (c.claimId.emit (.refused _ reason)) _ _ _
      · rfl
    | cancelOrder orderId => rfl
  exact List.foldl_hom (relog κ) hcommand

variable [Strategy S]

/-- What a call or a handler returns, with a core that forgets. -/
abbrev relogged {α : Type} (r : Core Q S L R × α) : Core Q S L R × α := (r.1.relog κ, r.2)

/-- The strategy does not see the log, so it answers alike. -/
@[simp] theorem relog_call (call : Call) (t : ℤ) :
    (c.relog κ).call call t = relogged κ (c.call call t) := by
  unfold Core.call
  dsimp only [relog, emit]
  cases Strategy.answer c.strategy call ⟨t, c.market⟩ <;> rfl

/-- The strategy is woken with the same call, and its answer carried out. -/
@[simp] theorem relog_wake (call : Call) (t : ℤ) (wakeup : Bool) :
    (c.relog κ).wake call t wakeup = relogged κ (c.wake call t wakeup) := by
  unfold wake
  rw [relog_call]
  generalize c.call call t = r
  obtain ⟨c', err | commands⟩ := r
  · rfl
  · simp only [relogged, relog_handleCommands]

/-- The buffers are emptied alike. -/
@[simp] theorem relog_flushTicks (t : ℤ) :
    (c.relog κ).flushTicks t = relogged κ (c.flushTicks t) := by
  unfold flushTicks
  simp only [relog_call, tickBuffer_relog]
  generalize c.call (.onTicks c.tickBuffer) t = r
  split_ifs
  · rfl
  · obtain ⟨c', err | commands⟩ := r <;> rfl

@[simp] theorem relog_flushReports (t : ℤ) :
    (c.relog κ).flushReports t = relogged κ (c.flushReports t) := by
  unfold flushReports
  simp only [relog_call, reportBuffer_relog]
  generalize c.call (.onOrderUpdates c.reportBuffer) t = r
  split_ifs
  · rfl
  · obtain ⟨c', err | commands⟩ := r <;> rfl

/-- The tuner does not see the log. -/
@[simp] theorem relog_tune : (c.relog κ).tune = c.tune.relog κ := by
  unfold tune
  by_cases hbatch : c.config.mode = .batch ∧ c.config.autoTune
  · rw [if_pos hbatch]
    exact if_pos hbatch
  · rw [if_neg hbatch]
    exact if_neg hbatch

/-- A flush is the same flush. -/
@[simp] theorem relog_flushStrategy (t : ℤ) :
    (c.relog κ).flushStrategy t = relogged κ (c.flushStrategy t) := by
  have hdisarm : { c.relog κ with activeBatchTimerId := none } =
      ({ c with activeBatchTimerId := none } : Core Q S L R).relog κ := rfl
  unfold flushStrategy
  rw [hdisarm]
  simp only [relog_flushTicks, tickBuffer_relog, reportBuffer_relog]
  generalize ({ c with activeBatchTimerId := none } : Core Q S L R).flushTicks t = r
  split_ifs
  · rfl
  · obtain ⟨c', err | commands⟩ := r
    · rfl
    · simp only [relog_flushReports]
      generalize c'.flushReports t = r'
      obtain ⟨c'', err | commands'⟩ := r'
      · rfl
      · simp only [relogged, relog_handleCommands, relog_tune]

/-! ### The handlers -/

/-- A trade fills the same orders. -/
@[simp] theorem relog_bookTrade (tick : Tick) (ex : ExchangeSimulator Q)
    (reports : List OrderReport) :
    (c.relog κ).bookTrade tick ex reports = (c.bookTrade tick ex reports).relog κ := by
  have hlog : ∀ (fills : List (Order × TradeFill)) (c : Core Q S L R),
      fills.foldl (fun c f => c.logFill f.2) (c.relog κ) =
        (fills.foldl (fun c f => c.logFill f.2) c).relog κ :=
    fun fills c => List.foldl_hom (relog κ) fun c f => relog_logFill κ c f.2
  have hsettle : ∀ (fills : List (Order × TradeFill)) (c : Core Q S L R),
      fills.foldl (fun c f => c.settle tick.tsExchange f.1 f.2) (c.relog κ) =
        (fills.foldl (fun c f => c.settle tick.tsExchange f.1 f.2) c).relog κ :=
    fun fills c => List.foldl_hom (relog κ) fun c f => relog_settle κ c _ f.1 f.2
  unfold bookTrade
  dsimp only
  rw [makerFeeBps_relog, hlog, hsettle]
  exact List.foldl_hom (relog κ) fun c r => relog_pushAfter κ c _ _ _

/-- The fill of a market order is booked alike. -/
@[simp] theorem relog_bookTakerFill (maybeOrder : Option Order) (report : OrderReport) :
    (c.relog κ).bookTakerFill maybeOrder report = (c.bookTakerFill maybeOrder report).relog κ := by
  unfold bookTakerFill
  cases maybeOrder with
  | none => rfl
  | some order =>
    dsimp only
    split_ifs
    · rw [relog_logFill, relog_settle]
      rfl
    · rfl

/-- The rest of a market order is cancelled alike. -/
@[simp] theorem relog_cancelRest (orderId symbolId : ℕ) :
    (c.relog κ).cancelRest orderId symbolId = (c.cancelRest orderId symbolId).relog κ := by
  unfold cancelRest
  rw [exchange_relog]
  split
  · rfl
  · exact relog_pushAfterSat κ (c.putExchange _ _) _ _ _

/-- A market order is carried out alike. -/
@[simp] theorem relog_fillMarket (orderId symbolId : ℕ) :
    (c.relog κ).fillMarket orderId symbolId = (c.fillMarket orderId symbolId).relog κ := by
  have hreport : ∀ (c : Core Q S L R) maybeOrder report,
      (c.relog κ).reportMarket maybeOrder report = (c.reportMarket maybeOrder report).relog κ := by
    intro c maybeOrder report
    unfold reportMarket
    dsimp only
    rw [relog_bookTakerFill]
    exact relog_pushAfterSat κ _ _ _ _
  unfold fillMarket
  simp only [exchange_relog, truthLastTradeBySymbol_relog]
  split
  · rfl
  · next report ex heq =>
    have h := hreport (c.putExchange symbolId ex) ((c.exchange symbolId).getOrder orderId) report
    split_ifs
    · rw [← relog_cancelRest, ← h]
      rfl
    · exact h

/-- Each handler does the same whatever the log. -/
theorem relog_onTickDelivery (tick : Tick) :
    (c.relog κ).onTickDelivery tick = relogged κ (c.onTickDelivery tick) := by
  have harm : ∀ (c : Core Q S L R) t, (c.relog κ).armTimer t = (c.armTimer t).relog κ :=
    fun c t => relog_pushAfter κ c.nextTimer _ _ _
  simp only [onTickDelivery, relog_observeDelivery, relog_wake, relog_bufferTick, mode_relog,
    maxBatchNs_relog, activeBatchTimerId_relog, harm]
  cases (c.observeDelivery tick).config.mode
  · rfl
  · dsimp only
    split_ifs <;> rfl

/-- A level update is accepted or refused alike. -/
theorem relog_onL2Update (update : L2Update) :
    (c.relog κ).onL2Update update = relogged κ (c.onL2Update update) := by
  by_cases hl3 : update.symbolId ∈ c.l3DepthSymbols
  · rw [onL2Update_mixed hl3, onL2Update_mixed (c := c.relog κ) hl3]
  · rw [onL2Update_eq hl3, onL2Update_eq (c := c.relog κ) hl3]
    rfl

/-- An order update is accepted or refused alike. -/
theorem relog_onL3Update (update : L3Update) :
    (c.relog κ).onL3Update update = relogged κ (c.onL3Update update) := by
  by_cases hl2 : update.symbolId ∈ c.l2DepthSymbols
  · rw [onL3Update_mixed hl2, onL3Update_mixed (c := c.relog κ) hl2]
  · rw [onL3Update_eq hl2, onL3Update_eq (c := c.relog κ) hl2]
    rfl

/-- An acknowledgement opens or fills the same order. -/
theorem relog_onOrderAck (n : ℕ) :
    (c.relog κ).onOrderAck n = relogged κ (c.onOrderAck n) := by
  unfold onOrderAck
  simp only [orderSymbolById_relog, relog_exchangeMut, relog_fillMarket, relog_putExchange,
    relog_pushAfterSat, exchange_relog]
  split
  · rfl
  · split
    · rfl
    · split <;> rfl

/-- A cancel is sent on alike. -/
theorem relog_onOrderCancel [LatencyModel L R] (n : ℕ) :
    (c.relog κ).onOrderCancel n = relogged κ (c.onOrderCancel n) := by
  unfold onOrderCancel
  simp only [orderSymbolById_relog, relog_exchangeMut, exchange_relog]
  split
  · rfl
  · next s _ =>
    split
    · rfl
    · next ex _ =>
      let c' : Core Q S L R := (c.exchangeMut s).putExchange s ex
      exact congrArg (·, Flow.next false) (relog_pushAfterSat κ
        (c'.sampleOrderLatency.2.emit (.cancelLatency n c'.sampleOrderLatency.1)) _ _ _)

/-- A cancel is answered alike. -/
theorem relog_onOrderCancelAck (n : ℕ) :
    (c.relog κ).onOrderCancelAck n = relogged κ (c.onOrderCancelAck n) := by
  unfold onOrderCancelAck
  simp only [orderSymbolById_relog, relog_exchangeMut, exchange_relog]
  split
  · rfl
  · next s _ =>
    split
    · rfl
    · next ex _ =>
      exact congrArg (·, Flow.next false)
        (relog_pushAfter κ ((c.exchangeMut s).putExchange s ex) _ _ _)

/-- A report is handed over or buffered alike. -/
theorem relog_onOrderReport (report : OrderReport) :
    (c.relog κ).onOrderReport report = relogged κ (c.onOrderReport report) := by
  have hforget : (c.relog κ).forget report = (c.forget report).relog κ := by
    unfold forget
    simp only [orderSymbolById_relog]
    split_ifs
    · split <;> rfl
    · rfl
  simp only [onOrderReport, hforget, relog_wake, relog_bufferReport, mode_relog]
  cases (c.forget report).config.mode <;> rfl

/-- A handler neither reads the log nor the mode it is kept in. -/
theorem relog_handle [LatencyModel L R] (kind : EventKind) :
    (c.relog κ).handle kind = relogged κ (c.handle kind) := by
  cases kind with
  | tick tick =>
    simp only [handle, onTickEvent, relog_observeTrade, exchange_relog, relog_putExchange,
      relog_bookTrade]
  | tickDelivery tick => exact relog_onTickDelivery κ c tick
  | l2Update update => exact relog_onL2Update κ c update
  | l3Update update => exact relog_onL3Update κ c update
  | order order =>
    let c' : Core Q S L R :=
      (c.putExchange order.symbolId ((c.exchange order.symbolId).submitOrder order))
    exact congrArg (·, Flow.next false) (relog_pushAfterSat κ
      (c'.sampleOrderLatency.2.emit (.orderLatency order.orderId c'.sampleOrderLatency.1)) _ _ _)
  | orderAck n => exact relog_onOrderAck κ c n
  | orderCancel n => exact relog_onOrderCancel κ c n
  | orderCancelAck n => exact relog_onOrderCancelAck κ c n
  | orderReport report => exact relog_onOrderReport κ c report
  | funding event =>
    simp only [handle, onFunding, relog_applyFunding, relog_wake, nowTsSim_relog, mode_relog]
  | timer timerId =>
    by_cases hactive : c.config.mode = .batch ∧ c.activeBatchTimerId = some timerId
    · have htimer : c.onTimer timerId = ({ c with activeBatchTimerId := none }, .next true) :=
        if_pos hactive
      exact (if_pos hactive).trans (congrArg (relogged κ) htimer).symm
    · have htimer : c.onTimer timerId = (c, .next false) := if_neg hactive
      exact (if_neg hactive).trans (congrArg (relogged κ) htimer).symm

end Core

/-! ## The engine -/

namespace Engine

variable {T U Q S L R : Type} [QueueModel Q] (κ : Retention) (e : Engine T U Q S L R)

/-- The same engine, with the log and its mode rewritten. -/
def relog : Engine T U Q S L R := { e with core := e.core.relog κ }

/-- An engine and a result, with the log of the engine rewritten. -/
abbrev relogged {α : Type} (r : Engine T U Q S L R × α) : Engine T U Q S L R × α :=
  (r.1.relog κ, r.2)

/-- An engine with another log has the same events, sources and trace. -/
@[simp] theorem queue_relog : (e.relog κ).queue = e.queue := rfl
@[simp] theorem trace_relog : (e.relog κ).trace = e.trace := rfl
@[simp] theorem core_relog : (e.relog κ).core = e.core.relog κ := rfl

@[simp] theorem ticks_relog : (e.relog κ).ticks = e.ticks := rfl
@[simp] theorem l3_relog : (e.relog κ).l3 = e.l3 := rfl

/-- An engine with another log takes the same effects in. -/
theorem relog_absorb (core : Core Q S L R) :
    (e.relog κ).absorb (core.relog κ) = (e.absorb core).relog κ := by
  have hrecord : ∀ (e : Engine T U Q S L R) effect,
      (e.relog κ).record effect = (e.record effect).relog κ := by
    intro e effect
    cases effect <;> rfl
  have hcleared : { e.relog κ with core := (core.relog κ).cleared } =
      ({ e with core := core.cleared } : Engine T U Q S L R).relog κ := rfl
  unfold absorb
  rw [hcleared]
  exact List.foldl_hom (relog κ) hrecord

/-! ### Ingestion -/

section Sources

variable [TickSource T] [L3Source U] {ε : Type}

/-- An engine with another log takes the same update in. -/
theorem relog_ingestL3 (i : ℕ) : (e.relog κ).ingestL3 (ε := ε) i = relogged κ (e.ingestL3 i) := by
  unfold ingestL3
  simp only [l3_relog]
  split
  · rfl
  · rfl
  · dsimp only [log, pushEvent]
    split <;> rfl

/-- An engine with another log takes the same tick in. -/
theorem relog_ingestTick (i : ℕ) :
    (e.relog κ).ingestTick (ε := ε) i = relogged κ (e.ingestTick i) := by
  have hschedule : ∀ (e : Engine T U Q S L R) tick,
      (e.relog κ).scheduleTick tick = (e.scheduleTick tick).relog κ := by
    intro e tick
    have hnote : ∀ e : Engine T U Q S L R,
        (e.relog κ).noteDelivery tick = (e.noteDelivery tick).relog κ := by
      intro e
      by_cases hoverflow :
          tick.tsLocal = 0 ∧ ¬MachineInt.InRange 64 (tick.tsExchange + e.core.config.feedLatencyNs)
      · have h : e.noteDelivery tick = e.log .overflow := if_pos hoverflow
        exact (if_pos hoverflow).trans (congrArg (relog κ) h).symm
      · have h : e.noteDelivery tick = e := if_neg hoverflow
        exact (if_neg hoverflow).trans (congrArg (relog κ) h).symm
    have hpush := hnote (e.pushEvent tick.tsExchange (.tick tick))
    unfold scheduleTick
    exact congrArg (pushEvent · _ _) hpush
  unfold ingestTick
  simp only [ticks_relog]
  split
  · rfl
  · rfl
  · next tick ticks _ =>
    let e₁ : Engine T U Q S L R :=
      ⟨(e.relog κ).core, (e.relog κ).queue, ticks, (e.relog κ).l3, (e.relog κ).trace⟩
    let e₂ : Engine T U Q S L R := { e with ticks := ticks }
    have h : (e₁.log (.ingested (.tick tick))).scheduleTick tick =
        ((e₂.log (.ingested (.tick tick))).scheduleTick tick).relog κ :=
      hschedule (e₂.log (.ingested (.tick tick))) tick
    rw [h]
    generalize (e₂.log (.ingested (.tick tick))).scheduleTick tick = e'
    rw [ticks_relog]
    split <;> rfl

/-- An engine with another log takes the same record in. -/
theorem relog_ingest : (e.relog κ).ingest (ε := ε) = relogged κ e.ingest := by
  unfold ingest
  simp only [ticks_relog, l3_relog]
  split
  · rfl
  · split
    · rfl
    · next ticks _ _ l3 _ =>
      have hnext : ({ e.relog κ with ticks := ticks, l3 := l3 }).nextRecord =
          ({ e with ticks := ticks, l3 := l3 }).nextRecord := rfl
      rw [hnext]
      split
      · exact relog_ingestL3 κ { e with ticks := ticks, l3 := l3 } _
      · exact relog_ingestTick κ { e with ticks := ticks, l3 := l3 } _
      · rfl

end Sources

/-! ### Events -/

variable [Strategy S]

/-- An engine with another log flushes alike. -/
theorem relog_flush : (e.relog κ).flush = relogged κ e.flush := by
  have h := Core.relog_flushStrategy κ e.core.cleared e.core.nowTsSim
  change ((e.relog κ).absorb ((e.core.cleared.relog κ).flushStrategy e.core.nowTsSim).1,
    ((e.core.cleared.relog κ).flushStrategy e.core.nowTsSim).2) = _
  rw [h, relog_absorb]
  rfl

/-- An engine with another log puts a flush off alike. -/
theorem relog_deferredFlush (wakeup : Bool) :
    (e.relog κ).deferredFlush wakeup = relogged κ (e.deferredFlush wakeup) := by
  have hflush := relog_flush κ e
  unfold deferredFlush
  by_cases hbatch : e.core.config.mode = .batch ∧ (wakeup ∨ e.core.pendingWakeup)
  · rw [if_pos hbatch]
    refine (if_pos hbatch).trans ?_
    by_cases hlast : e.queue.peek.map Event.tsSim ≠ some e.core.nowTsSim
    · rw [if_pos hlast]
      refine (if_pos hlast).trans ?_
      rw [hflush]
      generalize e.flush = r
      obtain ⟨e', _ | err⟩ := r <;> rfl
    · rw [if_neg hlast]
      exact if_neg hlast
  · rw [if_neg hbatch]
    exact if_neg hbatch

variable [LatencyModel L R]

/-- An engine with another log handles an event alike. -/
theorem relog_dispatch (event : Event) :
    (e.relog κ).dispatch event = relogged κ (e.dispatch event) := by
  have hhandle : (e.relog κ).handleEvent event = relogged κ (e.handleEvent event) := by
    have h := Core.relog_handle κ (e.core.cleared.atTime event.tsSim) event.kind
    change (((e.log (.popped event e.core.activeBatchTimerId)).relog κ).absorb
        (((e.core.cleared.atTime event.tsSim).relog κ).handle event.kind).1,
      (((e.core.cleared.atTime event.tsSim).relog κ).handle event.kind).2) = _
    rw [h, relog_absorb]
    rfl
  unfold dispatch
  rw [hhandle]
  generalize e.handleEvent event = r
  obtain ⟨e', err | _ | wakeup⟩ := r
  · rfl
  · rfl
  · exact relog_deferredFlush κ e' wakeup

variable [TickSource T] [L3Source U]

/-- The engine takes the same turn, whatever it keeps of its log. -/
theorem relog_turn : (e.relog κ).turn = relogged κ e.turn := by
  unfold turn
  rw [relog_ingest]
  generalize e.ingest (ε := Strategy.Error S) = r
  obtain ⟨e', _ | _ | err⟩ := r
  · rfl
  · dsimp only [relogged]
    rw [queue_relog]
    split
    · next event queue _ =>
      have h := relog_dispatch κ { e' with queue := queue } event
      exact congrArg (fun r => (r.1, statusOf r.2)) h
    · by_cases hleft : e'.core.config.mode = .batch ∧
          (e'.core.tickBuffer.isEmpty = false ∨ e'.core.reportBuffer.isEmpty = false)
      · rw [if_pos hleft]
        refine (if_pos hleft).trans ?_
        exact congrArg (fun r => (r.1, statusOf r.2)) (relog_flush κ e')
      · rw [if_neg hleft]
        exact if_neg hleft
  · rfl

/-! ## Two modes -/

/-- The engine with another mode of the log, and nothing logged. -/
def withMode (mode : TradeLogMode) (e : Engine T U Q S L R) : Engine T U Q S L R :=
  { e with core := { e.core with
      tradeLog := .new mode
      config := { e.core.config with tradeLogMode := mode } } }

omit [Strategy S] [LatencyModel L R] in
/-- An engine that has not run yet has logged nothing, and could have been built with another
mode. -/
theorem built_withMode [SeedableRng R] {allowed : ℤ → EventKind → Prop} {e : Engine T U Q S L R}
    (built : Built allowed e) (mode : TradeLogMode) :
    e.core.tradeLog = .new e.core.config.tradeLogMode ∧ Built allowed (e.withMode mode) := by
  induction built with
  | new queueModel strategy config latencyModel currentBatchNs =>
    exact ⟨rfl, .new queueModel strategy { config with tradeLogMode := mode } latencyModel
      currentBatchNs⟩
  | external _ hext ih =>
    obtain ⟨hlog, hbuilt⟩ := ih
    cases hext with
    | addTickSource source => exact ⟨hlog, hbuilt.external (.addTickSource source)⟩
    | addL3Source source => exact ⟨hlog, hbuilt.external (.addL3Source source)⟩
    | pushEvent hallowed => exact ⟨hlog, hbuilt.external (.pushEvent hallowed)⟩

omit [Strategy S] [LatencyModel L R] [TickSource T] [L3Source U] in
/-- Two modes of which the same is kept. -/
theorem relog_withMode {κ : Retention} {e : Engine T U Q S L R} {mode : TradeLogMode}
    (hlog : e.core.tradeLog = .new e.core.config.tradeLogMode)
    (hmode : κ.mode mode = κ.mode e.core.config.tradeLogMode) :
    (e.withMode mode).relog κ = e.relog κ := by
  simp only [relog, withMode, Core.relog, hlog, κ.new, hmode]

/-- Two engines that differ in the mode of the log only are the same after any number of turns, but
for what a retention forgets that keeps the same of both modes. -/
theorem relogged_runFor [SeedableRng R] {allowed : ℤ → EventKind → Prop} {e₀ : Engine T U Q S L R}
    (built : Built allowed e₀) (κ : Retention) {mode : TradeLogMode}
    (hmode : κ.mode mode = κ.mode e₀.core.config.tradeLogMode) (n : ℕ) :
    relogged κ (runFor turn n (e₀.withMode mode)) = relogged κ (runFor turn n e₀) := by
  have hturn : ∀ e : Engine T U Q S L R, (e.relog κ).turn = relogged κ e.turn :=
    fun e => relog_turn κ e
  have h := runFor_map (relog κ) hturn n (e₀.withMode mode)
  rw [relog_withMode (built_withMode built mode).1 hmode, runFor_map (relog κ) hturn n e₀] at h
  exact h.symm

/-- Two engines that differ in the mode of the log only make the same calls to the strategy (all
effects are the same), and have the same account and risk guard, after any number of turns. If
both keep a log, its entries and all its running statistics are the same, and so is the summary,
however the parallel sums of a long history turn out. -/
theorem log_retention_irrelevant [SeedableRng R] {allowed : ℤ → EventKind → Prop}
    {e₀ : Engine T U Q S L R} (built : Built allowed e₀) (mode : TradeLogMode) (n : ℕ) :
    let r := runFor turn n e₀
    let r' := runFor turn n (e₀.withMode mode)
    Built allowed (e₀.withMode mode) ∧ r'.2 = r.2 ∧ r'.1.trace = r.1.trace ∧
      r'.1.core.account = r.1.core.account ∧ r'.1.core.riskGuard = r.1.core.riskGuard ∧
      (e₀.core.config.tradeLogMode ≠ .none → mode ≠ .none →
        r'.1.core.tradeLog.pnlHistory = r.1.core.tradeLog.pnlHistory ∧
        r'.1.core.tradeLog.incremental = r.1.core.tradeLog.incremental ∧
        ∀ reduce sqrt, calculateStatsBy reduce sqrt r'.1.core.tradeLog =
          calculateStatsBy reduce sqrt r.1.core.tradeLog) := by
  intro r r'
  have hnothing : Retention.nothing.mode mode =
    Retention.nothing.mode e₀.core.config.tradeLogMode := rfl
  have hsame := relogged_runFor built .nothing hnothing n
  refine ⟨(built_withMode built mode).2, congrArg (·.2) hsame, congrArg (·.1.trace) hsame,
    congrArg (·.1.core.account) hsame, congrArg (·.1.core.riskGuard) hsame,
    fun hkeeps hkeeps' => ?_⟩
  have hsummary := relogged_runFor built .summary
    ((Retention.bareMode_of_ne hkeeps').trans (Retention.bareMode_of_ne hkeeps).symm) n
  refine ⟨congrArg (·.1.core.tradeLog.pnlHistory) hsummary,
    congrArg (·.1.core.tradeLog.incremental) hsummary, fun reduce sqrt => ?_⟩
  rw [← Retention.calculateStatsBy_summary reduce sqrt r'.1.core.tradeLog,
    ← Retention.calculateStatsBy_summary reduce sqrt r.1.core.tradeLog]
  exact congrArg (fun r => calculateStatsBy reduce sqrt r.1.core.tradeLog) hsummary

/-- A fill with a fee leaves the same entry in a log without fills, and the same summary. -/
theorem log_retention_irrelevant_sample :
    let order : Order := ⟨0, 0, 0, 0, 10000000000, 2, 1, .buy, .limit⟩
    let first : Tick := ⟨1000, 0, 0, 10100000000, 1, 1, .buy, 0⟩
    let second : Tick := ⟨2000, 0, 1, 10000000000, 5, 1, .sell, 0⟩
    let e₀ := sample { makerFeeBps := 100 } 10 [[.submitOrder order]] [[first, second]]
    (runFor turn 20 (e₀.withMode .summaryOnly)).1.core.tradeLog.pnlHistory = [(2000, -2)] ∧
      (runFor turn 20 (e₀.withMode .summaryOnly)).1.trace = (runFor turn 20 e₀).1.trace ∧
      ∀ reduce sqrt,
        calculateStatsBy reduce sqrt (runFor turn 20 (e₀.withMode .summaryOnly)).1.core.tradeLog =
          calculateStatsBy reduce sqrt (runFor turn 20 e₀).1.core.tradeLog := by
  intro order first second e₀
  have built : Built (fun _ _ => True) e₀ :=
    .external (.new _ _ _ _ _) (.addTickSource [first, second])
  have hkeeps : e₀.core.config.tradeLogMode ≠ .none := by decide
  have hhistory : (runFor turn 20 e₀).1.core.tradeLog.pnlHistory = [(2000, -2)] := by decide +kernel
  clear_value e₀
  obtain ⟨-, -, htrace, -, -, hlog⟩ := log_retention_irrelevant built .summaryOnly 20
  obtain ⟨hsame, -, hstats⟩ := hlog hkeeps (by decide)
  exact ⟨hsame.trans hhistory, htrace, hstats⟩

end Engine

end Backtester
