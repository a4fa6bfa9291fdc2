import Backtester.Account

/-!
# Trade log

Fills and PnL entries under a retention mode, with the statistics kept as they are
pushed. The source's `f64` ratios are exact rationals here.
-/

namespace Backtester

open Std

/-- A fill of one of the orders of the strategy. -/
structure TradeFill where
  tsExchange : ℤ
  orderId : ℕ
  price : ℤ
  qty : ℤ
  fee : ℤ
  symbolId : ℕ
  side : Side
  isTaker : Bool
  deriving DecidableEq, Repr

/-- A profit or a loss that is no fill, such as funding. -/
structure PnlEvent where
  tsExchange : ℤ
  pnl : ℤ
  deriving DecidableEq, Repr

/-- What of a run the log keeps. -/
inductive TradeLogMode where
  | all
  | ringBuffer (cap : ℕ)
  | summaryOnly
  | none
  deriving DecidableEq, Repr

/-! ## Statistics kept while pushing -/

/-- The position in a symbol, as the statistics follow it. -/
structure PosState where
  qty : ℤ := 0
  avgPrice : ℤ := 0
  lastOpenTs : ℤ := 0
  deriving DecidableEq, Repr

/-- The statistics that are kept up to date while the log grows. -/
structure IncrementalStats where
  totalTrades : ℕ := 0
  totalPnl : ℤ := 0
  grossProfit : ℤ := 0
  grossLoss : ℤ := 0
  winCount : ℕ := 0
  totalFeesPaid : ℤ := 0
  totalHoldingPeriod : ℤ := 0
  closedTrades : ℕ := 0
  pnlCount : ℕ := 0
  pnlMean : ℚ := 0
  pnlM2 : ℚ := 0
  downsideSqSum : ℚ := 0
  equity : ℤ := 0
  peakEquity : ℤ := 0
  peakTs : ℤ := 0
  maxDrawdownPct : ℚ := 0
  maxDrawdownDuration : ℤ := 0
  posState : ExtTreeMap ℕ PosState := ∅

namespace IncrementalStats

/-- Counts a fill, and follows the position it changes. -/
def onFill (stats : IncrementalStats) (fill : TradeFill) : IncrementalStats :=
  let stats := { stats with
    totalTrades := stats.totalTrades + 1
    totalFeesPaid := satAddI64 stats.totalFeesPaid fill.fee }
  let deltaQty := fill.side.signed fill.qty
  if fill.qty ≤ 0 ∨ deltaQty = 0 then stats
  else
    let s := stats.posState[fill.symbolId]?.getD {}
    if s.qty = 0 ∨ s.qty.sign = deltaQty.sign then
      let s := {
        qty := satAddI64 s.qty deltaQty
        avgPrice := averagePrice s.qty s.avgPrice deltaQty fill.price
        lastOpenTs := if s.qty = 0 then fill.tsExchange else s.lastOpenTs }
      { stats with posState := stats.posState.insert fill.symbolId s }
    else
      let stats :=
        if closingPnl s.qty s.avgPrice deltaQty fill.price ≠ 0 then
          { stats with
            totalHoldingPeriod := satAddI64 stats.totalHoldingPeriod
              (satSubI64 fill.tsExchange s.lastOpenTs)
            closedTrades := stats.closedTrades + 1 }
        else stats
      let newQty := satAddI64 s.qty deltaQty
      let s :=
        if newQty = 0 then { s with qty := 0, avgPrice := 0 }
        else if newQty.sign = s.qty.sign then { s with qty := newQty }
        else { qty := newQty, avgPrice := fill.price, lastOpenTs := fill.tsExchange }
      { stats with posState := stats.posState.insert fill.symbolId s }

/-- The drawdown part of `on_pnl`. -/
def trackEquity (stats : IncrementalStats) (ts : ℤ) : IncrementalStats :=
  if stats.pnlCount = 1 ∨ stats.peakEquity < stats.equity then
    { stats with peakEquity := stats.equity, peakTs := ts }
  else if stats.peakEquity ≤ 0 then stats
  else
    let dd : ℚ := (subI64 stats.peakEquity stats.equity : ℤ) / (stats.peakEquity : ℤ)
    let ddPct := min (dd * 100) 100
    if stats.maxDrawdownPct < ddPct then
      { stats with maxDrawdownPct := ddPct, maxDrawdownDuration := satSubI64 ts stats.peakTs }
    else stats

/-- Takes a profit in : totals, wins and losses, the moments of the series and the drawdown. -/
def onPnl (stats : IncrementalStats) (ts pnl : ℤ) (isTrade : Bool) : IncrementalStats :=
  let stats := { stats with totalPnl := satAddI64 stats.totalPnl pnl }
  let stats :=
    if isTrade ∧ 0 < pnl then
      { stats with grossProfit := satAddI64 stats.grossProfit pnl, winCount := stats.winCount + 1 }
    else if isTrade ∧ pnl < 0 then { stats with grossLoss := satAddI64 stats.grossLoss pnl }
    else stats
  let delta : ℚ := pnl - stats.pnlMean
  let pnlMean := stats.pnlMean + delta / (stats.pnlCount + 1 : ℕ)
  let stats := { stats with
    pnlCount := stats.pnlCount + 1
    pnlMean := pnlMean
    pnlM2 := stats.pnlM2 + delta * (pnl - pnlMean)
    downsideSqSum := if pnl < 0 then stats.downsideSqSum + pnl * pnl else stats.downsideSqSum
    equity := satAddI64 stats.equity pnl }
  stats.trackEquity ts

end IncrementalStats

/-! ## The log -/

/-- The log of a run : the fills that its mode keeps, the profits, and the running statistics. -/
structure TradeLog where
  mode : TradeLogMode
  fills : List TradeFill := []
  fillsRing : List TradeFill := []
  pnlHistory : List (ℤ × ℤ) := []
  incremental : IncrementalStats := {}

namespace TradeLog

/-- An empty log. -/
def new (mode : TradeLogMode) : TradeLog := { mode := mode }

/-- Keeps a fill as the mode has it. The running statistics see it in every mode but `none`. -/
def pushFill (log : TradeLog) (fill : TradeFill) : TradeLog :=
  match log.mode with
  | .all =>
    { log with fills := log.fills ++ [fill], incremental := log.incremental.onFill fill }
  | .ringBuffer cap =>
    let ring := if cap ≤ log.fillsRing.length then log.fillsRing.tail else log.fillsRing
    { log with fillsRing := ring ++ [fill], incremental := log.incremental.onFill fill }
  | .summaryOnly => { log with incremental := log.incremental.onFill fill }
  | .none => log

/-- The common part of `push_pnl_event` and `push_pnl_delta`. -/
def pushPnl (log : TradeLog) (ts pnl : ℤ) (isTrade : Bool) : TradeLog :=
  if log.mode = .none then log
  else
    { log with
      pnlHistory := log.pnlHistory ++ [(ts, pnl)]
      incremental := log.incremental.onPnl ts pnl isTrade }

/-- A profit that is no trade. -/
def pushPnlEvent (log : TradeLog) (event : PnlEvent) : TradeLog :=
  log.pushPnl event.tsExchange event.pnl false

/-- The profit of a fill. -/
def pushPnlDelta (log : TradeLog) (ts pnl : ℤ) : TradeLog := log.pushPnl ts pnl true

/-- The fills that are still there, the oldest first. -/
def fillsIter (log : TradeLog) : List TradeFill :=
  match log.mode with
  | .all => log.fills
  | .ringBuffer _ => log.fillsRing
  | _ => []

@[simp] theorem mode_pushFill (log : TradeLog) (fill : TradeFill) :
    (log.pushFill fill).mode = log.mode := by
  unfold pushFill
  split <;> rfl

@[simp] theorem pnlHistory_pushFill (log : TradeLog) (fill : TradeFill) :
    (log.pushFill fill).pnlHistory = log.pnlHistory := by
  unfold pushFill
  split <;> rfl

@[simp] theorem mode_pushPnl (log : TradeLog) (ts pnl : ℤ) (isTrade : Bool) :
    (log.pushPnl ts pnl isTrade).mode = log.mode := by
  unfold pushPnl
  split_ifs <;> rfl

theorem pnlHistory_pushPnl {log : TradeLog} (hmode : log.mode ≠ .none) (ts pnl : ℤ)
    (isTrade : Bool) :
    (log.pushPnl ts pnl isTrade).pnlHistory = log.pnlHistory ++ [(ts, pnl)] := by
  rw [pushPnl, if_neg hmode]

end TradeLog

end Backtester
