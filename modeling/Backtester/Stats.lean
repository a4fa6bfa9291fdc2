import Backtester.TradeLog

/-!
# Statistics of a log

What is computed from a trade log after the fact : the PnL of its fills, replayed at average cost,
the equity curve of its PnL entries, and the summary of a backtest. `f64` ratios are exact
rationals, `f64::sqrt` is a parameter, and an infinite profit factor is `none`. The sums that are
taken in parallel are a parameter too, because they are rounded as the scheduler splits them
(`Reduction`).
-/

namespace Backtester

open Std

/-! ## Replaying the fills -/

/-- The PnL that a fill realises, and how long the position was held. -/
structure PnlDelta where
  tsExchange : ℤ
  pnl : ℤ
  holdingPeriod : ℤ
  deriving DecidableEq, Repr

/-- One pass of the loop in `pnl_deltas_from_fills`. -/
def replayFill (stateBySymbol : ExtTreeMap ℕ PosState) (f : TradeFill) :
    ExtTreeMap ℕ PosState × PnlDelta :=
  let deltaQty := f.side.signed f.qty
  if f.qty ≤ 0 ∨ deltaQty = 0 then (stateBySymbol, ⟨f.tsExchange, 0, 0⟩)
  else
    let s := stateBySymbol[f.symbolId]?.getD {}
    if s.qty = 0 ∨ s.qty.sign = deltaQty.sign then
      let s := {
        qty := satAddI64 s.qty deltaQty
        avgPrice := averagePrice s.qty s.avgPrice deltaQty f.price
        lastOpenTs := if s.qty = 0 then f.tsExchange else s.lastOpenTs }
      (stateBySymbol.insert f.symbolId s, ⟨f.tsExchange, 0, 0⟩)
    else
      let pnl := closingPnl s.qty s.avgPrice deltaQty f.price
      let holdingPeriod := if pnl ≠ 0 then satSubI64 f.tsExchange s.lastOpenTs else 0
      let newQty := satAddI64 s.qty deltaQty
      let s :=
        if newQty = 0 then { s with qty := 0, avgPrice := 0 }
        else if newQty.sign = s.qty.sign then { s with qty := newQty }
        else { qty := newQty, avgPrice := f.price, lastOpenTs := f.tsExchange }
      (stateBySymbol.insert f.symbolId s, ⟨f.tsExchange, pnl, holdingPeriod⟩)

/-- The positions after the fills, and the deltas. -/
def replayFills (fills : List TradeFill) : ExtTreeMap ℕ PosState × List PnlDelta :=
  fills.foldl (fun acc f => ((replayFill acc.1 f).1, acc.2 ++ [(replayFill acc.1 f).2])) (∅, [])

/-- The profits that the fills realise, in their order. -/
def pnlDeltasFromFills (fills : List TradeFill) : List PnlDelta := (replayFills fills).2

/-! ## The equity curve -/

/-- The running total of the profits, saturating. -/
def equityCurveFromPnlDeltas (deltas : List (ℤ × ℤ)) : List (ℤ × ℤ) :=
  (deltas.foldl (fun acc d => (satAddI64 acc.1 d.2, acc.2 ++ [(d.1, satAddI64 acc.1 d.2)]))
    ((0, []) : ℤ × List (ℤ × ℤ))).2

/-- The locals of the loop in `max_drawdown_pct_and_duration`. -/
structure DrawdownScan where
  peakTs : ℤ
  peakEq : ℤ
  maxDd : ℚ := 0
  maxDdDur : ℤ := 0
  deriving DecidableEq

/-- One pass of the loop. -/
def DrawdownScan.step (scan : DrawdownScan) (point : ℤ × ℤ) : DrawdownScan :=
  if scan.peakEq < point.2 then { scan with peakEq := point.2, peakTs := point.1 }
  else if scan.peakEq ≤ 0 then scan
  else
    let dd : ℚ := (subI64 scan.peakEq point.2 : ℤ) / (scan.peakEq : ℤ)
    if scan.maxDd < dd then
      { scan with maxDd := min dd 1, maxDdDur := satSubI64 point.1 scan.peakTs }
    else scan

/-- The greatest drawdown of the curve in percent, and how long after its peak it was reached. -/
def maxDrawdownPctAndDuration (equityCurve : List (ℤ × ℤ)) : ℚ × ℤ :=
  match equityCurve with
  | [] => (0, 0)
  | (peakTs, peakEq) :: points =>
    let scan := points.foldl DrawdownScan.step { peakTs := peakTs, peakEq := peakEq }
    (scan.maxDd * 100, scan.maxDdDur)

/-! ## The summary -/

/-- The statistics of a run. -/
structure BacktestStats where
  totalTrades : ℕ := 0
  winRate : ℚ := 0
  /-- `none` is `f64::INFINITY`. -/
  profitFactor : Option ℚ := some 0
  sharpeRatio : ℚ := 0
  sortinoRatio : ℚ := 0
  maxDrawdown : ℚ := 0
  maxDrawdownDuration : ℤ := 0
  calmarRatio : ℚ := 0
  totalPnl : ℤ := 0
  avgTradePnl : ℤ := 0
  avgHoldingPeriod : ℤ := 0
  totalFeesPaid : ℤ := 0
  killed : Bool := false
  deriving DecidableEq

/-- `mean / std`, unless there are too few entries or no deviation. -/
def ratio (n : ℕ) (mean std : ℚ) : ℚ := if n < 2 then 0 else if std = 0 then 0 else mean / std

namespace IncrementalStats

/-- The mean by the deviation, from the running moments. -/
def sharpeRatio (sqrt : ℚ → ℚ) (inc : IncrementalStats) : ℚ :=
  ratio inc.pnlCount inc.pnlMean (sqrt (inc.pnlM2 / (inc.pnlCount - 1)))

/-- The mean by the downside deviation, from the running moments. -/
def sortinoRatio (sqrt : ℚ → ℚ) (inc : IncrementalStats) : ℚ :=
  ratio inc.pnlCount inc.pnlMean (sqrt (inc.downsideSqSum / inc.pnlCount))

/-- The mean time that a closed position was held. -/
def avgHoldingPeriod (inc : IncrementalStats) : ℤ :=
  if 0 < inc.closedTrades then inc.totalHoldingPeriod.tdiv inc.closedTrades else 0

end IncrementalStats

/-- What a parallel reduction makes of a list of pairs : their sums, component by component. Rayon
decides anew in every run how the list is split, and `f64` sums round differently for different
splits. So a reduction is any function of the list. -/
abbrev Reduction := List (ℚ × ℚ) → ℚ × ℚ

/-- The reduction whose sums are exact, however it is split. -/
def exactSums : Reduction := fun l => ((l.map Prod.fst).sum, (l.map Prod.snd).sum)

/-- The ratio of a long series, from the sums that rayon returns. -/
def sharpeRatioFromPnlSeriesParallel (reduce : Reduction) (sqrt : ℚ → ℚ) (pnl : List ℤ) : ℚ :=
  let n : ℚ := pnl.length
  let (sum, sumSq) := reduce (pnl.map fun x : ℤ => ((x : ℚ), (x * x : ℚ)))
  let mean := sum / n
  ratio pnl.length mean (sqrt (max (sumSq - n * mean * mean) 0 / (n - 1)))

/-- The downside ratio of a long series, from the sums that rayon returns. -/
def sortinoRatioFromPnlSeriesParallel (reduce : Reduction) (sqrt : ℚ → ℚ) (pnl : List ℤ) : ℚ :=
  let n : ℚ := pnl.length
  let (sum, downsideSqSum) :=
    reduce (pnl.map fun x : ℤ => ((x : ℚ), if (x : ℚ) < 0 then (x * x : ℚ) else 0))
  ratio pnl.length (sum / n) (sqrt (downsideSqSum / n))

/-- The two reductions of `calculate_stats`. -/
structure Reductions where
  sharpe : Reduction
  sortino : Reduction

/-- `calculate_stats`, when its parallel reductions turn out as `reduce`. -/
def calculateStatsBy (reduce : Reductions) (sqrt : ℚ → ℚ) (log : TradeLog) : BacktestStats :=
  let inc := log.incremental
  if log.mode = .none then {}
  else
    let pnl := log.pnlHistory.map Prod.snd
    -- a long history is summed afresh, in parallel
    let (sharpe, sortino) :=
      if 10000 < pnl.length then
        (sharpeRatioFromPnlSeriesParallel reduce.sharpe sqrt pnl,
          sortinoRatioFromPnlSeriesParallel reduce.sortino sqrt pnl)
      else (inc.sharpeRatio sqrt, inc.sortinoRatio sqrt)
    { totalTrades := inc.totalTrades
      winRate := if 0 < inc.closedTrades then (inc.winCount : ℚ) / inc.closedTrades else 0
      profitFactor :=
        if inc.grossLoss < 0 then
          some ((inc.grossProfit : ℚ) / (MachineInt.wrap 64 (-inc.grossLoss) : ℤ))
        else if 0 < inc.grossProfit then none
        else some 0
      sharpeRatio := sharpe
      sortinoRatio := sortino
      maxDrawdown := inc.maxDrawdownPct
      maxDrawdownDuration := inc.maxDrawdownDuration
      calmarRatio :=
        if 0 < inc.maxDrawdownPct then
          ((inc.totalPnl : ℚ) / scale) / (inc.maxDrawdownPct / 100)
        else 0
      totalPnl := inc.totalPnl
      avgTradePnl := if 0 < inc.closedTrades then inc.totalPnl.tdiv inc.closedTrades else 0
      avgHoldingPeriod := inc.avgHoldingPeriod
      totalFeesPaid := inc.totalFeesPaid
      killed := false }

/-- `calculate_stats` with exact sums. -/
def calculateStats (sqrt : ℚ → ℚ) (log : TradeLog) : BacktestStats :=
  calculateStatsBy ⟨exactSums, exactSums⟩ sqrt log

end Backtester
