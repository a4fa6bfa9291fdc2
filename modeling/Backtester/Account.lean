import Backtester.Types

/-!
# Account and risk guard

Positions at average cost, funding payments, and the pre-trade checks. Intermediate
products are `i128` in the source. The differences of two prices are taken on `i64`.
-/

namespace Backtester

open Std

/-! ## Positions -/

/-- A position in one symbol : its quantity, the price it was entered at, and since when it is
held. -/
structure Position where
  qty : ℤ := 0
  avgPrice : ℤ := 0
  lastOpenTs : ℤ := 0
  fundingPnl : ℤ := 0
  deriving DecidableEq, Repr

/-- The average price after adding `deltaQty` at `price` to a position of `qty`. -/
def averagePrice (qty avgPrice deltaQty price : ℤ) : ℤ :=
  let newAbs := absI64 qty + absI64 deltaQty
  if 0 < newAbs then
    let weighted := MachineInt.wrap 128 (avgPrice * absI64 qty + price * absI64 deltaQty)
    clampI128ToI64 (weighted.tdiv newAbs)
  else 0

/-- The PnL realised by `deltaQty` at `price` against a position of the other direction. -/
def closingPnl (qty avgPrice deltaQty price : ℤ) : ℤ :=
  let pnlPerUnit := if 0 < qty then subI64 price avgPrice else subI64 avgPrice price
  clampI128ToI64 ((satMulI128 pnlPerUnit (min (absI64 qty) (absI64 deltaQty))).tdiv scale)

/-- The positions, and what funding has paid in total. -/
structure Account where
  positions : ExtTreeMap ℕ Position := ∅
  totalFundingPnl : ℤ := 0

namespace Account

/-- The quantity held in a symbol. -/
def positionQty (account : Account) (symbolId : ℕ) : ℤ :=
  (account.positions[symbolId]?.map (·.qty)).getD 0

/-- The account after a fill, and the realised PnL. -/
def onFill (account : Account) (order : Order) (fillQty fillPrice : ℤ) : Account × ℤ :=
  let deltaQty := MachineInt.wrap 64 (order.side.signed fillQty)
  if deltaQty = 0 then (account, 0)
  else
    let p := account.positions[order.symbolId]?.getD {}
    let put (p : Position) : Account :=
      { account with positions := account.positions.insert order.symbolId p }
    if p.qty = 0 ∨ p.qty.sign = deltaQty.sign then
      (put { p with
        lastOpenTs := if p.qty = 0 then order.tsSubmit else p.lastOpenTs
        qty := satAddI64 p.qty deltaQty
        avgPrice := averagePrice p.qty p.avgPrice deltaQty fillPrice }, 0)
    else
      let newQty := satAddI64 p.qty deltaQty
      let pnl := closingPnl p.qty p.avgPrice deltaQty fillPrice
      if newQty = 0 then (put { p with qty := 0, avgPrice := 0 }, pnl)
      else if newQty.sign = p.qty.sign then (put { p with qty := newQty }, pnl)
      else
        (put { p with qty := newQty, avgPrice := fillPrice, lastOpenTs := order.tsSubmit }, pnl)

/-- The account after a funding payment, and its cashflow. Longs pay shorts at a positive
rate. -/
def applyFunding (account : Account) (event : FundingEvent) (markPrice : ℤ) : Account × ℤ :=
  match account.positions[event.symbolId]? with
  | none => (account, 0)
  | some p =>
    if p.qty = 0 ∨ event.rate = 0 ∨ markPrice = 0 then (account, 0)
    else
      let notional := (satMulI128 p.qty markPrice).tdiv scale
      let payment := (satMulI128 notional event.rate).tdiv scale
      let pnl := clampI128ToI64 (-payment)
      ({ positions := account.positions.insert event.symbolId
            { p with fundingPnl := satAddI64 p.fundingPnl pnl }
         totalFundingPnl := satAddI64 account.totalFundingPnl pnl }, pnl)

end Account

/-- `floor(price * |qty| * feeBps / (SCALE * 10000))`, never negative. -/
def computeFee (price qty feeBps : ℤ) : ℤ :=
  if feeBps ≤ 0 then 0
  else
    let fee := (mulI128 (mulI128 price (absI64 qty)) feeBps).tdiv (scale * 10000)
    max 0 (min fee i64Max)

/-! ## Risk guard -/

/-- Pre-trade limits and the kill switch. `0` disables a limit; `maxLoss` acts when
negative. -/
structure RiskGuard where
  maxOpenOrders : ℕ
  maxPosition : ℤ
  maxLoss : ℤ
  killed : Bool := false
  runningPnl : ℤ := 0
  deriving DecidableEq, Repr

namespace RiskGuard

/-- The reason to refuse the order, if there is one. -/
def checkOrder (guard : RiskGuard) (order : Order) (openOrderCount : ℕ)
    (currentPositionQty : ℤ) : Option String :=
  if guard.killed then some "risk: kill_switch active"
  else if 0 < guard.maxOpenOrders ∧ guard.maxOpenOrders ≤ openOrderCount then
    some "risk: max_open_orders exceeded"
  else if 0 < guard.maxPosition ∧
      guard.maxPosition < |currentPositionQty + order.side.signed order.qty| then
    some "risk: max_position exceeded"
  else none

/-- The running PnL changes, and the guard kills the run when the loss reaches its limit. -/
def updatePnl (guard : RiskGuard) (delta : ℤ) : RiskGuard :=
  let runningPnl := satAddI64 guard.runningPnl delta
  { guard with
    runningPnl := runningPnl
    killed := guard.killed || (guard.maxLoss < 0 && runningPnl ≤ guard.maxLoss) }

end RiskGuard

end Backtester
