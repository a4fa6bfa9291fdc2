import Backtester.Library.MachineInt

/-!
# Ticks, orders and reports

The records that pass between the market data, the exchange simulators and the strategy.
Timestamps, prices and quantities are `i64` in the source and `ℤ` here; identifiers and
sequence numbers are unsigned there and `ℕ` here. Arithmetic is that of a release build :
plain `i64` operators wrap, saturating ones clamp.
-/

namespace Backtester

open MachineInt

/-! ## Machine arithmetic -/

/-- `i64::MAX`. -/
def i64Max : ℤ := 2 ^ 63 - 1

/-- `a + b` on `i64`. -/
def addI64 (a b : ℤ) : ℤ := wrap 64 (a + b)

/-- `a - b` on `i64`. -/
def subI64 (a b : ℤ) : ℤ := wrap 64 (a - b)

/-- `a.saturating_add(b)` on `i64`. -/
def satAddI64 (a b : ℤ) : ℤ := clamp 64 (a + b)

/-- `a.saturating_sub(b)` on `i64`. -/
def satSubI64 (a b : ℤ) : ℤ := clamp 64 (a - b)

/-- `a.abs()` on `i64`. -/
def absI64 (a : ℤ) : ℤ := wrap 64 |a|

/-- `a * b` on `i128`. -/
def mulI128 (a b : ℤ) : ℤ := wrap 128 (a * b)

/-- `a.saturating_mul(b)` on `i128`. -/
def satMulI128 (a b : ℤ) : ℤ := clamp 128 (a * b)

/-- `clamp_i128_to_i64`. -/
def clampI128ToI64 (v : ℤ) : ℤ := clamp 64 v

/-- `FixedPoint::SCALE` : quantities and prices are multiples of `1e-8`. -/
def scale : ℤ := 100000000

/-! ## Records -/

/-- The side of an order or of a trade. A trade that has no side is `none`. -/
inductive Side where
  | buy
  | sell
  | none
  deriving DecidableEq, Repr

/-- How an order is to be carried out. -/
inductive OrderType where
  | limit
  | market
  deriving DecidableEq, Repr

/-- Where an order stands at its exchange. -/
inductive OrderState where
  | created
  | pendingNew
  | open
  | partiallyFilled
  | pendingCancel
  | cancelled
  | filled
  | rejected
  deriving DecidableEq, Repr

namespace OrderState

/-- Nothing follows these states. -/
def isTerminal : OrderState → Bool
  | cancelled | filled | rejected => true
  | _ => false

/-- The transitions that the exchange allows. -/
def canTransitionTo : OrderState → OrderState → Bool
  | created, pendingNew => true
  -- ACK or reject
  | pendingNew, .open | pendingNew, rejected => true
  -- market order : immediate fill without `open`
  | pendingNew, filled | pendingNew, partiallyFilled => true
  | .open, partiallyFilled | .open, filled | .open, pendingCancel => true
  | partiallyFilled, partiallyFilled | partiallyFilled, filled => true
  | partiallyFilled, pendingCancel => true
  -- market order partial fill : the rest is cancelled at once
  | partiallyFilled, cancelled => true
  -- a cancel in flight can still fill
  | pendingCancel, cancelled | pendingCancel, filled => true
  | _, _ => false

end OrderState

/-- Order update for the strategy : an ACK, a fill, a cancel or a rejection. -/
structure OrderReport where
  orderId : ℕ
  clientOrderId : ℕ
  lastFillQty : ℤ
  lastFillPrice : ℤ
  filledQty : ℤ
  remainingQty : ℤ
  reason : Option String
  symbolId : ℕ
  status : OrderState
  deriving DecidableEq, Repr

/-- Funding payment. `rate` is scaled by `1e8`. -/
structure FundingEvent where
  tsExchange : ℤ
  rate : ℤ
  symbolId : ℕ
  deriving DecidableEq, Repr

/-- A trade of the market, with the time at the exchange and the time at which it is known
locally. -/
structure Tick where
  tsExchange : ℤ
  tsLocal : ℤ
  seq : ℕ
  price : ℤ
  qty : ℤ
  symbolId : ℕ
  side : Side
  flags : ℕ
  deriving DecidableEq, Repr

/-- Price level update. `qty = 0` removes the level. -/
structure L2Update where
  tsExchange : ℤ
  seq : ℕ
  price : ℤ
  qty : ℤ
  symbolId : ℕ
  side : Side
  deriving DecidableEq, Repr

/-- Individual order event of the venue. -/
structure L3Update where
  tsExchange : ℤ
  seq : ℕ
  symbolId : ℕ
  orderId : ℕ
  price : ℤ
  qty : ℤ
  side : Side
  action : ℕ
  deriving DecidableEq, Repr

/-- An order as the strategy submits it. The engine sets the id and the time of submission. -/
structure Order where
  orderId : ℕ
  clientOrderId : ℕ
  tsSubmit : ℤ
  seq : ℕ
  price : ℤ
  qty : ℤ
  symbolId : ℕ
  side : Side
  orderType : OrderType
  deriving DecidableEq, Repr

/-- What a quantity on `side` adds to a position. -/
def Side.signed : Side → ℤ → ℤ
  | .buy, q => q
  | .sell, q => -q
  | .none, _ => 0

end Backtester
