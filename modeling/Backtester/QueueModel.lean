import Backtester.OrderBook

/-!
# Queue models

A queue model decides how much of a trade reaches a resting order of the user. It keeps
one state per order : `registerOrder` makes it from the depth at entry, `checkFill` offers
a trade, `onL3Update` follows the venue's order events. Every model of the source is a
unit struct, so `&mut self` carries no state and the methods here return the order's
state only.
-/

namespace Backtester

/-- Where an order stands in the queue of its level, and what a trade fills of it. -/
class QueueModel (Q : Type) where
  State : Type
  registerOrder : Q → Order → MarketDepth → State
  /-- The quantity the trade fills, and the state after it. -/
  checkFill : Q → Order → ℤ → Tick → State → ℤ × State
  onL3Update : Q → Order → State → L3Update → State := fun _ _ state _ => state

/-- The trade is on the other side of the order. -/
def isAgainst : Side → Side → Bool
  | .buy, .sell | .sell, .buy => true
  | _, _ => false

/-- The guards every model puts before its fill : there is quantity left, and the trade
has the order's symbol and price, a positive quantity and the other side. -/
def tradeReaches (order : Order) (remainingQty : ℤ) (trade : Tick) : Bool :=
  0 < remainingQty && trade.symbolId = order.symbolId && trade.price = order.price &&
    0 < trade.qty && isAgainst order.side trade.side

/-! ## Models that never fill, or fill last in the queue -/

/-- The model that never fills. -/
structure NoopQueue where

instance : QueueModel NoopQueue where
  State := Unit
  registerOrder _ _ _ := ()
  checkFill _ _ _ _ state := (0, state)

/-- The user is last in the queue : the level's quantity at entry is ahead. -/
structure ConservativeQueue where

/-- The quantity still ahead of the order. -/
structure ConservativeQueueState where
  qtyAhead : ℤ
  deriving DecidableEq, Repr

/-- What a trade leaves after the quantity ahead took its share, and what stays ahead. -/
def depleteAhead (qtyAhead tradeQty : ℤ) : ℤ × ℤ :=
  if 0 < qtyAhead then (tradeQty - min qtyAhead tradeQty, qtyAhead - min qtyAhead tradeQty)
  else (tradeQty, qtyAhead)

instance : QueueModel ConservativeQueue where
  State := ConservativeQueueState
  registerOrder _ order book := ⟨book.levelQty order.side order.price⟩
  checkFill _ order remainingQty trade state :=
    if tradeReaches order remainingQty trade then
      (min (depleteAhead state.qtyAhead trade.qty).1 remainingQty,
        ⟨(depleteAhead state.qtyAhead trade.qty).2⟩)
    else (0, state)

/-! ## Volume clock -/

/-- Only the volume traded past the queue position fills the user. -/
structure VolumeClockQueue where

/-- The place at entry, the volume traded since, and what the order has claimed of it. -/
structure VolumeClockQueueState where
  queuePos : ℤ
  cumVolume : ℤ
  claimed : ℤ
  deriving DecidableEq, Repr

instance : QueueModel VolumeClockQueue where
  State := VolumeClockQueueState
  registerOrder _ order book := ⟨book.levelQty order.side order.price, 0, 0⟩
  checkFill _ order remainingQty trade state :=
    if tradeReaches order remainingQty trade then
      let state := { state with cumVolume := satAddI64 state.cumVolume trade.qty }
      let past := satSubI64 state.cumVolume state.queuePos
      if past ≤ state.claimed then (0, state)
      else
        let fill := max (min (subI64 past state.claimed) remainingQty) 0
        (fill, { state with claimed := satAddI64 state.claimed fill })
    else (0, state)

/-! ## Exact L3 queue -/

/-- Exact queue position : a snapshot of the venue orders ahead, kept up to date by the
venue's order events. -/
structure L3ExactQueue where

/-- The orders that are still ahead, and their quantity. -/
structure L3ExactQueueState where
  qtyAhead : ℤ
  aheadOrders : List (ℕ × ℤ)
  deriving DecidableEq, Repr

/-- Take `qty` from the front orders. -/
def consumeAheadOrders : List (ℕ × ℤ) → ℤ → List (ℕ × ℤ)
  | [], _ => []
  | (id, q) :: rest, qty =>
    if 0 < qty then
      let consumed := min q qty
      -- an order that is not used up took all that was left of `qty`
      if q - consumed = 0 then consumeAheadOrders rest (qty - consumed)
      else (id, q - consumed) :: rest
    else (id, q) :: rest

namespace L3ExactQueueState

/-- An order ahead is gone. -/
def removeAheadOrder (state : L3ExactQueueState) (orderId : ℕ) : L3ExactQueueState :=
  match state.aheadOrders.find? (·.1 = orderId) with
  | none => state
  | some (_, qty) =>
    { qtyAhead := satSubI64 state.qtyAhead qty
      aheadOrders := state.aheadOrders.eraseP (·.1 = orderId) }

/-- An order ahead has another quantity. One without any is no longer ahead. -/
def modifyAheadOrder (state : L3ExactQueueState) (orderId : ℕ) (newQty : ℤ) : L3ExactQueueState :=
  match state.aheadOrders.find? (·.1 = orderId) with
  | none => state
  | some (_, qty) =>
    let aheadOrders := OrderBookL3.setQty orderId newQty state.aheadOrders
    { qtyAhead := satAddI64 (satSubI64 state.qtyAhead qty) newQty
      aheadOrders := if newQty = 0 then aheadOrders.filter (0 < ·.2) else aheadOrders }

end L3ExactQueueState

instance : QueueModel L3ExactQueue where
  State := L3ExactQueueState
  registerOrder _ order book :=
    let aheadOrders := book.ordersAhead order.side order.price order.orderId
    ⟨queueQty aheadOrders, aheadOrders⟩
  checkFill _ order remainingQty trade state :=
    if tradeReaches order remainingQty trade then
      (min (depleteAhead state.qtyAhead trade.qty).1 remainingQty,
        { qtyAhead := (depleteAhead state.qtyAhead trade.qty).2
          aheadOrders :=
            if 0 < state.qtyAhead then
              consumeAheadOrders state.aheadOrders (min state.qtyAhead trade.qty)
            else state.aheadOrders })
    else (0, state)
  onL3Update _ order state update :=
    if update.symbolId = order.symbolId ∧ update.side = order.side ∧
        update.price = order.price then
      if update.action = l3Delete then state.removeAheadOrder update.orderId
      else if update.action = l3Modify then
        state.modifyAheadOrder update.orderId (max update.qty 0)
      else state
    else state

/-! ## What the exchange needs of a model -/

/-- An order offered a trade is filled by at most what is left of it. -/
class LawfulQueueModel (Q : Type) [QueueModel Q] : Prop where
  fill_le_remaining : ∀ (q : Q) (order : Order) (remainingQty : ℤ) (trade : Tick)
    (state : QueueModel.State Q), 0 < remainingQty →
    (QueueModel.checkFill q order remainingQty trade state).1 ≤ remainingQty

instance : LawfulQueueModel NoopQueue where
  fill_le_remaining _ _ _ _ _ h := h.le

instance : LawfulQueueModel ConservativeQueue where
  fill_le_remaining _ _ _ _ _ h := by
    simp only [QueueModel.checkFill]
    split
    · exact min_le_right _ _
    · exact h.le

instance : LawfulQueueModel VolumeClockQueue where
  fill_le_remaining _ _ _ _ _ h := by
    simp only [QueueModel.checkFill]
    split
    · split
      · exact h.le
      · exact max_le (min_le_right _ _) h.le
    · exact h.le

instance : LawfulQueueModel L3ExactQueue where
  fill_le_remaining _ _ _ _ _ h := by
    simp only [QueueModel.checkFill]
    split
    · exact min_le_right _ _
    · exact h.le

end Backtester
