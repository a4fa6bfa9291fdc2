import Backtester.Types

/-!
# L2 and L3 order books

An L2 book maps prices to quantities, an L3 book prices to queues of venue orders in
arrival order. Queue models read either through `MarketDepth`.
-/

namespace Backtester

open Std

/-- Read access to a depth snapshot : the trait object passed to the queue models. -/
structure MarketDepth where
  levelQty : Side → ℤ → ℤ
  qtyAhead : Side → ℤ → ℕ → ℤ
  ordersAhead : Side → ℤ → ℕ → List (ℕ × ℤ)

/-! ## L2 -/

/-- A book of price levels, each with its total quantity. -/
structure OrderBookL2 where
  bids : ExtTreeMap ℤ ℤ := ∅
  asks : ExtTreeMap ℤ ℤ := ∅

namespace OrderBookL2

/-- One side after an update of a level. -/
def applyLevel (book : ExtTreeMap ℤ ℤ) (price qty : ℤ) : ExtTreeMap ℤ ℤ :=
  if qty = 0 then book.erase price else book.insert price qty

/-- Sets the level of the update. An update without a side changes nothing. -/
def applyL2 (book : OrderBookL2) (update : L2Update) : OrderBookL2 :=
  match update.side with
  | .buy => { book with bids := applyLevel book.bids update.price update.qty }
  | .sell => { book with asks := applyLevel book.asks update.price update.qty }
  | .none => book

/-- The quantity at a level, zero where there is none. -/
def levelQty (book : OrderBookL2) : Side → ℤ → ℤ
  | .buy, price => book.bids[price]?.getD 0
  | .sell, price => book.asks[price]?.getD 0
  | .none, _ => 0

/-- The highest bid, with its quantity. -/
def bestBid (book : OrderBookL2) : Option (ℤ × ℤ) := book.bids.maxEntry?

/-- The lowest ask, with its quantity. -/
def bestAsk (book : OrderBookL2) : Option (ℤ × ℤ) := book.asks.minEntry?

/-- An L2 book does not know venue orders, so `ordersAhead` is the empty default. -/
def depth (book : OrderBookL2) : MarketDepth where
  levelQty := book.levelQty
  qtyAhead side price _ := book.levelQty side price
  ordersAhead _ _ _ := []

end OrderBookL2

/-! ## L3 -/

/-- The action that adds an order at the back of its level. -/
def l3Add : ℕ := 1

/-- The action that sets the quantity of an order in its place. -/
def l3Modify : ℕ := 2

/-- The action that removes an order. -/
def l3Delete : ℕ := 3

/-- Price to queue of `(venue order id, qty)`, oldest first. -/
abbrev L3Side := ExtTreeMap ℤ (List (ℕ × ℤ))

/-- A book of single orders, by price level and in the order of their queue. -/
structure OrderBookL3 where
  bids : L3Side := ∅
  asks : L3Side := ∅

/-- The total quantity of a queue, summed on `i64`. -/
def queueQty (queue : List (ℕ × ℤ)) : ℤ := MachineInt.wrap 64 (queue.map Prod.snd).sum

namespace OrderBookL3

/-- The levels of a side. -/
def sideMap (book : OrderBookL3) : Side → Option L3Side
  | .buy => some book.bids
  | .sell => some book.asks
  | .none => none

/-- Update one side's map. `side` is `buy` or `sell`. -/
def mapSide (book : OrderBookL3) (side : Side) (f : L3Side → L3Side) : OrderBookL3 :=
  match side with
  | .buy => { book with bids := f book.bids }
  | .sell => { book with asks := f book.asks }
  | .none => book

/-- Store a level's queue, or drop the level when the queue is empty. -/
def putLevel (price : ℤ) (queue : List (ℕ × ℤ)) (levels : L3Side) : L3Side :=
  if queue.isEmpty then levels.erase price else levels.insert price queue

/-- Set the quantity of the first entry of `orderId`. -/
def setQty (orderId : ℕ) (qty : ℤ) : List (ℕ × ℤ) → List (ℕ × ℤ)
  | [] => []
  | (id, q) :: rest =>
    if id = orderId then (id, qty) :: rest else (id, q) :: setQty orderId qty rest

/-- Carries out the action of the update, or says why it cannot be. -/
def applyL3 (book : OrderBookL3) (update : L3Update) : Except String OrderBookL3 :=
  if update.side = .none then .error "invalid L3 side"
  else if update.action = l3Add then
    if update.qty ≤ 0 then .error "L3 ADD qty must be positive"
    else .ok <| book.mapSide update.side fun levels =>
      levels.insert update.price
        (levels[update.price]?.getD [] ++ [(update.orderId, update.qty)])
  else if update.action = l3Modify then
    if update.qty < 0 then .error "L3 MODIFY qty must be non-negative"
    else .ok <| book.mapSide update.side fun levels =>
      match levels[update.price]? with
      | none => levels
      | some queue =>
        putLevel update.price
          (if update.qty = 0 then queue.filter (·.1 ≠ update.orderId)
            else setQty update.orderId update.qty queue) levels
  else if update.action = l3Delete then
    .ok <| book.mapSide update.side fun levels =>
      match levels[update.price]? with
      | none => levels
      | some queue => putLevel update.price (queue.filter (·.1 ≠ update.orderId)) levels
  else .error "invalid L3 action"

/-- The queue at a price, if there is one. -/
def level (book : OrderBookL3) (side : Side) (price : ℤ) : Option (List (ℕ × ℤ)) :=
  (book.sideMap side).bind (·[price]?)

/-- The quantity of a whole queue. -/
def levelQty (book : OrderBookL3) (side : Side) (price : ℤ) : ℤ :=
  ((book.level side price).map queueQty).getD 0

/-- The entries before `orderId`, the whole level if it is not in the venue feed. -/
def ordersAhead (book : OrderBookL3) (side : Side) (price : ℤ) (orderId : ℕ) : List (ℕ × ℤ) :=
  ((book.level side price).getD []).takeWhile (·.1 ≠ orderId)

/-- The quantity that is ahead of an order in its queue. -/
def qtyAhead (book : OrderBookL3) (side : Side) (price : ℤ) (orderId : ℕ) : ℤ :=
  queueQty (book.ordersAhead side price orderId)

/-- The highest bid, with the quantity of its queue. -/
def bestBid (book : OrderBookL3) : Option (ℤ × ℤ) :=
  book.bids.maxEntry?.map fun (price, queue) => (price, queueQty queue)

/-- The lowest ask, with the quantity of its queue. -/
def bestAsk (book : OrderBookL3) : Option (ℤ × ℤ) :=
  book.asks.minEntry?.map fun (price, queue) => (price, queueQty queue)

/-- The book as a queue model sees it. -/
def depth (book : OrderBookL3) : MarketDepth where
  levelQty := book.levelQty
  qtyAhead := book.qtyAhead
  ordersAhead := book.ordersAhead

end OrderBookL3

end Backtester
