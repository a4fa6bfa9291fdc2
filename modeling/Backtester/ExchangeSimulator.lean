import Backtester.QueueModel

/-!
# Exchange simulator

One simulator per symbol : a depth book, the user's orders by id, and the ids of the
orders at each price and side. A trade is offered to the user's orders at its price, on
the other side, in bucket order; the queue model says how much of it fills each.

Operations that take `&mut self` return the new simulator. An operation that fails in
the source leaves the order table as it was, except `applyL3Update`, which moves the queue
states before the book validates the update.
-/

namespace Backtester

open Std

/-! ## Orders and their reports -/

/-- A report about `order`. -/
def Order.report (order : Order) (status : OrderState)
    (lastFillQty lastFillPrice filledQty remainingQty : ℤ) (reason : Option String) :
    OrderReport where
  orderId := order.orderId
  clientOrderId := order.clientOrderId
  lastFillQty := lastFillQty
  lastFillPrice := lastFillPrice
  filledQty := filledQty
  remainingQty := remainingQty
  reason := reason
  symbolId := order.symbolId
  status := status

/-- An order at an exchange, with what of it is filled and where it stands in the queue. -/
structure LiveOrder (σ : Type) where
  order : Order
  state : OrderState
  filledQty : ℤ
  remainingQty : ℤ
  queueState : σ

/-- The states in which a resting order takes part in trades. -/
def OrderState.isFillable : OrderState → Bool
  | .open | .partiallyFilled | .pendingCancel => true
  | _ => false

namespace LiveOrder

variable {Q : Type} [QueueModel Q]

/-- The order after a fill of `fillQty` : `filled` once nothing remains, `partiallyFilled`
before, whatever its state was. -/
def fill {σ : Type} (o : LiveOrder σ) (fillQty : ℤ) : LiveOrder σ :=
  { o with
    filledQty := addI64 o.filledQty fillQty
    remainingQty := subI64 o.remainingQty fillQty
    state := if subI64 o.remainingQty fillQty = 0 then .filled else .partiallyFilled }

/-- One pass of the loop in `on_trade` : the order after it, and its report if it filled. -/
def offer (q : Q) (trade : Tick) (o : LiveOrder (QueueModel.State Q)) :
    LiveOrder (QueueModel.State Q) × Option OrderReport :=
  if o.remainingQty ≤ 0 then (o, none)
  else if !o.state.isFillable then (o, none)
  else
    let (fillQty, queueState) :=
      QueueModel.checkFill q o.order o.remainingQty trade o.queueState
    let o := { o with queueState := queueState }
    if fillQty ≤ 0 then (o, none)
    else
      let o := o.fill fillQty
      (o, some (o.order.report o.state fillQty trade.price o.filledQty o.remainingQty none))

/-- One pass of the loop in `apply_l3_update`. -/
def followL3 (q : Q) (update : L3Update) (o : LiveOrder (QueueModel.State Q)) :
    LiveOrder (QueueModel.State Q) :=
  match o.state with
  | .pendingNew | .open | .partiallyFilled =>
    { o with queueState := QueueModel.onL3Update q o.order o.queueState update }
  | _ => o

end LiveOrder

/-! ## The simulator -/

/-- The exchange of one symbol : a book of the market, and the orders of the strategy. -/
structure ExchangeSimulator (Q : Type) [QueueModel Q] where
  book : OrderBookL2
  bookL3 : Option OrderBookL3
  queueModel : Q
  orders : ExtTreeMap ℕ (LiveOrder (QueueModel.State Q))
  /-- Ids by price and side. An absent bucket reads as an empty one in the source. -/
  buckets : ℤ → Side → List ℕ

namespace ExchangeSimulator

variable {Q : Type} [QueueModel Q]

/-- `ExchangeSimulator::new` : L2 depth. -/
def new (queueModel : Q) : ExchangeSimulator Q where
  book := {}
  bookL3 := none
  queueModel := queueModel
  orders := ∅
  buckets _ _ := []

/-- An exchange with a book of orders. -/
def newL3 (queueModel : Q) : ExchangeSimulator Q := { new queueModel with bookL3 := some {} }

/-- The book follows the update. The orders of the strategy do not. -/
def applyL2Update (ex : ExchangeSimulator Q) (update : L2Update) : ExchangeSimulator Q :=
  { ex with book := ex.book.applyL2 update }

/-- Mid-price of the book, or its only side. -/
def markPrice (ex : ExchangeSimulator Q) : Option ℤ :=
  let (bestBid, bestAsk) :=
    match ex.bookL3 with
    | some bookL3 => (bookL3.bestBid, bookL3.bestAsk)
    | none => (ex.book.bestBid, ex.book.bestAsk)
  match bestBid, bestAsk with
  | some (bid, _), some (ask, _) => some ((satAddI64 bid ask).tdiv 2)
  | some (bid, _), none => some bid
  | none, some (ask, _) => some ask
  | none, none => none

/-- The orders follow the update first, then the book, which may refuse it. -/
def applyL3Update (ex : ExchangeSimulator Q) (update : L3Update) :
    ExchangeSimulator Q × Except String Unit :=
  let ex :=
    { ex with orders := ex.orders.map fun _ live => LiveOrder.followL3 ex.queueModel update live }
  match ex.bookL3 with
  | none => (ex, .error "exchange is not in L3 depth mode")
  | some bookL3 =>
    match bookL3.applyL3 update with
    | .error error => (ex, .error error)
    | .ok bookL3 => ({ ex with bookL3 := some bookL3 }, .ok ())

/-- The depth the queue models read : the L3 book when there is one. -/
def depth (ex : ExchangeSimulator Q) : MarketDepth :=
  match ex.bookL3 with
  | some bookL3 => bookL3.depth
  | none => ex.book.depth

/-- Replace the bucket of one price and side. -/
def setBucket (buckets : ℤ → Side → List ℕ) (price : ℤ) (side : Side) (ids : List ℕ) :
    ℤ → Side → List ℕ :=
  fun p s => if p = price ∧ s = side then ids else buckets p s

/-- An order joins its bucket, with a place in the queue behind the present depth. -/
def submitOrder (ex : ExchangeSimulator Q) (order : Order) : ExchangeSimulator Q :=
  { ex with
    buckets := setBucket ex.buckets order.price order.side
      (ex.buckets order.price order.side ++ [order.orderId])
    orders := ex.orders.insert order.orderId
      { order := order
        state := .pendingNew
        filledQty := 0
        remainingQty := order.qty
        queueState := QueueModel.registerOrder ex.queueModel order ex.depth } }

/-- Put `o` back under its id. -/
def putOrder (ex : ExchangeSimulator Q) (orderId : ℕ) (o : LiveOrder (QueueModel.State Q)) :
    ExchangeSimulator Q :=
  { ex with orders := ex.orders.insert orderId o }

/-- Opens an order that waits for it. -/
def ackNew (ex : ExchangeSimulator Q) (orderId : ℕ) :
    Except String (OrderReport × ExchangeSimulator Q) :=
  match ex.orders[orderId]? with
  | none => .error "unknown order_id"
  | some o =>
    if o.state ≠ .pendingNew then .error "order is not PendingNew"
    else .ok (o.order.report .open 0 0 0 o.remainingQty none,
      ex.putOrder orderId { o with state := .open })

/-- Asks for the cancellation of an order. -/
def cancelOrder (ex : ExchangeSimulator Q) (orderId : ℕ) : Except String (ExchangeSimulator Q) :=
  match ex.orders[orderId]? with
  | none => .error "unknown order_id"
  | some o =>
    if !o.state.canTransitionTo .pendingCancel then
      .error "order cannot transition to PendingCancel"
    else .ok (ex.putOrder orderId { o with state := .pendingCancel })

/-- Cancels an order that waits for it, and says what is left of it. -/
def ackCancel (ex : ExchangeSimulator Q) (orderId : ℕ) :
    Except String (OrderReport × ExchangeSimulator Q) :=
  match ex.orders[orderId]? with
  | none => .error "unknown order_id"
  | some o =>
    match o.state with
    | .pendingCancel =>
      .ok (o.order.report .cancelled 0 0 o.filledQty o.remainingQty none,
        ex.putOrder orderId { o with state := .cancelled })
    | .filled => .error "cancel rejected: already filled"
    | _ => .error "order is not PendingCancel"

/-- The order under an id, as it was submitted. -/
def getOrder (ex : ExchangeSimulator Q) (orderId : ℕ) : Option Order :=
  ex.orders[orderId]?.map (·.order)

/-- The price and quantity a market order of `side` meets : the L3 book's best level, else
the L2 book's, else the fallback price with no depth limit. -/
def marketLevel (ex : ExchangeSimulator Q) (side : Side) (fallbackPrice : Option ℤ) :
    Option (ℤ × ℤ) :=
  let best :=
    match side with
    | .buy => (ex.bookL3.bind (·.bestAsk)).or ex.book.bestAsk
    | .sell => (ex.bookL3.bind (·.bestBid)).or ex.book.bestBid
    | .none => none
  best.or (fallbackPrice.map fun price => (price, i64Max))

/-- Fills a market order from the best opposite level, or rejects it where there is none. -/
def fillMarketImmediately (ex : ExchangeSimulator Q) (orderId : ℕ) (fallbackPrice : Option ℤ) :
    Option (OrderReport × ExchangeSimulator Q) :=
  ex.orders[orderId]?.map fun o =>
    match ex.marketLevel o.order.side fallbackPrice with
    | some (price, availableQty) =>
      let fillQty := min o.order.qty availableQty
      let remainingQty := subI64 o.order.qty fillQty
      let status := if remainingQty = 0 then .filled else .partiallyFilled
      (o.order.report status fillQty price fillQty remainingQty none,
        ex.putOrder orderId
          { o with filledQty := fillQty, remainingQty := remainingQty, state := status })
    | none =>
      (o.order.report .rejected 0 0 0 o.order.qty (some "book empty"),
        ex.putOrder orderId { o with state := .rejected })

/-- Cancels what a market order could not fill. -/
def forceCancelPartialFill (ex : ExchangeSimulator Q) (orderId : ℕ) :
    Option (OrderReport × ExchangeSimulator Q) :=
  ex.orders[orderId]?.map fun o =>
    (o.order.report .cancelled 0 0 o.filledQty o.remainingQty
        (some "market order partial fill: remaining qty cancelled"),
      ex.putOrder orderId { o with state := .cancelled })

/-- Forgets an order. -/
def removeOrder (ex : ExchangeSimulator Q) (orderId : ℕ) : ExchangeSimulator Q :=
  match ex.orders[orderId]? with
  | none => ex
  | some o =>
    { ex with
      orders := ex.orders.erase orderId
      buckets := setBucket ex.buckets o.order.price o.order.side
        ((ex.buckets o.order.price o.order.side).erase orderId) }

/-- The side of the resting orders a trade can fill : `trade.side` is the aggressor's. -/
def makerSide : Side → Option Side
  | .buy => some .sell
  | .sell => some .buy
  | .none => none

/-- Offer the trade to order `orderId`, and add its report. -/
def offerTo (q : Q) (trade : Tick)
    (acc : ExtTreeMap ℕ (LiveOrder (QueueModel.State Q)) × List OrderReport) (orderId : ℕ) :
    ExtTreeMap ℕ (LiveOrder (QueueModel.State Q)) × List OrderReport :=
  match acc.1[orderId]? with
  | none => acc
  | some o => (acc.1.insert orderId (o.offer q trade).1, acc.2 ++ (o.offer q trade).2.toList)

/-- Offers a trade to the orders of its price on the other side, in the order of submission. -/
def onTrade (ex : ExchangeSimulator Q) (trade : Tick) : ExchangeSimulator Q × List OrderReport :=
  match makerSide trade.side with
  | none => (ex, [])
  | some side =>
    let (orders, reports) :=
      (ex.buckets trade.price side).foldl (offerTo ex.queueModel trade) (ex.orders, [])
    ({ ex with orders := orders }, reports)

end ExchangeSimulator

end Backtester
