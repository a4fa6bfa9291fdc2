import Backtester.VenueQueue

/-!
# Where a new order joins the queue

The quantity ahead that a queue model records for a new order, against the quantity of its level.
The models ask the book by different methods. `L3ExactQueue` takes the entries before the order's
own id, which a venue order may have too, and which an L2 book does not know.
-/

open MachineInt Std

namespace Backtester

/-- The queue models that record a quantity ahead. -/
inductive PositionModel where
  | conservative
  | volumeClock
  | l3Exact
  deriving DecidableEq, Repr

/-- The quantity ahead that `register_order` records. -/
def PositionModel.recorded (order : Order) (depth : MarketDepth) : PositionModel → ℤ
  | conservative =>
    ConservativeQueueState.qtyAhead (QueueModel.registerOrder (⟨⟩ : ConservativeQueue) order depth)
  | volumeClock =>
    VolumeClockQueueState.queuePos (QueueModel.registerOrder (⟨⟩ : VolumeClockQueue) order depth)
  | l3Exact => L3ExactQueueState.qtyAhead (QueueModel.registerOrder (⟨⟩ : L3ExactQueue) order depth)

/-- The venue orders from the first that has the order's own id. -/
def OrderBookL3.fromOwnId (book : OrderBookL3) (order : Order) : List (ℕ × ℤ) :=
  (book.queue order.side order.price).dropWhile (·.1 ≠ order.orderId)

theorem fromOwnId_eq_nil_iff {book : OrderBookL3} {order : Order} : book.fromOwnId order = [] ↔
    ∀ entry ∈ book.queue order.side order.price, entry.1 ≠ order.orderId := by
  simp [OrderBookL3.fromOwnId, List.dropWhile_eq_nil_iff]

/-- The entries ahead and those from the own id on make up the level. -/
theorem recorded_l3_iff (book : OrderBookL3) (order : Order) :
    PositionModel.l3Exact.recorded order book.depth = book.levelQty order.side order.price ↔
      queueQty (book.fromOwnId order) = 0 := by
  have hsplit : ((book.ordersAhead order.side order.price order.orderId).map Prod.snd).sum +
      ((book.fromOwnId order).map Prod.snd).sum =
        ((book.queue order.side order.price).map Prod.snd).sum := by
    rw [← List.sum_append, ← List.map_append, OrderBookL3.ordersAhead_eq, OrderBookL3.fromOwnId,
      List.takeWhile_append_dropWhile]
  rw [OrderBookL3.levelQty_eq, queueQty, queueQty, ← hsplit, ← wrap_add_eq_iff]
  rfl

/-- A new order joins at the back of its level, unless `L3ExactQueue` reads an L2 book whose level
is not empty, or an L3 book whose level has quantity from the order's own id on. -/
theorem joins_at_back_iff (model : PositionModel) (order : Order) (l2 : List L2Update)
    (l3 : List L3Update) :
    (model.recorded order (OrderBookL2.follow l2).depth =
        (OrderBookL2.follow l2).levelQty order.side order.price ↔
      model ≠ .l3Exact ∨ (OrderBookL2.follow l2).levelQty order.side order.price = 0) ∧
    (model.recorded order (OrderBookL3.follow l3).depth =
        (OrderBookL3.follow l3).levelQty order.side order.price ↔
      model ≠ .l3Exact ∨ queueQty ((OrderBookL3.follow l3).fromOwnId order) = 0) := by
  cases model with
  | conservative => exact ⟨iff_of_true rfl (.inl (by simp)), iff_of_true rfl (.inl (by simp))⟩
  | volumeClock => exact ⟨iff_of_true rfl (.inl (by simp)), iff_of_true rfl (.inl (by simp))⟩
  | l3Exact =>
    have hnone : PositionModel.l3Exact.recorded order (OrderBookL2.follow l2).depth = 0 := rfl
    rw [hnone, recorded_l3_iff, eq_comm]
    simp

/-- Where the quantities of the level sum within `i64`, there is quantity from the own id on exactly
when a venue order has that id. -/
theorem queueQty_fromOwnId_iff (l3 : List L3Update) (order : Order)
    (fits : InRange 64 (((OrderBookL3.follow l3).queue order.side order.price).map Prod.snd).sum) :
    queueQty ((OrderBookL3.follow l3).fromOwnId order) = 0 ↔
      ∀ entry ∈ (OrderBookL3.follow l3).queue order.side order.price, entry.1 ≠ order.orderId := by
  have hpos := (OrderBookL3.stocked_follow l3).queue order.side order.price
  rw [← fromOwnId_eq_nil_iff]
  generalize OrderBookL3.follow l3 = book at *
  constructor
  · intro hzero
    by_contra hne
    obtain ⟨entry, rest, hrest⟩ := List.exists_cons_of_ne_nil hne
    have hsub : (book.fromOwnId order).Sublist (book.queue order.side order.price) :=
      (List.dropWhile_suffix _).sublist
    have hle : ((book.fromOwnId order).map Prod.snd).sum ≤
        ((book.queue order.side order.price).map Prod.snd).sum := by
      refine (hsub.map Prod.snd).sum_le_sum fun q hq => ?_
      obtain ⟨e, he, rfl⟩ := List.mem_map.1 hq
      exact (hpos e he).le
    have hposSum : 0 < ((book.fromOwnId order).map Prod.snd).sum := by
      rw [hrest, List.map_cons, List.sum_cons]
      have hhead : 0 < entry.2 := hpos entry (hsub.subset (by simp [hrest]))
      have htail : 0 ≤ (rest.map Prod.snd).sum := List.sum_nonneg fun q hq => by
        obtain ⟨e, he, rfl⟩ := List.mem_map.1 hq
        exact (hpos e (hsub.subset (by simp [hrest, he]))).le
      omega
    obtain ⟨-, hupper⟩ := fits
    rw [queueQty, wrap_eq_self (by norm_num) ⟨by norm_num; omega, by omega⟩] at hzero
    omega
  · intro hnil
    rw [hnil]
    rfl

/-- Behind a venue order of five, an order of another id, one of the same id, and one of another id
on an L2 book. -/
theorem joins_ahead :
    let order (id : ℕ) : Order := ⟨id, 0, 0, 0, 100, 3, 1, .buy, .limit⟩
    let l3 := OrderBookL3.follow [⟨1, 0, 1, 1, 100, 5, .buy, l3Add⟩]
    let l2 := OrderBookL2.follow [⟨1, 0, 100, 5, 1, .buy⟩]
    l3.levelQty .buy 100 = 5 ∧ PositionModel.l3Exact.recorded (order 2) l3.depth = 5 ∧
      PositionModel.l3Exact.recorded (order 1) l3.depth = 0 ∧ l2.levelQty .buy 100 = 5 ∧
      PositionModel.l3Exact.recorded (order 2) l2.depth = 0 := by
  decide +kernel

end Backtester
