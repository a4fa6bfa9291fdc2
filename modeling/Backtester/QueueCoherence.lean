import Backtester.BookLevels

/-!
# The queue ahead is coherent

The exact queue model keeps the venue orders ahead of an order, and next to them their total.
Trades, deletions and changes of quantity edit both, whatever the order in which they come and even
if venue orders share an id (`L3ExactQueueState.Coherent`). A trade takes its volume from the oldest
orders ahead, and fills the order only past all of them (`L3ExactQueue.coherence`).
-/

open KeyedQueue MachineInt

namespace Backtester

/-- Orders ahead of positive quantity, with their total. -/
structure L3ExactQueueState.Coherent (state : L3ExactQueueState) : Prop where
  qtyAhead : state.qtyAhead = total state.aheadOrders
  positive : ∀ entry ∈ state.aheadOrders, 0 < entry.2
  fits : total state.aheadOrders ≤ i64Max

namespace L3ExactQueueState.Coherent

variable {state : L3ExactQueueState} {n : ℕ} {v : ℤ}

/-- Sums between 0 and the largest `i64` do not saturate. -/
theorem clamp_of_mem {x : ℤ} (hnonneg : 0 ≤ x) (hmax : x ≤ i64Max) : clamp 64 x = x := by
  have hlit : i64Max = 9223372036854775807 := by norm_num [i64Max]
  exact clamp_eq_self ⟨by norm_num; omega, by norm_num; omega⟩

/-- A new list of orders ahead with its total. -/
theorem of_total {queue : List (ℕ × ℤ)} (hpos : ∀ entry ∈ queue, 0 < entry.2)
    (hfits : total queue ≤ i64Max) : Coherent ⟨total queue, queue⟩ := ⟨rfl, hpos, hfits⟩

theorem erase (h : state.Coherent) (n : ℕ) :
    Coherent ⟨total (state.aheadOrders.eraseP (·.1 = n)), state.aheadOrders.eraseP (·.1 = n)⟩ := by
  refine of_total (fun e he => h.positive e (List.mem_of_mem_eraseP he)) ?_
  have hle : total (state.aheadOrders.eraseP (·.1 = n)) ≤ total state.aheadOrders := by
    refine ((List.eraseP_sublist).map Prod.snd).sum_le_sum fun q hq => ?_
    obtain ⟨e, he, rfl⟩ := List.mem_map.1 hq
    exact (h.positive e he).le
  exact hle.trans h.fits

/-- The first order ahead of that id is taken out, with its quantity. -/
theorem removeAheadOrder_eq (h : state.Coherent) (n : ℕ) : state.removeAheadOrder n =
    ⟨total (state.aheadOrders.eraseP (·.1 = n)), state.aheadOrders.eraseP (·.1 = n)⟩ := by
  have hrest := h.erase n
  rw [L3ExactQueueState.removeAheadOrder]
  cases hfind : state.aheadOrders.find? (·.1 = n) with
  | none =>
    have hsame : (state.aheadOrders.eraseP fun e => e.1 = n) = state.aheadOrders :=
      List.eraseP_of_forall_not (List.find?_eq_none.1 hfind)
    rw [hsame, ← h.qtyAhead]
  | some entry =>
    obtain ⟨id, q⟩ := entry
    obtain rfl : id = n := by simpa using List.find?_some hfind
    have hnonneg := total_nonneg hrest.positive
    have hfits := hrest.fits
    dsimp only at hnonneg hfits ⊢
    rw [total_erase hfind] at hnonneg hfits ⊢
    rw [h.qtyAhead, satSubI64, clamp_of_mem hnonneg hfits]

theorem mem_put_pos (hv : 0 < v) {queue : List (ℕ × ℤ)} (hpos : ∀ entry ∈ queue, 0 < entry.2) :
    ∀ entry ∈ put n v queue, 0 < entry.2 := by
  rw [← OrderBookL3.setQty_eq]
  exact fun entry => pos_of_mem_setQty hv hpos entry

/-- The first order ahead of that id gets the new quantity. -/
theorem modifyAheadOrder_eq (h : state.Coherent) (n : ℕ) (hv : 0 < v)
    (hfits : total (put n v state.aheadOrders) ≤ i64Max) : state.modifyAheadOrder n v =
      ⟨total (put n v state.aheadOrders), put n v state.aheadOrders⟩ := by
  have hrest := h.erase n
  have hnew := total_nonneg (mem_put_pos (n := n) hv h.positive)
  rw [L3ExactQueueState.modifyAheadOrder]
  cases hfind : state.aheadOrders.find? (·.1 = n) with
  | none => rw [put_of_not_mem (find_eq_none_iff.1 hfind), ← h.qtyAhead]
  | some entry =>
    obtain ⟨id, q⟩ := entry
    obtain rfl : id = n := by simpa using List.find?_some hfind
    have hnonneg := total_nonneg hrest.positive
    have hold := hrest.fits
    dsimp only at hnonneg hold ⊢
    rw [total_erase hfind] at hnonneg hold
    rw [total_put hfind] at hfits hnew ⊢
    have hsub : satSubI64 state.qtyAhead q = total state.aheadOrders - q := by
      rw [h.qtyAhead, satSubI64, clamp_of_mem hnonneg hold]
    rw [hsub, satAddI64, clamp_of_mem hnew hfits, OrderBookL3.setQty_eq, if_neg hv.ne']

/-- Among positive quantities, only the one that was set to zero is not positive. -/
theorem filter_put_zero {queue : List (ℕ × ℤ)} (hpos : ∀ entry ∈ queue, 0 < entry.2) (n : ℕ) :
    (put n 0 queue).filter (0 < ·.2) = queue.eraseP (·.1 = n) := by
  induction queue with
  | nil => rfl
  | cons e queue ih =>
    have hrest : ∀ entry ∈ queue, 0 < entry.2 :=
      fun entry h => hpos entry (List.mem_cons_of_mem _ h)
    rw [put]
    split_ifs with hn
    · rw [List.filter_cons_of_neg (by simp), List.eraseP_cons_of_pos (by simpa using hn)]
      exact List.filter_eq_self.2 fun e' he' => decide_eq_true (hrest e' he')
    · rw [List.filter_cons_of_pos (by simpa using hpos e List.mem_cons_self),
        List.eraseP_cons_of_neg (by simpa using hn), ih hrest]

/-- Setting the quantity to zero takes the order out. -/
theorem modifyAheadOrder_zero (h : state.Coherent) (n : ℕ) :
    state.modifyAheadOrder n 0 = state.removeAheadOrder n := by
  rw [L3ExactQueueState.modifyAheadOrder, L3ExactQueueState.removeAheadOrder]
  cases hfind : state.aheadOrders.find? (·.1 = n) with
  | none => rfl
  | some entry =>
    obtain ⟨id, q⟩ := entry
    obtain rfl : id = n := by simpa using List.find?_some hfind
    have hzero : satAddI64 (satSubI64 state.qtyAhead q) 0 = satSubI64 state.qtyAhead q := by
      rw [satAddI64, add_zero]
      exact clamp_eq_self (clamp_inRange 64 _)
    dsimp only
    rw [hzero, if_pos rfl, OrderBookL3.setQty_eq, filter_put_zero h.positive]

end L3ExactQueueState.Coherent

/-- The loop takes `qty` from the oldest orders. -/
theorem takenFrom_consumeAheadOrders {queue : List (ℕ × ℤ)} (hpos : ∀ entry ∈ queue, 0 < entry.2)
    {qty : ℤ} (hqty : 0 ≤ qty) (hle : qty ≤ total queue) :
    TakenFrom queue qty (consumeAheadOrders queue qty) := by
  induction queue generalizing qty with
  | nil =>
    obtain rfl : qty = 0 := le_antisymm hle hqty
    exact .zero []
  | cons e queue ih =>
    obtain ⟨id, q⟩ := e
    have hq : 0 < q := hpos (id, q) List.mem_cons_self
    have htotal : total ((id, q) :: queue) = q + total queue := rfl
    rw [consumeAheadOrders]
    by_cases hsome : 0 < qty
    · rw [if_pos hsome]
      dsimp only
      by_cases hgone : q - min q qty = 0
      · have hmin : min q qty = q := by omega
        rw [if_pos hgone, hmin]
        exact (ih (fun e he => hpos e (List.mem_cons_of_mem _ he)) (by omega) (by omega)).cons
          (id, q)
      · have hmin : min q qty = qty := by omega
        rw [if_neg hgone, hmin]
        refine ⟨[], (id, q) :: queue, rfl, .inr ⟨id, q, queue, rfl, hsome, ?_, ?_⟩⟩
        · simp only [total, List.map_nil, List.sum_nil, zero_add]
          omega
        · simp [total]
    · obtain rfl : qty = 0 := by omega
      rw [if_neg hsome]
      exact .zero _

namespace L3ExactQueue

/-- If the update changes the quantity of a venue order ahead, the quantities still sum within
`i64`. -/
def Fitting (state : L3ExactQueueState) (update : L3Update) : Prop :=
  update.action = l3Modify →
    total (put update.orderId (max update.qty 0) state.aheadOrders) ≤ i64Max

instance (state : L3ExactQueueState) (update : L3Update) : Decidable (Fitting state update) :=
  inferInstanceAs (Decidable (_ → _))

/-- The states that an order's queue position can be in : it is registered on a book that followed
some updates, and then offered trades and updates. -/
inductive Reached (order : Order) : L3ExactQueueState → Prop
  | registerOrder (updates : List L3Update) (hfits : (OrderBookL3.follow updates).Fits) :
    Reached order
      (QueueModel.registerOrder (⟨⟩ : L3ExactQueue) order (OrderBookL3.follow updates).depth)
  | checkFill {state : L3ExactQueueState} (h : Reached order state) (remainingQty : ℤ)
      (trade : Tick) :
    Reached order (QueueModel.checkFill (⟨⟩ : L3ExactQueue) order remainingQty trade state).2
  | onL3Update {state : L3ExactQueueState} (h : Reached order state) (update : L3Update)
      (hfitting : Fitting state update) :
    Reached order (QueueModel.onL3Update (⟨⟩ : L3ExactQueue) order state update)

variable {order : Order} {state : L3ExactQueueState}

theorem coherent_registerOrder (order : Order) {updates : List L3Update}
    (hfits : (OrderBookL3.follow updates).Fits) : L3ExactQueueState.Coherent
      (QueueModel.registerOrder (⟨⟩ : L3ExactQueue) order (OrderBookL3.follow updates).depth) := by
  have hpos := (OrderBookL3.stocked_follow updates).queue order.side order.price
  have hrange := hfits.queue order.side order.price
  have hfirst :
    ((OrderBookL3.follow updates).ordersAhead order.side order.price order.orderId).Sublist
      ((OrderBookL3.follow updates).queue order.side order.price) := List.takeWhile_sublist _
  have hahead := fun entry he => hpos entry (hfirst.subset he)
  have hle : total ((OrderBookL3.follow updates).ordersAhead order.side order.price order.orderId) ≤
      total ((OrderBookL3.follow updates).queue order.side order.price) := by
    refine (hfirst.map Prod.snd).sum_le_sum fun q hq => ?_
    obtain ⟨e, he, rfl⟩ := List.mem_map.1 hq
    exact (hpos e he).le
  have hnonneg := total_nonneg hahead
  have hmax : total ((OrderBookL3.follow updates).queue order.side order.price) ≤ i64Max := by
    have hlit : i64Max = 9223372036854775807 := by norm_num [i64Max]
    have hupper := hrange.2
    norm_num at hupper
    omega
  have hwrap : InRange 64
      (total ((OrderBookL3.follow updates).ordersAhead order.side order.price order.orderId)) := by
    have hlit : i64Max = 9223372036854775807 := by norm_num [i64Max]
    exact ⟨by norm_num; omega, by norm_num; omega⟩
  exact ⟨wrap_eq_self (by norm_num) hwrap, hahead, hle.trans hmax⟩

/-- What a trade that reaches the order does : it takes its volume from the oldest orders ahead, and
what is left of it fills the order. -/
theorem checkFill_spec (h : state.Coherent) {remainingQty fill : ℤ} {trade : Tick}
    {state' : L3ExactQueueState} (hreaches : tradeReaches order remainingQty trade)
    (hcheck : QueueModel.checkFill (⟨⟩ : L3ExactQueue) order remainingQty trade state =
      (fill, state')) :
    0 < trade.qty ∧ TakenFrom state.aheadOrders (min state.qtyAhead trade.qty) state'.aheadOrders ∧
      state'.qtyAhead = state.qtyAhead - min state.qtyAhead trade.qty ∧
      fill = min (trade.qty - min state.qtyAhead trade.qty) remainingQty := by
  have hqty : 0 < trade.qty := by
    simp only [tradeReaches, Bool.and_eq_true, decide_eq_true_eq] at hreaches
    exact hreaches.1.2
  have hnonneg := total_nonneg h.positive
  rw [← h.qtyAhead] at hnonneg
  simp only [QueueModel.checkFill, if_pos hreaches, depleteAhead] at hcheck
  obtain ⟨rfl, rfl⟩ := Prod.mk.inj hcheck
  refine ⟨hqty, ?_⟩
  by_cases hahead : 0 < state.qtyAhead
  · simp only [if_pos hahead]
    refine ⟨takenFrom_consumeAheadOrders h.positive (by omega) ?_, trivial, trivial⟩
    rw [← h.qtyAhead]
    exact min_le_left _ _
  · have hmin : min state.qtyAhead trade.qty = 0 := by omega
    simp only [if_neg hahead, hmin, sub_zero]
    exact ⟨.zero _, trivial, trivial⟩

theorem checkFill_aside {remainingQty : ℤ} {trade : Tick}
    (haside : ¬tradeReaches order remainingQty trade) :
    QueueModel.checkFill (⟨⟩ : L3ExactQueue) order remainingQty trade state = (0, state) :=
  if_neg haside

theorem coherent_checkFill (h : state.Coherent) (remainingQty : ℤ) (trade : Tick) :
    L3ExactQueueState.Coherent
      (QueueModel.checkFill (⟨⟩ : L3ExactQueue) order remainingQty trade state).2 := by
  by_cases hreaches : tradeReaches order remainingQty trade
  · obtain ⟨hpos, htaken, hqty, -⟩ := checkFill_spec h hreaches (Prod.mk.eta).symm
    have htotal := htaken.total_eq
    have hnonneg := total_nonneg h.positive
    have hfits := h.fits
    have hahead := h.qtyAhead
    exact ⟨by rw [hqty, htotal, hahead], htaken.positive h.positive, by omega⟩
  · rw [checkFill_aside hreaches]
    exact h

theorem coherent_onL3Update (h : state.Coherent) {update : L3Update}
    (hfitting : Fitting state update) : L3ExactQueueState.Coherent
      (QueueModel.onL3Update (⟨⟩ : L3ExactQueue) order state update) := by
  simp only [QueueModel.onL3Update]
  split_ifs with hat hdelete hmodify
  · rw [h.removeAheadOrder_eq]
    exact h.erase update.orderId
  · rcases (le_max_right update.qty 0).eq_or_lt with hzero | hpos
    · rw [← hzero, h.modifyAheadOrder_zero, h.removeAheadOrder_eq]
      exact h.erase update.orderId
    · rw [h.modifyAheadOrder_eq update.orderId hpos (hfitting hmodify)]
      exact .of_total (L3ExactQueueState.Coherent.mem_put_pos hpos h.positive) (hfitting hmodify)
  · exact h
  · exact h

theorem Reached.coherent (h : Reached order state) : state.Coherent := by
  induction h with
  | registerOrder updates hfits => exact coherent_registerOrder order hfits
  | checkFill _ remainingQty trade ih => exact coherent_checkFill ih remainingQty trade
  | onL3Update _ update hfitting ih => exact coherent_onL3Update ih hfitting

/-- In every state that an order's queue position can be in, the quantity ahead is the total of the
orders ahead, which all have a positive quantity; the loop that a trade runs takes what it consumes
from the oldest of them; and a trade that fills the order leaves none ahead. -/
theorem coherence (h : Reached order state) :
    state.qtyAhead = (state.aheadOrders.map Prod.snd).sum ∧
      (∀ entry ∈ state.aheadOrders, 0 < entry.2) ∧
      (∀ qty, 0 ≤ qty → qty ≤ state.qtyAhead →
        TakenFrom state.aheadOrders qty (consumeAheadOrders state.aheadOrders qty)) ∧
      ∀ remainingQty trade fill state',
        QueueModel.checkFill (⟨⟩ : L3ExactQueue) order remainingQty trade state = (fill, state') →
        (tradeReaches order remainingQty trade →
          TakenFrom state.aheadOrders (min state.qtyAhead trade.qty) state'.aheadOrders) ∧
        (¬tradeReaches order remainingQty trade → state' = state) ∧
        (0 < fill → state'.qtyAhead = 0 ∧ state'.aheadOrders = []) := by
  have hstate := h.coherent
  refine ⟨hstate.qtyAhead, hstate.positive, fun qty hqty hle => ?_,
    fun remainingQty trade fill state' hcheck => ?_⟩
  · exact takenFrom_consumeAheadOrders hstate.positive hqty (hstate.qtyAhead ▸ hle)
  · by_cases hreaches : tradeReaches order remainingQty trade
    · obtain ⟨-, htaken, hqty, hfill⟩ := checkFill_spec hstate hreaches hcheck
      refine ⟨fun _ => htaken, fun hnot => absurd hreaches hnot, fun hpos => ?_⟩
      -- what fills the order is left of the trade after everything ahead
      have hall : min state.qtyAhead trade.qty = state.qtyAhead := by omega
      rw [hall] at htaken hqty
      rw [hstate.qtyAhead] at htaken
      exact ⟨hqty.trans (sub_self _), htaken.eq_nil hstate.positive⟩
    · rw [checkFill_aside hreaches] at hcheck
      obtain ⟨rfl, rfl⟩ := Prod.mk.inj hcheck
      exact ⟨fun h => absurd h hreaches, fun _ => rfl, fun hpos => absurd hpos (lt_irrefl 0)⟩

/-- Two venue orders share an id; a trade uses up the first and part of the second, the second
grows, and the next trade fills the order past everything ahead. -/
theorem coherence_sample :
    let order : Order := ⟨9, 0, 0, 0, 100, 3, 0, .buy, .limit⟩
    let updates : List L3Update :=
      [⟨1, 0, 0, 7, 100, 5, .buy, l3Add⟩, ⟨1, 1, 0, 7, 100, 3, .buy, l3Add⟩,
      ⟨1, 2, 0, 8, 100, 2, .buy, l3Add⟩]
    let sell (qty : ℤ) : Tick := ⟨2, 0, 0, 100, qty, 0, .sell, 0⟩
    let grown : L3Update := ⟨3, 3, 0, 7, 100, 4, .buy, l3Modify⟩
    let registered := QueueModel.registerOrder (⟨⟩ : L3ExactQueue) order
      (OrderBookL3.follow updates).depth
    let traded := (QueueModel.checkFill (⟨⟩ : L3ExactQueue) order 3 (sell 6) registered).2
    let state := QueueModel.onL3Update (⟨⟩ : L3ExactQueue) order traded grown
    state.aheadOrders = [(7, 4), (8, 2)] ∧ state.qtyAhead = (state.aheadOrders.map Prod.snd).sum ∧
      (QueueModel.checkFill (⟨⟩ : L3ExactQueue) order 3 (sell 9) state).2.aheadOrders = [] := by
  intro order updates sell grown registered traded state
  have hfits : (OrderBookL3.follow updates).Fits :=
    @OrderBookL3.fits_follow_of_place updates .buy 100 (by decide) (by decide)
  have hreached : Reached order state :=
    .onL3Update (.checkFill (.registerOrder updates hfits) 3 (sell 6)) grown (by decide +kernel)
  obtain ⟨hqty, -, -, hcheck⟩ := coherence hreached
  obtain ⟨-, -, hgone⟩ := hcheck 3 (sell 9) _ _ Prod.mk.eta.symm
  have hfill : 0 < (QueueModel.checkFill (⟨⟩ : L3ExactQueue) order 3 (sell 9) state).1 := by
    decide +kernel
  exact ⟨by decide +kernel, hqty, (hgone hfill).2⟩

end L3ExactQueue

end Backtester
