import Backtester.QueueCoherence

/-!
# The queue ahead follows the book

The book edits a queue of venue orders, and the queue model edits its own copy of the orders ahead.
As long as no trade takes from the copy, it is the part of the book's queue that was there when the
order was registered and has not left since (`L3ExactQueue.follows_book`).
-/

open History KeyedQueue MachineInt Std

set_option linter.unusedSectionVars false

namespace Backtester

/-- The update takes venue order `n` out of the queue at `side` and `price`. -/
def L3Update.Removes (update : L3Update) (side : Side) (price : ℤ) (n : ℕ) : Prop :=
  update.side = side ∧ update.price = price ∧ update.orderId = n ∧
    (update.action = l3Delete ∨ update.action = l3Modify ∧ update.qty = 0)

instance (update : L3Update) (side : Side) (price : ℤ) (n : ℕ) :
    Decidable (update.Removes side price n) := inferInstanceAs (Decidable (_ ∧ _))

/-- What a feed promises of its next update : the book accepts it, an added order does not rest at
its level, and the quantities of every level sum within `i64`. -/
structure FairUpdate (history : List L3Update) (update : L3Update) : Prop where
  fits : ∃ book, (OrderBookL3.follow history).applyL3 update = .ok book ∧ book.Fits
  unique : update.action = l3Add →
    update.orderId ∉ keys ((OrderBookL3.follow history).queue update.side update.price)

namespace L3ExactQueue

/-- The state of an order registered after `before`, once the model has seen `after`. -/
def tracked (order : Order) (before after : List L3Update) : L3ExactQueueState :=
  after.foldl (fun state update => QueueModel.onL3Update (⟨⟩ : L3ExactQueue) order state update)
    (QueueModel.registerOrder (⟨⟩ : L3ExactQueue) order (OrderBookL3.follow before).depth)

/-- The venue order was ahead when the order was registered, and no update took it out since. -/
def StillAhead (order : Order) (before after : List L3Update) (n : ℕ) : Prop :=
  n ∈ keys ((OrderBookL3.follow before).ordersAhead order.side order.price order.orderId) ∧
    ∀ update ∈ after, ¬update.Removes order.side order.price n

instance (order : Order) (before after : List L3Update) (n : ℕ) :
    Decidable (StillAhead order before after n) := inferInstanceAs (Decidable (_ ∧ _))

end L3ExactQueue

/-! ## The copy of the orders ahead -/

/-- A copy of distinct venue orders of positive quantity, with their total. -/
structure L3ExactQueueState.Sound (state : L3ExactQueueState) : Prop where
  distinct : (keys state.aheadOrders).Nodup
  positive : ∀ entry ∈ state.aheadOrders, 0 < entry.2
  qtyAhead : state.qtyAhead = total state.aheadOrders
  fits : total state.aheadOrders ≤ i64Max

namespace L3ExactQueueState.Sound

variable {state : L3ExactQueueState}

theorem coherent (h : state.Sound) : state.Coherent := ⟨h.qtyAhead, h.positive, h.fits⟩

theorem total_inRange (h : state.Sound) : InRange 64 (total state.aheadOrders) := by
  have hnonneg := total_nonneg h.positive
  have hfits := h.fits
  have hmax : i64Max = 9223372036854775807 := by norm_num [i64Max]
  exact ⟨by norm_num; omega, by norm_num; omega⟩

theorem filter (h : state.Sound) (p : ℕ → Bool) :
    let queue := state.aheadOrders.filter fun e => p e.1
    Sound ⟨total queue, queue⟩ := by
  refine ⟨?_, fun entry he => h.positive entry (List.mem_of_mem_filter he), rfl, ?_⟩
  · exact h.distinct.sublist (List.filter_sublist.map Prod.fst)
  · have hle : total (state.aheadOrders.filter fun e => p e.1) ≤ total state.aheadOrders := by
      refine (List.filter_sublist.map Prod.snd).sum_le_sum fun q hq => ?_
      obtain ⟨e, he, rfl⟩ := List.mem_map.1 hq
      exact (h.positive e he).le
    exact hle.trans h.fits

/-- Taking a venue order out. -/
theorem removeAheadOrder_eq (h : state.Sound) (n : ℕ) : state.removeAheadOrder n =
    ⟨total (state.aheadOrders.filter (·.1 ≠ n)), state.aheadOrders.filter (·.1 ≠ n)⟩ := by
  rw [h.coherent.removeAheadOrder_eq, erase_eq_filter h.distinct]

/-- Setting the quantity of a venue order to zero takes it out. -/
theorem modifyAheadOrder_zero (h : state.Sound) (n : ℕ) : state.modifyAheadOrder n 0 =
    ⟨total (state.aheadOrders.filter (·.1 ≠ n)), state.aheadOrders.filter (·.1 ≠ n)⟩ := by
  rw [h.coherent.modifyAheadOrder_zero, h.removeAheadOrder_eq]

end L3ExactQueueState.Sound

/-! ## The book -/

/-- A book as a fair feed makes it. -/
structure OrderBookL3.Fair (book : OrderBookL3) : Prop where
  distinct : ∀ side price, (keys (book.queue side price)).Nodup
  positive : ∀ side price, ∀ entry ∈ book.queue side price, 0 < entry.2
  fits : ∀ side price, total (book.queue side price) ≤ i64Max

variable {history before after : List L3Update} {order : Order} {update : L3Update}

theorem OrderBookL3.queue_empty (side : Side) (price : ℤ) :
    (({} : OrderBookL3).queue side price) = [] := by
  cases side <;> simp [queue, level, sideMap]

/-- A fair update of a book made by a fair feed. -/
theorem OrderBookL3.Fair.next (h : (OrderBookL3.follow history).Fair)
    (hfair : FairUpdate history update) :
    (OrderBookL3.follow (history ++ [update])).Fair := by
  obtain ⟨⟨book, happly, hfits⟩, hunique⟩ := hfair
  rw [follow_of_ok happly]
  refine ⟨fun side price => ?_, fun side price => ?_, fun side price => ?_⟩
  · rw [queue_applyL3 happly]
    split_ifs with hat
    · rcases (wellFormed_of_ok happly).onQueue_cases with ⟨hadd, -, heq⟩ | ⟨-, -, heq⟩ | ⟨-, heq⟩
      · rw [heq, keys, List.map_append, List.nodup_append]
        refine ⟨h.distinct _ _, List.nodup_singleton _, fun n hn m hm hnm => ?_⟩
        rw [hat.1, hat.2] at hn
        have hid : n = update.orderId := hnm.trans (by simpa using hm)
        exact hunique hadd (hid ▸ hn)
      · rw [heq, keys_put]
        exact h.distinct _ _
      · rw [heq]
        exact (h.distinct _ _).sublist (List.filter_sublist.map Prod.fst)
    · exact h.distinct _ _
  · exact follow_of_ok happly ▸ (stocked_follow (history ++ [update])).queue side price
  · have hupper := (hfits.queue side price).2
    have hmax : i64Max = 9223372036854775807 := by norm_num [i64Max]
    norm_num at hupper
    omega

theorem fair_follow (h : Always FairUpdate history) : (OrderBookL3.follow history).Fair := by
  induction history using List.reverseRecOn with
  | nil =>
    have hempty : ∀ side price, (OrderBookL3.follow []).queue side price = [] :=
      OrderBookL3.queue_empty
    refine ⟨fun side price => ?_, fun side price => ?_, fun side price => ?_⟩
    · simp [hempty, keys]
    · simp [hempty]
    · rw [hempty]
      norm_num [total, i64Max]
  | append_singleton history update ih =>
    obtain ⟨hdone, hlast⟩ := always_snoc.1 h
    exact (ih hdone).next hlast

/-- A feed stays fair with an update whose queue still fits. -/
theorem fair_snoc (h : Always FairUpdate history ∧ (OrderBookL3.follow history).Fits)
    (update : L3Update) (haccepted : ((OrderBookL3.follow history).applyL3 update).toBool = true)
    (hunique : update.action = l3Add →
      update.orderId ∉ keys ((OrderBookL3.follow history).queue update.side update.price))
    (hfits : InRange 64 (total (update.onQueue
      ((OrderBookL3.follow history).queue update.side update.price)))) :
    Always FairUpdate (history ++ [update]) ∧ (OrderBookL3.follow (history ++ [update])).Fits := by
  cases happly : (OrderBookL3.follow history).applyL3 update with
  | error err => simp [happly, Except.toBool] at haccepted
  | ok book =>
    have hbook : book.Fits := OrderBookL3.fits_of_queue fun side price => by
      rw [OrderBookL3.queue_applyL3 happly]
      split_ifs with hat
      · rwa [hat.1, hat.2]
      · exact h.2.queue side price
    exact ⟨always_snoc.2 ⟨h.1, ⟨⟨book, happly, hbook⟩, hunique⟩⟩,
      OrderBookL3.follow_of_ok happly ▸ hbook⟩

namespace L3ExactQueue

/-- The copy is the part of the book's queue that is still ahead, and all that is still ahead is in
the book. -/
structure Follows (order : Order) (before after : List L3Update) : Prop where
  aheadOrders : (tracked order before after).aheadOrders =
    ((OrderBookL3.follow (before ++ after)).queue order.side order.price).filter fun e =>
      StillAhead order before after e.1
  qtyAhead : (tracked order before after).qtyAhead = total (tracked order before after).aheadOrders
  present : ∀ n, StillAhead order before after n →
    n ∈ keys ((OrderBookL3.follow (before ++ after)).queue order.side order.price)

/-- The part of a fair queue that some keys choose, with its total. -/
theorem sound_filter {book : OrderBookL3} (h : book.Fair) (side : Side) (price : ℤ) (p : ℕ → Bool)
    {state : L3ExactQueueState}
    (hahead : state.aheadOrders = (book.queue side price).filter fun e => p e.1)
    (hqty : state.qtyAhead = total state.aheadOrders) : state.Sound := by
  have hall : L3ExactQueueState.Sound ⟨total (book.queue side price), book.queue side price⟩ :=
    ⟨h.distinct side price, h.positive side price, rfl, h.fits side price⟩
  have hpart := hall.filter p
  dsimp only at hpart
  rw [← hahead, ← hqty] at hpart
  exact hpart

theorem Follows.start (h : Always FairUpdate before) : Follows order before [] := by
  have hfair := fair_follow h
  have hfirst : (OrderBookL3.follow before).ordersAhead order.side order.price order.orderId <+:
      (OrderBookL3.follow before).queue order.side order.price := List.takeWhile_prefix _
  have hahead : (tracked order before []).aheadOrders =
      ((OrderBookL3.follow before).queue order.side order.price).filter fun e =>
        StillAhead order before [] e.1 := by
    have hsame := filter_mem_keys (hfair.distinct order.side order.price) hfirst
    have hnone : ∀ n, StillAhead order before [] n ↔ n ∈ keys
        ((OrderBookL3.follow before).ordersAhead order.side order.price order.orderId) :=
          fun n => by
      simp [StillAhead]
    simp only [hnone]
    exact hsame.symm
  have hsound : L3ExactQueueState.Sound
      ⟨total (tracked order before []).aheadOrders, (tracked order before []).aheadOrders⟩ :=
    sound_filter hfair order.side order.price (fun n => decide (StillAhead order before [] n))
      hahead rfl
  refine ⟨by rwa [List.append_nil], wrap_eq_self (by norm_num) hsound.total_inRange, fun n hn => ?_⟩
  rw [List.append_nil]
  exact (hfirst.sublist.map Prod.fst).subset hn.1

theorem stillAhead_snoc {n : ℕ} : StillAhead order before (after ++ [update]) n ↔
    StillAhead order before after n ∧ ¬update.Removes order.side order.price n := by
  simp only [StillAhead, List.mem_append, List.mem_singleton, or_imp, forall_and, forall_eq,
    and_assoc]

/-- An update that takes no venue order out of the order's level. -/
theorem stillAhead_snoc_of_not {n : ℕ} (h : ¬update.Removes order.side order.price n) :
    StillAhead order before (after ++ [update]) n ↔ StillAhead order before after n := by
  rw [stillAhead_snoc, and_iff_left h]

theorem tracked_snoc : tracked order before (after ++ [update]) =
    QueueModel.onL3Update (⟨⟩ : L3ExactQueue) order (tracked order before after) update := by
  simp [tracked]

/-- What an update at the order's level does to the copy. -/
theorem tracked_at (hsymbol : update.symbolId = order.symbolId)
    (hat : order.side = update.side ∧ order.price = update.price) :
    tracked order before (after ++ [update]) =
      if update.action = l3Delete then (tracked order before after).removeAheadOrder update.orderId
      else if update.action = l3Modify then
        (tracked order before after).modifyAheadOrder update.orderId (max update.qty 0)
      else tracked order before after := by
  rw [tracked_snoc]
  exact if_pos ⟨hsymbol, hat.1.symm, hat.2.symm⟩

/-- An update of the book's queue at the order's level keeps the copy the part that is still
ahead. -/
theorem Follows.at_level (h : Follows order before after)
    (hbook : (OrderBookL3.follow (before ++ after)).Fair)
    (hsymbol : update.symbolId = order.symbolId)
    (hat : order.side = update.side ∧ order.price = update.price) {book : OrderBookL3}
    (happly : (OrderBookL3.follow (before ++ after)).applyL3 update = .ok book) (hbook' : book.Fair)
    (hunique : update.action = l3Add →
      update.orderId ∉ keys
        ((OrderBookL3.follow (before ++ after)).queue update.side update.price)) :
    Follows order before (after ++ [update]) := by
  have hne : l3Add ≠ l3Modify ∧ l3Add ≠ l3Delete ∧ l3Modify ≠ l3Delete := by decide
  have hsound := sound_filter hbook order.side order.price
    (fun n => decide (StillAhead order before after n)) h.aheadOrders h.qtyAhead
  have hqueue := OrderBookL3.queue_applyL3 happly order.side order.price
  have htracked : tracked order before (after ++ [update]) =
      if update.action = l3Delete then (tracked order before after).removeAheadOrder update.orderId
      else if update.action = l3Modify then
        (tracked order before after).modifyAheadOrder update.orderId (max update.qty 0)
      else tracked order before after := tracked_at hsymbol hat
  rw [if_pos hat] at hqueue
  have hfollow : OrderBookL3.follow (before ++ (after ++ [update])) = book := by
    rw [← List.append_assoc, OrderBookL3.follow_of_ok happly]
  rcases (wellFormed_of_ok happly).onQueue_cases with ⟨hadd, -, heq⟩ | ⟨hmodify, hqty, heq⟩ |
    ⟨hremove, heq⟩
  · have hkept : ∀ n, StillAhead order before (after ++ [update]) n ↔
      StillAhead order before after n :=
      fun n => stillAhead_snoc_of_not fun hremoves => by
        simp [L3Update.Removes, hadd, hne] at hremoves
    have hgone : ¬StillAhead order before after update.orderId := fun hstill =>
      hunique hadd (hat.1 ▸ hat.2 ▸ h.present _ hstill)
    rw [if_neg (by simp [hadd, hne]), if_neg (by simp [hadd, hne])] at htracked
    refine ⟨?_, htracked ▸ h.qtyAhead, fun n hn => ?_⟩
    · simp only [hkept]
      rw [htracked, hfollow, hqueue, heq, List.filter_append, h.aheadOrders,
        List.filter_cons_of_neg (by simpa using hgone), List.filter_nil, List.append_nil]
    · rw [hfollow, hqueue, heq, keys, List.map_append]
      exact List.mem_append_left _ (h.present n ((hkept n).1 hn))
  · have hkept : ∀ n, StillAhead order before (after ++ [update]) n ↔
      StillAhead order before after n :=
      fun n => stillAhead_snoc_of_not fun hremoves => by
        simp [L3Update.Removes, hmodify, hne, hqty.ne'] at hremoves
    have hput : put update.orderId update.qty (tracked order before after).aheadOrders =
        (book.queue order.side order.price).filter fun e => StillAhead order before after e.1 := by
      rw [h.aheadOrders, hqueue, heq,
        filter_put (fun n => decide (StillAhead order before after n))]
    have hfits : total (put update.orderId update.qty (tracked order before after).aheadOrders) ≤
        i64Max := by
      have hpart : L3ExactQueueState.Sound ⟨total _, _⟩ :=
        sound_filter hbook' order.side order.price
          (fun n => decide (StillAhead order before after n)) rfl rfl
      exact hput ▸ hpart.fits
    rw [if_neg (by simp [hmodify, hne]), if_pos hmodify, max_eq_left hqty.le,
      hsound.coherent.modifyAheadOrder_eq _ hqty hfits] at htracked
    refine ⟨?_, by rw [htracked], fun n hn => ?_⟩
    · simp only [hkept]
      rw [htracked, hfollow]
      exact hput
    · rw [hfollow, hqueue, heq, keys_put]
      exact h.present n ((hkept n).1 hn)
  · have hremoves : ∀ n, update.Removes order.side order.price n ↔ n = update.orderId := fun n =>
      ⟨fun hr => hr.2.2.1.symm, fun hn => ⟨hat.1.symm, hat.2.symm, hn.symm, hremove⟩⟩
    have hkept : ∀ n, StillAhead order before (after ++ [update]) n ↔
        StillAhead order before after n ∧ n ≠ update.orderId := by
      intro n
      rw [stillAhead_snoc, hremoves]
    have hstate : tracked order before (after ++ [update]) =
        ⟨total ((tracked order before after).aheadOrders.filter (·.1 ≠ update.orderId)),
          (tracked order before after).aheadOrders.filter (·.1 ≠ update.orderId)⟩ := by
      rw [htracked]
      rcases hremove with hdelete | ⟨hmodify, hzero⟩
      · rw [if_pos hdelete, hsound.removeAheadOrder_eq]
      · rw [if_neg (by simp [hmodify, hne]), if_pos hmodify, hzero, max_eq_left le_rfl,
          hsound.modifyAheadOrder_zero]
    refine ⟨?_, by rw [hstate], fun n hn => ?_⟩
    · rw [hstate, hfollow, hqueue, heq, h.aheadOrders, List.filter_filter, List.filter_filter]
      refine List.filter_congr fun e _ => ?_
      rw [Bool.eq_iff_iff]
      simp only [hkept, Bool.and_eq_true, decide_eq_true_eq]
      tauto
    · obtain ⟨hstill, hother⟩ := (hkept n).1 hn
      rw [hfollow, hqueue, heq]
      exact (mem_keys_filter (p := fun m => decide (m ≠ update.orderId))).2
        ⟨h.present n hstill, decide_eq_true hother⟩

theorem Follows.next (h : Follows order before after) (hall : Always FairUpdate (before ++ after))
    (hfair : FairUpdate (before ++ after) update) (hsymbol : update.symbolId = order.symbolId) :
    Follows order before (after ++ [update]) := by
  have hbook := fair_follow hall
  have hbook' := hbook.next hfair
  obtain ⟨⟨book, happly, -⟩, hunique⟩ := hfair
  rw [OrderBookL3.follow_of_ok happly] at hbook'
  by_cases hat : order.side = update.side ∧ order.price = update.price
  · exact h.at_level hbook hsymbol hat happly hbook' hunique
  · have hsame : tracked order before (after ++ [update]) = tracked order before after := by
      rw [tracked_snoc]
      refine if_neg fun hmatch => hat ⟨hmatch.2.1.symm, hmatch.2.2.symm⟩
    have hkept : ∀ n, StillAhead order before (after ++ [update]) n ↔
        StillAhead order before after n :=
      fun n => stillAhead_snoc_of_not fun hremoves => hat ⟨hremoves.1.symm, hremoves.2.1.symm⟩
    have hqueue : book.queue order.side order.price =
        (OrderBookL3.follow (before ++ after)).queue order.side order.price := by
      rw [OrderBookL3.queue_applyL3 happly, if_neg hat]
    refine ⟨?_, hsame ▸ h.qtyAhead, fun n hn => ?_⟩
    · rw [hsame, h.aheadOrders, ← List.append_assoc, OrderBookL3.follow_of_ok happly, hqueue]
      simp only [hkept]
    · rw [← List.append_assoc, OrderBookL3.follow_of_ok happly, hqueue]
      exact h.present n ((hkept n).1 hn)

/-- Under a fair feed of the order's symbol, the copy of the orders ahead is the part of the book's
queue that was there when the order was registered and has not left since, and the quantity ahead is
its total. -/
theorem follows_book (hfair : Always FairUpdate (before ++ after))
    (hsymbol : ∀ update ∈ before ++ after, update.symbolId = order.symbolId) :
    (tracked order before after).aheadOrders =
        ((OrderBookL3.follow (before ++ after)).queue order.side order.price).filter
          (fun entry => StillAhead order before after entry.1) ∧
      (tracked order before after).qtyAhead =
        ((tracked order before after).aheadOrders.map Prod.snd).sum := by
  have hbefore : Always FairUpdate before := fun pre update post heq =>
    hfair pre update (post ++ after) (by rw [heq, List.append_assoc, List.cons_append])
  have hfollows : Follows order before after := by
    induction after using List.reverseRecOn with
    | nil => exact .start hbefore
    | append_singleton after update ih =>
      rw [← List.append_assoc] at hfair hsymbol
      obtain ⟨hdone, hlast⟩ := always_snoc.1 hfair
      exact (ih hdone fun u hu => hsymbol u (List.mem_append_left _ hu)).next hdone hlast
        (hsymbol update (by simp))
  exact ⟨hfollows.aheadOrders, hfollows.qtyAhead⟩

/-- Of three venue orders, one is ahead and grows, one leaves and comes back behind, and one comes
after the order. -/
theorem follows_book_sample :
    let order : Order := ⟨9, 0, 0, 0, 100, 3, 1, .buy, .limit⟩
    let before :
      List L3Update := [⟨1, 0, 1, 10, 100, 5, .buy, l3Add⟩, ⟨1, 1, 1, 20, 100, 4, .buy, l3Add⟩]
    let after :
      List L3Update := [⟨2, 2, 1, 20, 100, 0, .buy, l3Delete⟩, ⟨2, 3, 1, 30, 100, 8, .buy, l3Add⟩,
      ⟨2, 4, 1, 20, 100, 2, .buy, l3Add⟩, ⟨2, 5, 1, 10, 100, 6, .buy, l3Modify⟩]
    (tracked order before after).aheadOrders = [(10, 6)] ∧
      (tracked order before after).qtyAhead = 6 := by
  intro order before after
  have hfair : Always FairUpdate (before ++ after) := by
    have h₀ : Always FairUpdate [] ∧ (OrderBookL3.follow []).Fits :=
      ⟨always_nil, fun price queue hlevel => by simp [OrderBookL3.follow] at hlevel⟩
    have h₁ := fair_snoc h₀ (before.get 0) (by decide +kernel) (by decide +kernel)
      (by decide +kernel)
    have h₂ := fair_snoc h₁ (before.get 1) (by decide +kernel) (by decide +kernel)
      (by decide +kernel)
    have h₃ := fair_snoc h₂ (after.get 0) (by decide +kernel) (by decide +kernel)
      (by decide +kernel)
    have h₄ := fair_snoc h₃ (after.get 1) (by decide +kernel) (by decide +kernel)
      (by decide +kernel)
    have h₅ := fair_snoc h₄ (after.get 2) (by decide +kernel) (by decide +kernel)
      (by decide +kernel)
    have h₆ := fair_snoc h₅ (after.get 3) (by decide +kernel) (by decide +kernel)
      (by decide +kernel)
    exact h₆.1
  have hsymbol : ∀ update ∈ before ++ after, update.symbolId = order.symbolId := by decide
  obtain ⟨hahead, hqty⟩ := follows_book hfair hsymbol
  have hpart : (tracked order before after).aheadOrders = [(10, 6)] :=
    hahead.trans (by decide +kernel)
  exact ⟨hpart, by rw [hqty, hpart]; rfl⟩

end L3ExactQueue

end Backtester
