import Backtester.VenueQueue

/-!
# What a rejected update leaves behind

`apply_l3_update` moves the queue states of the live orders before the book validates the update. A
queue model that keeps a snapshot of the venue orders ahead (`SnapshotQueueModel`) reads a negative
quantity as zero, so a MODIFY that the book rejects takes a venue order out of the snapshots it is
in (`ExchangeSimulator.rejected_unchanged_iff`).
-/

open History KeyedQueue Std

set_option linter.unusedSectionVars false

namespace Backtester

/-- The update is for the level of the order. -/
def L3Update.IsAtLevelOf (update : L3Update) (order : Order) : Prop :=
  update.symbolId = order.symbolId ∧ update.side = order.side ∧ update.price = order.price

/-- A queue model whose states may keep a snapshot of venue orders. -/
class SnapshotQueueModel (Q : Type) [QueueModel Q] where
  /-- The ids of the venue orders in the snapshot. -/
  snapshot : Q → QueueModel.State Q → List ℕ
  registerOrder : ∀ (q : Q) (order : Order) (depth : MarketDepth) (n : ℕ),
    n ∈ snapshot q (QueueModel.registerOrder q order depth) →
    n ∈ keys (depth.ordersAhead order.side order.price order.orderId)
  checkFill :
    ∀ (q : Q) (order : Order) (remainingQty : ℤ) (trade : Tick) (state : QueueModel.State Q)
    (n : ℕ), n ∈ snapshot q (QueueModel.checkFill q order remainingQty trade state).2 →
    n ∈ snapshot q state
  onL3Update : ∀ (q : Q) (order : Order) (state : QueueModel.State Q) (update : L3Update) (n : ℕ),
    n ∈ snapshot q (QueueModel.onL3Update q order state update) → n ∈ snapshot q state
  /-- An update that takes no order of the snapshot out, or sets its quantity, changes nothing. -/
  ignored : ∀ (q : Q) (order : Order) (state : QueueModel.State Q) (update : L3Update),
    ¬(update.IsAtLevelOf order ∧ (update.action = l3Delete ∨ update.action = l3Modify) ∧
      update.orderId ∈ snapshot q state) → QueueModel.onL3Update q order state update = state
  /-- A negative quantity takes an order of the snapshot out. -/
  moved : ∀ (q : Q) (order : Order) (state : QueueModel.State Q) (update : L3Update),
    update.IsAtLevelOf order → update.action = l3Modify → update.qty < 0 →
    update.orderId ∈ snapshot q state → QueueModel.onL3Update q order state update ≠ state

instance : SnapshotQueueModel NoopQueue where
  snapshot _ _ := []
  registerOrder _ _ _ _ h := by cases h
  checkFill _ _ _ _ _ _ h := h
  onL3Update _ _ _ _ _ h := h
  ignored _ _ _ _ _ := rfl
  moved _ _ _ _ _ _ _ h := by cases h

instance : SnapshotQueueModel ConservativeQueue where
  snapshot _ _ := []
  registerOrder _ _ _ _ h := by cases h
  checkFill _ _ _ _ _ _ h := h
  onL3Update _ _ _ _ _ h := h
  ignored _ _ _ _ _ := rfl
  moved _ _ _ _ _ _ _ h := by cases h

instance : SnapshotQueueModel VolumeClockQueue where
  snapshot _ _ := []
  registerOrder _ _ _ _ h := by cases h
  checkFill _ _ _ _ _ _ h := h
  onL3Update _ _ _ _ _ h := h
  ignored _ _ _ _ _ := rfl
  moved _ _ _ _ _ _ _ h := by cases h

theorem keys_consumeAheadOrders {n : ℕ} : ∀ {queue : List (ℕ × ℤ)} {qty : ℤ},
    n ∈ keys (consumeAheadOrders queue qty) → n ∈ keys queue
  | [], _, h => h
  | (id, q) :: queue, qty, h => by
    rw [consumeAheadOrders] at h
    dsimp only at h
    split_ifs at h
    · exact List.mem_cons_of_mem _ (keys_consumeAheadOrders h)
    · exact h
    · exact h

theorem keys_removeAheadOrder {state : L3ExactQueueState} {m n : ℕ}
    (h : n ∈ keys (state.removeAheadOrder m).aheadOrders) : n ∈ keys state.aheadOrders := by
  unfold L3ExactQueueState.removeAheadOrder at h
  split at h
  · exact h
  · exact (List.eraseP_sublist.map Prod.fst).subset h

theorem keys_modifyAheadOrder {state : L3ExactQueueState} {m n : ℕ} {v : ℤ}
    (h : n ∈ keys (state.modifyAheadOrder m v).aheadOrders) : n ∈ keys state.aheadOrders := by
  unfold L3ExactQueueState.modifyAheadOrder at h
  split at h
  · exact h
  · dsimp only at h
    rw [OrderBookL3.setQty_eq] at h
    split_ifs at h
    · exact keys_put m v state.aheadOrders ▸ (List.filter_sublist.map Prod.fst).subset h
    · rwa [keys_put] at h

theorem removeAheadOrder_of_not_mem {state : L3ExactQueueState} {n : ℕ}
    (h : n ∉ keys state.aheadOrders) : state.removeAheadOrder n = state := by
  rw [L3ExactQueueState.removeAheadOrder, find_eq_none_iff.2 h]

theorem modifyAheadOrder_of_not_mem {state : L3ExactQueueState} {n : ℕ} {v : ℤ}
    (h : n ∉ keys state.aheadOrders) : state.modifyAheadOrder n v = state := by
  rw [L3ExactQueueState.modifyAheadOrder, find_eq_none_iff.2 h]

/-- Setting a quantity to zero shortens the snapshot. -/
theorem modifyAheadOrder_zero_ne {state : L3ExactQueueState} {n : ℕ}
    (h : n ∈ keys state.aheadOrders) :
    state.modifyAheadOrder n 0 ≠ state := by
  intro hsame
  have hahead := congrArg L3ExactQueueState.aheadOrders hsame
  unfold L3ExactQueueState.modifyAheadOrder at hahead
  split at hahead
  · next hfind => exact find_eq_none_iff.1 hfind h
  · dsimp only at hahead
    rw [if_pos rfl, OrderBookL3.setQty_eq] at hahead
    have hlength : ((put n 0 state.aheadOrders).filter (0 < ·.2)).length =
        (put n 0 state.aheadOrders).length := by
      have hkeys := congrArg List.length (keys_put n 0 state.aheadOrders)
      rw [keys, keys, List.length_map, List.length_map] at hkeys
      rw [hahead, hkeys]
    have hpos := List.length_filter_eq_length_iff.1 hlength _ (mem_put h 0)
    simp at hpos

instance : SnapshotQueueModel L3ExactQueue where
  snapshot _ state := keys (L3ExactQueueState.aheadOrders state)
  registerOrder _ _ _ _ h := h
  checkFill _ order remainingQty trade state n h := by
    simp only [QueueModel.checkFill] at h
    split at h
    · dsimp only at h
      split_ifs at h
      · exact keys_consumeAheadOrders h
      · exact h
    · exact h
  onL3Update _ order state update n h := by
    simp only [QueueModel.onL3Update] at h
    split_ifs at h
    · exact keys_removeAheadOrder h
    · exact keys_modifyAheadOrder h
    · exact h
    · exact h
  ignored _ order state update h := by
    simp only [QueueModel.onL3Update]
    split_ifs with hat hdelete hmodify
    · exact removeAheadOrder_of_not_mem fun hmem => h ⟨hat, .inl hdelete, hmem⟩
    · exact modifyAheadOrder_of_not_mem fun hmem => h ⟨hat, .inr hmodify, hmem⟩
    · rfl
    · rfl
  moved _ order state update hat hmodify hqty hmem := by
    have hne : l3Modify ≠ l3Delete := by decide
    have hcall : QueueModel.onL3Update (⟨⟩ : L3ExactQueue) order state update =
        L3ExactQueueState.modifyAheadOrder state update.orderId 0 := by
      rw [← max_eq_right hqty.le]
      exact (if_pos hat).trans ((if_neg (hmodify ▸ hne)).trans (if_pos hmodify))
    exact hcall ▸ modifyAheadOrder_zero_ne hmem

variable {Q : Type} [QueueModel Q] [SnapshotQueueModel Q]

namespace ExchangeSimulator

/-- The orders of an L2 simulator, and those without a side, keep no snapshot. -/
def Unwatched (ex : ExchangeSimulator Q) : Prop :=
  ∀ (n : ℕ) o, ex.orders[n]? = some o → ex.bookL3 = none ∨ o.order.side = .none →
    ∀ m, m ∉ SnapshotQueueModel.snapshot ex.queueModel o.queueState

variable {ex ex₀ : ExchangeSimulator Q} {op : ExchangeOp} {ops : List ExchangeOp} {ids : List ℕ}
  {o o' : LiveOrder (QueueModel.State Q)} {rs : List OrderReport} {n : ℕ}

/-- No operation adds to a snapshot. -/
theorem Change.snapshot (h : Change ex op o o' rs)
    (hn : n ∈ SnapshotQueueModel.snapshot ex.queueModel o'.queueState) :
    n ∈ SnapshotQueueModel.snapshot ex.queueModel o.queueState := by
  cases h with
  | @follow _ update =>
    unfold LiveOrder.followL3 at hn
    split at hn
    · exact SnapshotQueueModel.onL3Update _ _ _ _ _ hn
    · exact SnapshotQueueModel.onL3Update _ _ _ _ _ hn
    · exact SnapshotQueueModel.onL3Update _ _ _ _ _ hn
    · exact hn
  | @offer _ trade =>
    rcases offer_cases ex.queueModel trade o with ⟨-, heq⟩ | ⟨-, heq⟩ | ⟨-, -, -, heq⟩
    · rwa [heq] at hn
    · rw [heq] at hn
      exact SnapshotQueueModel.checkFill _ _ _ _ _ _ hn
    · rw [heq] at hn
      exact SnapshotQueueModel.checkFill _ _ _ _ _ _ hn
  | _ => exact hn

/-- A simulator that is L2 after a call was so before. -/
theorem bookL3_of_perform (h : (ex.perform op).1.bookL3 = none) : ex.bookL3 = none := by
  cases op with
  | applyL2Update update => exact h
  | applyL3Update update =>
    simp only [perform, applyL3Update] at h
    split at h
    · assumption
    · split at h <;> simp_all
  | _ => exact (ex.books_perform (by simp) (by simp)).2.symm.trans h

/-- An L2 simulator shows no venue orders, and no simulator shows any without a side. -/
theorem ordersAhead_eq_nil {side : Side} {price : ℤ} (h : ex.bookL3 = none ∨ side = .none) :
    ex.depth.ordersAhead side price n = [] := by
  unfold depth
  cases hbook : ex.bookL3 with
  | none => rfl
  | some bookL3 =>
    obtain rfl : side = .none := h.resolve_left (by simp [hbook])
    rfl

theorem Unwatched.perform (h : ex.Unwatched) (hindexed : ex.Indexed ids)
    (fresh : ∀ n, op.submitted = some n → n ∉ ids) : (ex.perform op).1.Unwatched := by
  intro n o' ho' hmode m hm
  rw [queueModel_perform] at hm
  have hmode' : ex.bookL3 = none ∨ o'.order.side = .none := hmode.imp_left bookL3_of_perform
  by_cases hs : op.submitted = some n
  · cases op with
    | submitOrder order =>
      obtain rfl : order.orderId = n := Option.some.inj hs
      have hnew := (getElem?_submitOrder order order.orderId).symm.trans ho'
      rw [if_pos rfl] at hnew
      rw [← Option.some.inj hnew] at hm hmode'
      have hahead := SnapshotQueueModel.registerOrder _ _ _ _ hm
      rw [ordersAhead_eq_nil hmode'] at hahead
      cases hahead
    | _ => cases hs
  · cases hold : ex.orders[n]? with
    | none =>
      rw [(absent_perform hindexed hold hs).1] at ho'
      cases ho'
    | some o =>
      rcases change_of_stored hindexed fresh hold ho' with ⟨rfl, -⟩ | ⟨-, hchange⟩
      · exact h n o' hold hmode' m hm
      · rw [hchange.order_eq.1] at hmode'
        exact h n o hold hmode' m (hchange.snapshot hm)

theorem unwatched_session (hnew : ex₀.IsNew) (hops : Always Fresh ops) :
    (ex₀.session ops).1.Unwatched := by
  induction ops using List.reverseRecOn with
  | nil =>
    intro n o ho
    obtain ⟨q, rfl | rfl⟩ := hnew <;> simp [new, newL3] at ho
  | append_singleton ops op ih =>
    obtain ⟨hdone, hlast⟩ := always_snoc.1 hops
    rw [session_snoc]
    exact (ih hdone).perform (indexed_session hnew hdone) hlast

/-- A live order at the level of the update has the update's venue order in its snapshot. -/
def Snapshots (ex : ExchangeSimulator Q) (update : L3Update) : Prop :=
  ∃ (n : ℕ) (o : LiveOrder (QueueModel.State Q)), ex.orders[n]? = some o ∧
    (o.state = .pendingNew ∨ o.state = .open ∨ o.state = .partiallyFilled) ∧
    update.IsAtLevelOf o.order ∧
    update.orderId ∈ SnapshotQueueModel.snapshot ex.queueModel o.queueState

/-- A rejected update has moved the queue states, and the book did not take it. -/
theorem applyL3Update_of_error {update : L3Update} {err : String}
    (h : (ex.applyL3Update update).2 = .error err) :
    (ex.applyL3Update update).1 =
      { ex with
        orders := ex.orders.map fun _ live => LiveOrder.followL3 ex.queueModel update live } ∧
    ∀ bookL3, ex.bookL3 = some bookL3 → bookL3.applyL3 update = .error err := by
  simp only [applyL3Update] at h ⊢
  cases hbook : ex.bookL3 with
  | none => exact ⟨rfl, by simp⟩
  | some bookL3 =>
    simp only [hbook] at h ⊢
    cases happly : bookL3.applyL3 update with
    | error err' =>
      rw [happly] at h
      have herr : (Except.error err' : Except String OrderBookL3) = .error err :=
        congrArg Except.error (Except.error.inj h)
      refine ⟨rfl, ?_⟩
      rintro book ⟨⟩
      exact happly.trans herr
    | ok book =>
      rw [happly] at h
      cases h

/-- Whether an order is as before a rejected update. -/
theorem followL3_eq_iff (q : Q) (update : L3Update) (o : LiveOrder (QueueModel.State Q)) :
    o.followL3 q update = o ↔
      ¬((o.state = .pendingNew ∨ o.state = .open ∨ o.state = .partiallyFilled) ∧
      QueueModel.onL3Update q o.order o.queueState update ≠ o.queueState) := by
  obtain ⟨order, state, filledQty, remainingQty, queueState⟩ := o
  cases state <;> simp [LiveOrder.followL3]

theorem map_eq_self_iff {α : Type} {t : ExtTreeMap ℕ α} {f : α → α} :
    (t.map fun _ x => f x) = t ↔ ∀ (n : ℕ) x, t[n]? = some x → f x = x := by
  constructor
  · intro h n x hx
    have hn : (t.map fun _ x => f x)[n]? = t[n]? := by rw [h]
    rw [ExtTreeMap.getElem?_map, hx] at hn
    exact Option.some.inj hn
  · intro h
    refine ExtTreeMap.ext_getElem? fun {n} => ?_
    rw [ExtTreeMap.getElem?_map]
    cases hx : t[n]? with
    | none => rfl
    | some x => exact congrArg some (h n x hx)

/-- A rejected update leaves the simulator as it was, unless it is a MODIFY of negative quantity for
a venue order in the snapshot of a live order at its level. -/
theorem rejected_unchanged_iff (hnew : ex₀.IsNew) (hops : Always Fresh ops) {update : L3Update}
    {err : String} (hrejected : ((ex₀.session ops).1.applyL3Update update).2 = .error err) :
    ((ex₀.session ops).1.applyL3Update update).1 = (ex₀.session ops).1 ↔
      ¬(update.action = l3Modify ∧ update.qty < 0 ∧ (ex₀.session ops).1.Snapshots update) := by
  have hunwatched := unwatched_session hnew hops
  generalize (ex₀.session ops).1 = ex at *
  obtain ⟨hmoved, hbook⟩ := applyL3Update_of_error hrejected
  have hsame : (ex.applyL3Update update).1 = ex ↔
      ∀ (n : ℕ) o, ex.orders[n]? = some o → o.followL3 ex.queueModel update = o := by
    rw [hmoved, ← map_eq_self_iff]
    exact ⟨fun h => congrArg ExchangeSimulator.orders h, fun h => by rw [h]⟩
  rw [hsame]
  constructor
  · rintro hall ⟨hmodify, hqty, n, o, ho, hstate, hat, hmem⟩
    exact (followL3_eq_iff _ _ _).1 (hall n o ho)
      ⟨hstate, SnapshotQueueModel.moved _ _ _ _ hat hmodify hqty hmem⟩
  · intro hnone n o ho
    refine (followL3_eq_iff _ _ _).2 ?_
    rintro ⟨hstate, hmoves⟩
    refine hmoves (SnapshotQueueModel.ignored _ _ _ _ ?_)
    rintro ⟨hat, haction, hmem⟩
    have hl3 : ex.bookL3 ≠ none := fun hl2 => hunwatched n o ho (.inl hl2) _ hmem
    have hside : update.side ≠ .none := fun heq => hunwatched n o ho (.inr (hat.2.1 ▸ heq)) _ hmem
    obtain ⟨bookL3, hsome⟩ := Option.ne_none_iff_exists'.1 hl3
    have herror := hbook bookL3 hsome
    -- of the updates that move an order's snapshot, a book rejects only those of negative quantity
    have hmalformed : ¬update.WellFormed := fun hwell => by
      obtain ⟨book', hok⟩ := hwell.applies bookL3
      rw [hok] at herror
      cases herror
    have hsides : update.side = .buy ∨ update.side = .sell := by
      cases hs : update.side <;> simp_all
    rcases haction with hdelete | hmodify
    · exact hmalformed ⟨hsides, .inr (.inr hdelete)⟩
    · by_cases hqty : update.qty < 0
      · exact hnone ⟨hmodify, hqty, n, o, ho, hstate, hat, hmem⟩
      · exact hmalformed ⟨hsides, .inr (.inl ⟨hmodify, by omega⟩)⟩

/-- An order behind a venue order of five. -/
def behindFive : List ExchangeOp :=
  [.applyL3Update ⟨1, 0, 1, 7, 100, 5, .buy, l3Add⟩,
    .submitOrder ⟨1, 0, 0, 0, 100, 3, 1, .buy, .limit⟩,
    .ackNew 1]

/-- A MODIFY that the book rejects puts the order at the front of the queue. -/
theorem rejected_changed :
    let ex := ((newL3 (⟨⟩ : L3ExactQueue)).session behindFive).1
    let update : L3Update := ⟨2, 1, 1, 7, 100, -1, .buy, l3Modify⟩
    (ex.applyL3Update update).2.toBool = false ∧
      ex.orders[1]?.map LiveOrder.queueState = some (⟨5, [(7, 5)]⟩ : L3ExactQueueState) ∧
      (ex.applyL3Update update).1.orders[1]?.map LiveOrder.queueState =
        some (⟨0, []⟩ : L3ExactQueueState) ∧
      (ex.applyL3Update update).1.bookL3.map (·.levelQty .buy 100) = some 5 := by
  decide +kernel

/-- An ADD of quantity zero is rejected and changes nothing. -/
theorem rejected_unchanged_sample :
    let ex := ((newL3 (⟨⟩ : L3ExactQueue)).session behindFive).1
    (ex.applyL3Update ⟨2, 1, 1, 7, 100, 0, .buy, l3Add⟩).1 = ex := by
  intro ex
  have hrejected : (ex.applyL3Update ⟨2, 1, 1, 7, 100, 0, .buy, l3Add⟩).2 =
      .error "L3 ADD qty must be positive" := by rfl
  have hnew : (newL3 (⟨⟩ : L3ExactQueue)).IsNew := ⟨⟨⟩, .inr rfl⟩
  have hops : Always Fresh behindFive := fresh_of_nodup (by decide)
  refine (rejected_unchanged_iff hnew hops hrejected).2 ?_
  rintro ⟨hmodify, -⟩
  exact absurd hmodify (by decide)

end ExchangeSimulator

end Backtester
