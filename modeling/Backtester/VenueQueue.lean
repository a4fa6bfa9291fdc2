import Backtester.Library.KeyedQueue
import Backtester.Quantities

/-!
# The queues of an L3 book

An L3 book is a queue of venue orders for each side and price (`OrderBookL3.queue`), empty where
there is no level. An accepted update edits one of them (`queue_applyL3`) : it appends an order,
sets the quantity of one, or takes one out.
-/

open History KeyedQueue MachineInt Std

set_option linter.unusedSectionVars false

namespace Backtester

/-- The L2 book after updates. -/
def OrderBookL2.follow (updates : List L2Update) : OrderBookL2 := updates.foldl applyL2 {}

/-- The update is one that an L3 book takes. -/
structure L3Update.WellFormed (update : L3Update) : Prop where
  side : update.side = .buy ∨ update.side = .sell
  action : update.action = l3Add ∧ 0 < update.qty ∨ update.action = l3Modify ∧ 0 ≤ update.qty ∨
    update.action = l3Delete

theorem L3Update.WellFormed.applies {update : L3Update} (h : update.WellFormed)
    (book : OrderBookL3) :
    ∃ book', book.applyL3 update = .ok book' := by
  have hside : update.side ≠ .none := by
    rcases h.side with hside | hside <;> simp [hside]
  unfold OrderBookL3.applyL3
  rw [if_neg hside]
  rcases h.action with ⟨haction, hqty⟩ | ⟨haction, hqty⟩ | haction
  · rw [if_pos haction, if_neg (Int.not_le.2 hqty)]
    exact ⟨_, rfl⟩
  · rw [if_neg (by simp [haction, l3Modify, l3Add]), if_pos haction, if_neg (Int.not_lt.2 hqty)]
    exact ⟨_, rfl⟩
  · rw [if_neg (by simp [haction, l3Delete, l3Add]), if_neg (by simp [haction, l3Delete, l3Modify]),
      if_pos haction]
    exact ⟨_, rfl⟩

/-- A book accepts the well-formed updates only. -/
theorem wellFormed_of_ok {book book' : OrderBookL3} {update : L3Update}
    (h : book.applyL3 update = .ok book') : update.WellFormed := by
  have hsides : update.side ≠ .none → update.side = .buy ∨ update.side = .sell := by
    cases update.side <;> simp
  unfold OrderBookL3.applyL3 at h
  split_ifs at h with hside hadd hqty hmodify hqty hzero hdelete
  · exact ⟨hsides hside, .inl ⟨hadd, by omega⟩⟩
  · exact ⟨hsides hside, .inr (.inl ⟨hmodify, by omega⟩)⟩
  · exact ⟨hsides hside, .inr (.inl ⟨hmodify, by omega⟩)⟩
  · exact ⟨hsides hside, .inr (.inr hdelete)⟩

/-- What an accepted update does to the queue at its side and price. -/
def L3Update.onQueue (update : L3Update) (queue : List (ℕ × ℤ)) : List (ℕ × ℤ) :=
  if update.action = l3Add then queue ++ [(update.orderId, update.qty)]
  else if update.action = l3Modify ∧ update.qty ≠ 0 then put update.orderId update.qty queue
  else queue.filter (·.1 ≠ update.orderId)

/-- An accepted update appends an order, sets the quantity of one, or takes one out. -/
theorem L3Update.WellFormed.onQueue_cases {update : L3Update} (h : update.WellFormed) :
    (update.action = l3Add ∧ 0 < update.qty ∧
      ∀ queue, update.onQueue queue = queue ++ [(update.orderId, update.qty)]) ∨
    (update.action = l3Modify ∧ 0 < update.qty ∧
      ∀ queue, update.onQueue queue = put update.orderId update.qty queue) ∨
    ((update.action = l3Delete ∨ update.action = l3Modify ∧ update.qty = 0) ∧
      ∀ queue, update.onQueue queue = queue.filter (·.1 ≠ update.orderId)) := by
  have hne : l3Modify ≠ l3Add ∧ l3Delete ≠ l3Add ∧ l3Delete ≠ l3Modify := by decide
  rcases h.action with ⟨haction, hqty⟩ | ⟨haction, hqty⟩ | haction
  · exact .inl ⟨haction, hqty, fun queue => if_pos haction⟩
  · by_cases hzero : update.qty = 0
    · refine .inr (.inr ⟨.inr ⟨haction, hzero⟩, fun queue => ?_⟩)
      rw [onQueue, if_neg (by simp [haction, hne.1]), if_neg (by simp [hzero])]
    · refine .inr (.inl ⟨haction, by omega, fun queue => ?_⟩)
      rw [onQueue, if_neg (by simp [haction, hne.1]), if_pos ⟨haction, hzero⟩]
  · refine .inr (.inr ⟨.inl haction, fun queue => ?_⟩)
    rw [onQueue, if_neg (by simp [haction, hne.2.1]), if_neg (by simp [haction, hne.2.2])]

namespace OrderBookL3

/-- The venue orders at one side and price, oldest first. -/
def queue (book : OrderBookL3) (side : Side) (price : ℤ) : List (ℕ × ℤ) :=
  (book.level side price).getD []

theorem setQty_eq (orderId : ℕ) (qty : ℤ) (queue : List (ℕ × ℤ)) :
    setQty orderId qty queue = put orderId qty queue := by
  induction queue with
  | nil => rfl
  | cons e queue ih =>
    obtain ⟨id, q⟩ := e
    rw [setQty, put, ih]

theorem levelQty_eq (book : OrderBookL3) (side : Side) (price : ℤ) :
    book.levelQty side price = queueQty (book.queue side price) := by
  unfold levelQty queue
  cases book.level side price with
  | none => rfl
  | some queue => rfl

theorem ordersAhead_eq (book : OrderBookL3) (side : Side) (price : ℤ) (orderId : ℕ) :
    book.ordersAhead side price orderId = (book.queue side price).takeWhile (·.1 ≠ orderId) := rfl

theorem getD_putLevel (price p : ℤ) (queue : List (ℕ × ℤ)) (levels : L3Side) :
    ((putLevel price queue levels)[p]?).getD [] =
      if p = price then queue else (levels[p]?).getD [] := by
  unfold putLevel
  split_ifs with hempty hp hp
  · rw [hp, ExtTreeMap.getElem?_erase_self]
    exact (List.isEmpty_iff.1 hempty).symm
  · rw [ExtTreeMap.getElem?_erase, if_neg (by simpa using Ne.symm hp)]
  · rw [hp, ExtTreeMap.getElem?_insert_self]
    rfl
  · rw [ExtTreeMap.getElem?_insert, if_neg (by simpa using Ne.symm hp)]

/-- An edit of one level is an edit of one queue. -/
theorem queue_mapSide (book : OrderBookL3) {side : Side} (hside : side ≠ .none)
    {f : L3Side → L3Side} {price : ℤ} {g : List (ℕ × ℤ) → List (ℕ × ℤ)}
    (hf : ∀ (levels : L3Side) (p : ℤ), ((f levels)[p]?).getD [] =
      if p = price then g ((levels[p]?).getD []) else (levels[p]?).getD []) (s : Side) (p : ℤ) :
    (book.mapSide side f).queue s p =
      if s = side ∧ p = price then g (book.queue s p) else book.queue s p := by
  cases side with
  | buy => cases s <;> simp [mapSide, queue, level, sideMap, hf]
  | sell => cases s <;> simp [mapSide, queue, level, sideMap, hf]
  | none => exact absurd rfl hside

/-- An edit of a level that is there, which leaves an absent level absent. -/
theorem getD_edit {g : List (ℕ × ℤ) → List (ℕ × ℤ)} (hg : g [] = []) (levels : L3Side)
    (price p : ℤ) :
    ((match levels[price]? with
      | none => levels
      | some queue => putLevel price (g queue) levels)[p]?).getD [] =
      if p = price then g ((levels[p]?).getD []) else (levels[p]?).getD [] := by
  cases hlevel : levels[price]? with
  | none =>
    split_ifs with hp
    · simp [hp, hlevel, hg]
    · rfl
  | some queue =>
    dsimp only
    rw [getD_putLevel]
    split_ifs with hp
    · simp [hp, hlevel]
    · rfl

/-- An accepted update edits the queue at its side and price. -/
theorem queue_applyL3 {book book' : OrderBookL3} {update : L3Update}
    (h : book.applyL3 update = .ok book') (side : Side) (price : ℤ) :
    book'.queue side price = if side = update.side ∧ price = update.price then
      update.onQueue (book.queue side price) else book.queue side price := by
  unfold applyL3 at h
  split_ifs at h with hside hadd hqty hmodify hqty hzero hdelete
  · cases h
    refine queue_mapSide (g := update.onQueue) book hside (fun levels p => ?_) side price
    rw [ExtTreeMap.getElem?_insert]
    by_cases hp : p = update.price
    · rw [if_pos (Std.compare_eq_iff_eq.2 hp.symm), if_pos hp, hp, L3Update.onQueue, if_pos hadd]
      rfl
    · rw [if_neg (by simpa using Ne.symm hp), if_neg hp]
  · cases h
    have honQueue : update.onQueue = List.filter (·.1 ≠ update.orderId) := by
      funext queue
      rw [L3Update.onQueue, if_neg hadd, if_neg (by simp [hzero])]
    refine queue_mapSide (g := update.onQueue) book hside (fun levels p => ?_) side price
    rw [honQueue]
    exact getD_edit rfl levels update.price p
  · cases h
    have honQueue : update.onQueue = put update.orderId update.qty := by
      funext queue
      rw [L3Update.onQueue, if_neg hadd, if_pos ⟨hmodify, hzero⟩]
    simp only [setQty_eq]
    refine queue_mapSide (g := update.onQueue) book hside (fun levels p => ?_) side price
    rw [honQueue]
    exact getD_edit rfl levels update.price p
  · cases h
    have honQueue : update.onQueue = List.filter (·.1 ≠ update.orderId) := by
      funext queue
      rw [L3Update.onQueue, if_neg hadd, if_neg (by simp [hmodify])]
    refine queue_mapSide (g := update.onQueue) book hside (fun levels p => ?_) side price
    rw [honQueue]
    exact getD_edit rfl levels update.price p

/-- The book after updates : those it does not accept leave it as it is. -/
def follow (updates : List L3Update) : OrderBookL3 :=
  updates.foldl (fun book update => (book.applyL3 update).toOption.getD book) {}

theorem follow_snoc (updates : List L3Update) (update : L3Update) :
    follow (updates ++ [update]) = ((follow updates).applyL3 update).toOption.getD
      (follow updates) := by
  simp [follow]

theorem follow_of_ok {updates : List L3Update} {update : L3Update} {book : OrderBookL3}
    (h : (follow updates).applyL3 update = .ok book) : follow (updates ++ [update]) = book := by
  rw [follow_snoc, h]
  rfl

/-- The venue orders of a book made by updates have positive quantities. -/
theorem stocked_follow (updates : List L3Update) : (follow updates).Stocked := by
  induction updates using List.reverseRecOn with
  | nil =>
    intro price queue hlevel
    simp [follow] at hlevel
  | append_singleton updates update ih =>
    rw [follow_snoc]
    cases h : (follow updates).applyL3 update with
    | error err => exact ih
    | ok book => exact ih.applyL3 h

/-- A queue is empty, or that of a level. -/
theorem queue_cases (book : OrderBookL3) (side : Side) (price : ℤ) : book.queue side price = [] ∨
    book.bids[price]? = some (book.queue side price) ∨
    book.asks[price]? = some (book.queue side price) := by
  have hlevel : ∀ x : Option (List (ℕ × ℤ)), x.getD [] = [] ∨ x = some (x.getD []) := by
    rintro (_ | queue)
    · exact .inl rfl
    · exact .inr rfl
  cases side with
  | buy => exact (hlevel (book.bids[price]?)).imp_right .inl
  | sell => exact (hlevel (book.asks[price]?)).imp_right .inr
  | none => exact .inl rfl

theorem Stocked.queue {book : OrderBookL3} (h : book.Stocked) (side : Side) (price : ℤ) :
    ∀ entry ∈ book.queue side price, 0 < entry.2 := by
  rcases book.queue_cases side price with hempty | hlevel
  · simp [hempty]
  · exact h price _ hlevel

theorem Fits.queue {book : OrderBookL3} (h : book.Fits) (side : Side) (price : ℤ) :
    InRange 64 (total (book.queue side price)) := by
  rcases book.queue_cases side price with hempty | hlevel
  · rw [hempty]
    exact ⟨by norm_num [total], by norm_num [total]⟩
  · exact h price _ hlevel

theorem fits_of_queue {book : OrderBookL3}
    (h : ∀ side price, InRange 64 (total (book.queue side price))) : book.Fits := by
  rintro price queue (hlevel | hlevel)
  · have hqueue : book.queue .buy price =
      queue := by simp [OrderBookL3.queue, level, sideMap, hlevel]
    exact hqueue ▸ h .buy price
  · have hqueue : book.queue .sell price =
      queue := by simp [OrderBookL3.queue, level, sideMap, hlevel]
    exact hqueue ▸ h .sell price

end OrderBookL3

end Backtester
