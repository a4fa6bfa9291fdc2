import Backtester.VenueQueue

/-!
# The levels of an L3 book

A book that follows a venue stores a level for a price exactly if orders rest there, and nothing but
positive quantities (`OrderBookL3.Solid`). Its best prices are therefore those of resting orders. An
update edits the queue of its own level, where the orders that stay keep their places, and an update
that is refused is refused before anything is edited (`OrderBookL3.applyL3InPlace_eq`).
-/

open History KeyedQueue MachineInt Std

namespace Backtester

/-! ## Edits in place -/

namespace OrderBookL3

/-- `entry(price).or_default()` -/
def entryOrDefault (price : ℤ) (levels : L3Side) : L3Side :=
  if (levels[price]?).isSome then levels else levels.insert price []

/-- What is done to the queue that `get_mut(&price)` finds. -/
def editQueue (price : ℤ) (f : List (ℕ × ℤ) → List (ℕ × ℤ)) (levels : L3Side) : L3Side :=
  match levels[price]? with
  | none => levels
  | some queue => levels.insert price (f queue)

/-- `if queue.is_empty() { side_map.remove(&price) }` -/
def removeIfEmpty (price : ℤ) (levels : L3Side) : L3Side :=
  if levels[price]? = some [] then levels.erase price else levels

/-- `apply_l3` step by step : the book it leaves behind, and its result. -/
def applyL3InPlace (book : OrderBookL3) (update : L3Update) : OrderBookL3 × Except String Unit :=
  if update.side = .none then (book, .error "invalid L3 side")
  else if update.action = l3Add then
    if update.qty ≤ 0 then (book, .error "L3 ADD qty must be positive")
    else
      let book := book.mapSide update.side (entryOrDefault update.price)
      let book := book.mapSide update.side
        (editQueue update.price (· ++ [(update.orderId, update.qty)]))
      (book, .ok ())
  else if update.action = l3Modify then
    if update.qty < 0 then (book, .error "L3 MODIFY qty must be non-negative")
    else
      let book :=
        if update.qty = 0 then
          book.mapSide update.side (editQueue update.price (·.filter (·.1 ≠ update.orderId)))
        else book.mapSide update.side (editQueue update.price (setQty update.orderId update.qty))
      let book := book.mapSide update.side (removeIfEmpty update.price)
      (book, .ok ())
  else if update.action = l3Delete then
    let book := book.mapSide update.side (editQueue update.price (·.filter (·.1 ≠ update.orderId)))
    let book := book.mapSide update.side (removeIfEmpty update.price)
    (book, .ok ())
  else (book, .error "invalid L3 action")

theorem mapSide_mapSide (book : OrderBookL3) (side : Side) (f g : L3Side → L3Side) :
    (book.mapSide side f).mapSide side g = book.mapSide side (g ∘ f) := by
  cases side <;> rfl

theorem editQueue_entryOrDefault (price : ℤ) (f : List (ℕ × ℤ) → List (ℕ × ℤ)) (levels : L3Side) :
    editQueue price f (entryOrDefault price levels) =
      levels.insert price (f (levels[price]?.getD [])) := by
  unfold entryOrDefault
  cases hlevel : levels[price]? with
  | none =>
    rw [if_neg (by simp), editQueue, ExtTreeMap.getElem?_insert_self]
    ext1 k
    simp only [ExtTreeMap.getElem?_insert, Option.getD_none]
    split_ifs <;> rfl
  | some queue =>
    rw [Option.isSome_some, if_pos rfl, editQueue, hlevel]
    rfl

theorem removeIfEmpty_editQueue (price : ℤ) (f : List (ℕ × ℤ) → List (ℕ × ℤ)) (levels : L3Side) :
    removeIfEmpty price (editQueue price f levels) =
      match levels[price]? with
      | none => levels
      | some queue => putLevel price (f queue) levels := by
  unfold editQueue
  cases hlevel : levels[price]? with
  | none => rw [removeIfEmpty, if_neg (by simp [hlevel])]
  | some queue =>
    dsimp only
    unfold removeIfEmpty putLevel
    rw [ExtTreeMap.getElem?_insert_self]
    by_cases hempty : f queue = []
    · rw [if_pos (congrArg some hempty), if_pos (List.isEmpty_iff.2 hempty)]
      ext1 k
      simp only [ExtTreeMap.getElem?_erase, ExtTreeMap.getElem?_insert]
      split_ifs <;> rfl
    · rw [if_neg (fun h => hempty (Option.some.inj h)), if_neg (mt List.isEmpty_iff.1 hempty)]

/-- Nothing is edited before the update is accepted. -/
theorem applyL3InPlace_eq (book : OrderBookL3) (update : L3Update) :
    book.applyL3InPlace update =
      match book.applyL3 update with
      | .ok book' => (book', .ok ())
      | .error err => (book, .error err) := by
  unfold applyL3InPlace applyL3
  split_ifs with hside hadd hqty hmodify hqty hzero hdelete
  · rfl
  · rfl
  · dsimp only
    rw [mapSide_mapSide]
    congr 2
    funext levels
    exact editQueue_entryOrDefault _ _ _
  · rfl
  · dsimp only
    rw [mapSide_mapSide]
    congr 2
    funext levels
    exact removeIfEmpty_editQueue _ _ _
  · dsimp only
    rw [mapSide_mapSide]
    congr 2
    funext levels
    exact removeIfEmpty_editQueue _ _ _
  · dsimp only
    rw [mapSide_mapSide]
    congr 2
    funext levels
    exact removeIfEmpty_editQueue _ _ _
  · rfl

end OrderBookL3

/-! ## Solid books -/

/-- No level of a side is empty. -/
def L3Side.Filled (levels : L3Side) : Prop := ∀ price : ℤ, levels[price]? ≠ some []

theorem L3Side.Filled.insert {levels : L3Side} (h : L3Side.Filled levels) (price : ℤ)
    {queue : List (ℕ × ℤ)} (hqueue : queue ≠ []) : L3Side.Filled (levels.insert price queue) := by
  intro p
  rw [ExtTreeMap.getElem?_insert]
  split_ifs
  · exact fun heq => hqueue (Option.some.inj heq)
  · exact h p

theorem L3Side.Filled.putLevel {levels : L3Side} (h : L3Side.Filled levels) (price : ℤ)
    (queue : List (ℕ × ℤ)) : L3Side.Filled (OrderBookL3.putLevel price queue levels) := by
  unfold OrderBookL3.putLevel
  split_ifs with hempty
  · intro p
    rw [ExtTreeMap.getElem?_erase]
    split_ifs
    · simp
    · exact h p
  · exact h.insert price (mt List.isEmpty_iff.2 hempty)

namespace OrderBookL3

/-- No level is empty, and every quantity is positive. -/
structure Solid (book : OrderBookL3) : Prop where
  stocked : book.Stocked
  bids : L3Side.Filled book.bids
  asks : L3Side.Filled book.asks

theorem Solid.mapSide {book : OrderBookL3} (h : book.Solid) (side : Side) {f : L3Side → L3Side}
    (hstocked : (book.mapSide side f).Stocked)
    (hf : ∀ levels, L3Side.Filled levels → L3Side.Filled (f levels)) :
    (book.mapSide side f).Solid := by
  cases side with
  | buy => exact ⟨hstocked, hf _ h.bids, h.asks⟩
  | sell => exact ⟨hstocked, h.bids, hf _ h.asks⟩
  | none => exact h

theorem Solid.applyL3 {book book' : OrderBookL3} (h : book.Solid) {update : L3Update}
    (happly : book.applyL3 update = .ok book') : book'.Solid := by
  have hstocked := h.stocked.applyL3 happly
  have hedit : ∀ (g : List (ℕ × ℤ) → List (ℕ × ℤ)) (levels : L3Side), L3Side.Filled levels →
      L3Side.Filled (match levels[update.price]? with
        | none => levels
        | some queue => putLevel update.price (g queue) levels) := by
    intro g levels hlevels
    cases levels[update.price]? with
    | none => exact hlevels
    | some queue => exact hlevels.putLevel update.price (g queue)
  unfold OrderBookL3.applyL3 at happly
  split_ifs at happly with hside hadd hqty hmodify hqty hzero hdelete
  · cases happly
    refine h.mapSide update.side hstocked fun levels hlevels => hlevels.insert update.price ?_
    exact List.append_ne_nil_of_right_ne_nil _ (List.cons_ne_nil _ _)
  · cases happly
    exact h.mapSide update.side hstocked (hedit _)
  · cases happly
    exact h.mapSide update.side hstocked (hedit _)
  · cases happly
    exact h.mapSide update.side hstocked (hedit _)

theorem solid_follow (updates : List L3Update) : (follow updates).Solid := by
  induction updates using List.reverseRecOn with
  | nil =>
    exact ⟨stocked_follow [], by simp [follow, L3Side.Filled], by simp [follow, L3Side.Filled]⟩
  | append_singleton updates update ih =>
    rw [follow_snoc]
    cases h : (follow updates).applyL3 update with
    | error err => exact ih
    | ok book => exact ih.applyL3 h

/-- A solid book stores the queues that are not empty. -/
theorem Solid.level_eq {book : OrderBookL3} (h : book.Solid) (side : Side) (price : ℤ) :
    book.level side price =
      if book.queue side price = [] then none else some (book.queue side price) := by
  have hfilled : ∀ levels : L3Side, L3Side.Filled levels → levels[price]? =
      if levels[price]?.getD [] = [] then none else some (levels[price]?.getD []) := by
    intro levels hlevels
    cases hlevel : levels[price]? with
    | none => simp
    | some queue =>
      have hne : queue ≠ [] := fun hempty => hlevels price (hlevel.trans (congrArg some hempty))
      simp [hne]
  cases side with
  | buy => exact hfilled book.bids h.bids
  | sell => exact hfilled book.asks h.asks
  | none => rfl

/-! ## Best prices -/

/-- `best` is the level at the end of the prices, which are those where orders rest. -/
structure Reports (best : Option (ℤ × ℤ)) (extreme : Set ℤ → ℤ → Prop) (prices : Set ℤ)
    (levelQty : ℤ → ℤ) : Prop where
  none_iff : best = none ↔ prices = ∅
  extreme : ∀ price qty, best = some (price, qty) → extreme prices price
  qty : ∀ price qty, best = some (price, qty) → qty = levelQty price ∧ 0 < qty

theorem levelQty_pos {book : OrderBookL3} (h : book.Solid) (hfits : book.Fits) {side : Side}
    {price : ℤ} (hne : book.queue side price ≠ []) : 0 < book.levelQty side price := by
  have hpos := h.stocked.queue side price
  have hwrap : queueQty (book.queue side price) = total (book.queue side price) :=
    wrap_eq_self (by norm_num) (hfits.queue side price)
  rw [levelQty_eq, hwrap]
  refine List.sum_pos _ (fun q hq => ?_) (by simpa using hne)
  obtain ⟨e, he, rfl⟩ := List.mem_map.1 hq
  exact hpos e he

/-- The end of a side without empty levels. -/
theorem Solid.reports {book : OrderBookL3} (h : book.Solid) (hfits : book.Fits) {side : Side}
    {levels : L3Side} (hside : book.sideMap side = some levels) {entry : Option (ℤ × List (ℕ × ℤ))}
    {extreme : Set ℤ → ℤ → Prop} (hnone : entry = none ↔ ∀ p : ℤ, levels[p]? = none)
    (hsome : ∀ e, entry = some e → levels[e.1]? = some e.2)
    (hextreme : ∀ e, entry = some e → e.1 ∈ {p | book.queue side p ≠ []} →
      extreme {p | book.queue side p ≠ []} e.1) :
    Reports (entry.map fun e => (e.1, queueQty e.2)) extreme {p | book.queue side p ≠ []}
      (book.levelQty side) := by
  have hlevel : ∀ p, levels[p]? =
      if book.queue side p = [] then none else some (book.queue side p) := by
    intro p
    rw [← h.level_eq side p, OrderBookL3.level, hside]
    rfl
  have hqueue : ∀ e, entry = some e → book.queue side e.1 ≠ [] ∧ book.queue side e.1 = e.2 := by
    intro e he
    have hentry := hsome e he
    rw [hlevel] at hentry
    split_ifs at hentry with hempty
    exact ⟨hempty, Option.some.inj hentry⟩
  refine ⟨?_, ?_, ?_⟩
  · rw [Option.map_eq_none_iff, hnone, Set.eq_empty_iff_forall_notMem]
    exact forall_congr' fun p => by simp [hlevel]
  · intro price qty hbest
    obtain ⟨e, he, heq⟩ := Option.map_eq_some_iff.1 hbest
    obtain ⟨rfl, -⟩ := Prod.mk.inj heq
    exact hextreme e he (hqueue e he).1
  · intro price qty hbest
    obtain ⟨e, he, heq⟩ := Option.map_eq_some_iff.1 hbest
    obtain ⟨rfl, rfl⟩ := Prod.mk.inj heq
    obtain ⟨hne, hentry⟩ := hqueue e he
    have hqty : queueQty e.2 = book.levelQty side e.1 := by rw [levelQty_eq, hentry]
    exact ⟨hqty, hqty ▸ levelQty_pos h hfits hne⟩

theorem Solid.bestBid {book : OrderBookL3} (h : book.Solid) (hfits : book.Fits) :
    Reports book.bestBid IsGreatest {p | book.queue .buy p ≠ []} (book.levelQty .buy) := by
  have hside : book.sideMap .buy = some book.bids := rfl
  refine h.reports hfits hside TreeMap.maxEntry_eq_none_iff
    (fun e he => TreeMap.getElem?_of_max_eq he) fun e he hmem => ⟨hmem, fun p hp => ?_⟩
  have hstored : (book.bids[p]?).isSome :=
    Option.isSome_iff_ne_none.2 fun hnone => hp (by simp [queue, level, sideMap, hnone])
  exact isLE_compare.1 (TreeMap.isLE_of_max_eq he hstored)

theorem Solid.bestAsk {book : OrderBookL3} (h : book.Solid) (hfits : book.Fits) :
    Reports book.bestAsk IsLeast {p | book.queue .sell p ≠ []} (book.levelQty .sell) := by
  have hside : book.sideMap .sell = some book.asks := rfl
  refine h.reports hfits hside TreeMap.minEntry_eq_none_iff
    (fun e he => TreeMap.getElem?_of_min_eq he) fun e he hmem => ⟨hmem, fun p hp => ?_⟩
  have hstored : (book.asks[p]?).isSome :=
    Option.isSome_iff_ne_none.2 fun hnone => hp (by simp [queue, level, sideMap, hnone])
  exact isLE_compare.1 (TreeMap.isLE_of_min_eq he hstored)

/-! ## What an update leaves alone -/

/-- What an accepted update does to the queue of its own level : an order is appended, or the orders
that stay keep their places. Other orders are as before. -/
structure KeepsPlaces (update : L3Update) (queue queue' : List (ℕ × ℤ)) : Prop where
  others : (queue'.filter fun e => e.1 ≠ update.orderId) = queue.filter fun e => e.1 ≠
    update.orderId
  add : update.action = l3Add → queue' = queue ++ [(update.orderId, update.qty)]
  edit : update.action ≠ l3Add → (keys queue').Sublist (keys queue)

theorem keepsPlaces_onQueue {update : L3Update} (h : update.WellFormed) (queue : List (ℕ × ℤ)) :
    KeepsPlaces update queue (update.onQueue queue) := by
  rcases h.onQueue_cases with ⟨hadd, -, honQueue⟩ | ⟨hmodify, -, honQueue⟩ | ⟨hremove, honQueue⟩
  · rw [honQueue]
    exact ⟨by simp, fun _ => rfl, fun hne => absurd hadd hne⟩
  · rw [honQueue]
    have hothers : ((put update.orderId update.qty queue).filter fun e => e.1 ≠ update.orderId) =
        put update.orderId update.qty (queue.filter fun e => e.1 ≠ update.orderId) :=
      filter_put (fun id => decide (id ≠ update.orderId)) update.orderId update.qty queue
    refine ⟨?_, fun hadd => ?_, fun _ => ?_⟩
    · rw [hothers, put_of_not_mem (by simp [keys])]
    · exact absurd (hmodify.symm.trans hadd) (by decide)
    · rw [keys_put]
  · rw [honQueue]
    refine ⟨by rw [List.filter_filter]; simp, fun hadd => ?_, fun _ => List.filter_sublist.map _⟩
    rcases hremove with hdelete | ⟨hmodify, -⟩
    · exact absurd (hdelete.symm.trans hadd) (by decide)
    · exact absurd (hmodify.symm.trans hadd) (by decide)

instance (update : L3Update) : Decidable update.WellFormed :=
  decidable_of_iff
    ((update.side = .buy ∨ update.side = .sell) ∧
      (update.action = l3Add ∧ 0 < update.qty ∨ update.action = l3Modify ∧ 0 ≤ update.qty ∨
        update.action = l3Delete))
    ⟨fun ⟨hside, haction⟩ => ⟨hside, haction⟩, fun h => ⟨h.side, h.action⟩⟩

/-- The orders that rest at a side and price, according to the updates of that level alone. -/
def resting (updates : List L3Update) (side : Side) (price : ℤ) : List (ℕ × ℤ) :=
  (updates.filter fun update =>
    update.WellFormed ∧ update.side = side ∧ update.price = price).foldl
    (fun queue update => update.onQueue queue) []

/-- The levels of a book are followed one by one. -/
theorem queue_follow (updates : List L3Update) (side : Side) (price : ℤ) :
    (follow updates).queue side price = resting updates side price := by
  induction updates using List.reverseRecOn with
  | nil => cases side <;> rfl
  | append_singleton updates update ih =>
    rw [follow_snoc, resting, List.filter_append, List.foldl_append, ← resting, ← ih]
    cases h : (follow updates).applyL3 update with
    | error err =>
      have hbad : ¬update.WellFormed := by
        intro hwell
        obtain ⟨book', hok⟩ := hwell.applies (follow updates)
        rw [h] at hok
        cases hok
      rw [List.filter_cons_of_neg (by simp [hbad])]
      rfl
    | ok book =>
      have hwell := wellFormed_of_ok h
      rw [show (Except.ok book : Except String OrderBookL3).toOption.getD (follow updates) =
        book from rfl,
        queue_applyL3 h]
      by_cases hlevel : side = update.side ∧ price = update.price
      · have hmine : update.WellFormed ∧ update.side = side ∧ update.price = price :=
          ⟨hwell, hlevel.1.symm, hlevel.2.symm⟩
        rw [if_pos hlevel, List.filter_cons, if_pos (decide_eq_true hmine)]
        rfl
      · have hother : ¬(update.WellFormed ∧ update.side = side ∧ update.price = price) :=
          fun h => hlevel ⟨h.2.1.symm, h.2.2.symm⟩
        rw [if_neg hlevel, List.filter_cons, if_neg (by rwa [decide_eq_true_iff])]
        rfl

/-- A feed of one level fits if that level does. -/
theorem fits_follow_of_place {updates : List L3Update} {side : Side} {price : ℤ}
    (hplace : ∀ update ∈ updates, update.side = side ∧ update.price = price)
    (h : InRange 64 (total (resting updates side price))) : (follow updates).Fits := by
  refine fits_of_queue fun s p => ?_
  rw [queue_follow]
  by_cases hlevel : s = side ∧ p = price
  · obtain ⟨rfl, rfl⟩ := hlevel
    exact h
  · have hnone : resting updates s p = [] := by
      rw [resting, List.filter_eq_nil_iff.2 fun update hmem hmine => ?_]
      · rfl
      · obtain ⟨-, rfl, rfl⟩ := of_decide_eq_true hmine
        exact hlevel (hplace update hmem)
    rw [hnone]
    exact ⟨by norm_num [total], by norm_num [total]⟩

/-- A book that follows a venue stores no empty level and only positive quantities, and reports the
best prices at which orders rest. An accepted update leaves the other levels as they are, and the
orders that stay in its own level in their places; a refused one leaves the book as it is. -/
theorem follow_levels (updates : List L3Update) :
    let book := follow updates
    (∀ side price queue, book.level side price = some queue →
      queue = resting updates side price ∧ queue ≠ [] ∧ ∀ e ∈ queue, 0 < e.2) ∧
    (book.Fits →
      Reports book.bestBid IsGreatest {p | resting updates .buy p ≠ []} (book.levelQty .buy) ∧
      Reports book.bestAsk IsLeast {p | resting updates .sell p ≠ []} (book.levelQty .sell)) ∧
    ∀ update,
      (∀ book', book.applyL3InPlace update = (book', .ok ()) →
        (∀ side price, ¬(side = update.side ∧ price = update.price) →
          book'.level side price = book.level side price) ∧
        KeepsPlaces update (book.queue update.side update.price)
          (book'.queue update.side update.price)) ∧
      ∀ book' err, book.applyL3InPlace update = (book', .error err) → book' = book := by
  intro book
  have hsolid : book.Solid := solid_follow updates
  have hqueue : ∀ side price, book.queue side price = resting updates side price :=
    queue_follow updates
  have hcases : ∀ update book' result, book.applyL3InPlace update = (book', result) →
      (result = .ok () → book.applyL3 update = .ok book') ∧ ∀ err, result = .error err →
        book' = book := by
    intro update book' result h
    rw [applyL3InPlace_eq] at h
    cases happly : book.applyL3 update with
    | ok b =>
      rw [happly] at h
      obtain ⟨rfl, rfl⟩ := Prod.mk.inj h
      exact ⟨fun _ => rfl, fun _ herr => (nomatch herr)⟩
    | error err =>
      rw [happly] at h
      obtain ⟨rfl, rfl⟩ := Prod.mk.inj h
      exact ⟨fun hok => (nomatch hok), fun _ _ => rfl⟩
  refine ⟨fun side price queue hlevel => ?_, fun hfits => ?_, fun update => ⟨fun book' hok => ?_,
    fun book' err herr => (hcases update book' _ herr).2 err rfl⟩⟩
  · rw [hsolid.level_eq] at hlevel
    split_ifs at hlevel with hempty
    cases hlevel
    exact ⟨hqueue side price, hempty, hsolid.stocked.queue side price⟩
  · simp only [← hqueue]
    exact ⟨hsolid.bestBid hfits, hsolid.bestAsk hfits⟩
  · have happly := (hcases update book' _ hok).1 rfl
    refine ⟨fun side price hother => ?_, ?_⟩
    · rw [(hsolid.applyL3 happly).level_eq, hsolid.level_eq, queue_applyL3 happly, if_neg hother]
    · rw [queue_applyL3 happly, if_pos ⟨rfl, rfl⟩]
      exact keepsPlaces_onQueue (wellFormed_of_ok happly) _

/-- Two orders at one price, one of them deleted. -/
theorem follow_levels_sample :
    let updates : List L3Update :=
      [⟨1, 0, 0, 7, 100, 5, .buy, l3Add⟩, ⟨2, 1, 0, 8, 100, 3, .buy, l3Add⟩,
      ⟨3, 2, 0, 7, 100, 0, .buy, l3Delete⟩]
    resting updates .buy 100 = [(8, 3)] ∧ (follow updates).Fits ∧
      Reports (follow updates).bestBid IsGreatest {p | resting updates .buy p ≠ []}
        ((follow updates).levelQty .buy) := by
  intro updates
  have hfits : (follow updates).Fits :=
    @fits_follow_of_place updates .buy 100 (by decide) (by decide)
  exact ⟨by decide, hfits, ((follow_levels updates).2.1 hfits).1⟩

end OrderBookL3

end Backtester
