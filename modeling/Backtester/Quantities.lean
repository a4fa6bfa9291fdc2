import Backtester.ExchangeOps
import Backtester.Library.TreeMap

/-!
# Quantities are conserved

`LiveOrder.Balanced` : the filled and the remaining quantity of an order add up to its quantity,
and the filled quantity is what its reports say. Every change keeps it, if the book has no
negative quantities (`ExchangeSimulator.Stocked`) and a trade fills no more than remains.
-/

open History MachineInt Std

set_option linter.unusedSectionVars false

namespace Backtester

/-! ## Books without negative quantities -/

/-- No level of the book has a negative quantity. -/
def OrderBookL2.Stocked (book : OrderBookL2) : Prop :=
  ∀ price qty : ℤ, book.bids[price]? = some qty ∨ book.asks[price]? = some qty → 0 ≤ qty

/-- The quantities of every level are positive. -/
def OrderBookL3.Stocked (book : OrderBookL3) : Prop :=
  ∀ (price : ℤ) (queue : List (ℕ × ℤ)), book.bids[price]? = some queue ∨
    book.asks[price]? = some queue → ∀ entry ∈ queue, 0 < entry.2

/-- The quantities of every level sum within `i64`. -/
def OrderBookL3.Fits (book : OrderBookL3) : Prop :=
  ∀ (price : ℤ) (queue : List (ℕ × ℤ)), book.bids[price]? = some queue ∨
    book.asks[price]? = some queue → InRange 64 (queue.map Prod.snd).sum

/-- Setting a level to a quantity that is not negative leaves no negative level. -/
theorem applyLevel_nonneg {levels : ExtTreeMap ℤ ℤ} {price qty : ℤ} (hqty : 0 ≤ qty)
    (h : ∀ p q : ℤ, levels[p]? = some q → 0 ≤ q) {p q : ℤ}
    (hq : (OrderBookL2.applyLevel levels price qty)[p]? = some q) : 0 ≤ q := by
  unfold OrderBookL2.applyLevel at hq
  split_ifs at hq
  · rw [ExtTreeMap.getElem?_erase] at hq
    split_ifs at hq
    exact h p q hq
  · rw [ExtTreeMap.getElem?_insert] at hq
    split_ifs at hq
    · exact Option.some.inj hq ▸ hqty
    · exact h p q hq

/-- A level update keeps the book stocked. -/
theorem OrderBookL2.Stocked.applyL2 {book : OrderBookL2} (h : book.Stocked) {update : L2Update}
    (hqty : 0 ≤ update.qty) : (book.applyL2 update).Stocked := by
  have hbids : ∀ p q : ℤ, book.bids[p]? = some q → 0 ≤ q := fun p q hq => h p q (.inl hq)
  have hasks : ∀ p q : ℤ, book.asks[p]? = some q → 0 ≤ q := fun p q hq => h p q (.inr hq)
  unfold OrderBookL2.applyL2
  intro p q hq
  cases hside : update.side with
  | buy =>
    rw [hside] at hq
    exact hq.elim (applyLevel_nonneg hqty hbids) (hasks p q)
  | sell =>
    rw [hside] at hq
    exact hq.elim (hbids p q) (applyLevel_nonneg hqty hasks)
  | none =>
    rw [hside] at hq
    exact h p q hq

/-- The best levels of a stocked book are not negative. -/
theorem OrderBookL2.Stocked.best {book : OrderBookL2} (h : book.Stocked) {price qty : ℤ}
    (hbest : book.bestBid = some (price, qty) ∨ book.bestAsk = some (price, qty)) : 0 ≤ qty := by
  refine h price qty ?_
  rcases hbest with hbest | hbest
  · exact .inl (TreeMap.getElem?_of_max_eq hbest)
  · exact .inr (TreeMap.getElem?_of_min_eq hbest)

/-- The levels of one side hold positive quantities. -/
def L3Side.Stocked (levels : L3Side) : Prop :=
  ∀ (price : ℤ) (queue : List (ℕ × ℤ)), levels[price]? = some queue → ∀ entry ∈ queue, 0 < entry.2

/-- Storing a queue of positive quantities keeps the side stocked. -/
theorem L3Side.Stocked.putLevel {levels : L3Side} (h : L3Side.Stocked levels) {price : ℤ}
    {queue : List (ℕ × ℤ)} (hqueue : ∀ entry ∈ queue, 0 < entry.2) :
    L3Side.Stocked (OrderBookL3.putLevel price queue levels) := by
  intro p q hq
  unfold OrderBookL3.putLevel at hq
  split_ifs at hq
  · rw [ExtTreeMap.getElem?_erase] at hq
    split_ifs at hq
    exact h p q hq
  · rw [ExtTreeMap.getElem?_insert] at hq
    split_ifs at hq
    · exact Option.some.inj hq ▸ hqueue
    · exact h p q hq

/-- Setting a positive quantity leaves a queue positive. -/
theorem pos_of_mem_setQty {orderId : ℕ} {qty : ℤ} (hqty : 0 < qty) : ∀ {queue : List (ℕ × ℤ)},
    (∀ entry ∈ queue, 0 < entry.2) → ∀ entry ∈ OrderBookL3.setQty orderId qty queue, 0 < entry.2
  | [], _, _, h => by simp [OrderBookL3.setQty] at h
  | (id, q) :: queue, hqueue, entry, h => by
    rw [OrderBookL3.setQty] at h
    split_ifs at h
    · rcases List.mem_cons.1 h with rfl | h
      · exact hqty
      · exact hqueue entry (List.mem_cons_of_mem _ h)
    · rcases List.mem_cons.1 h with rfl | h
      · exact hqueue _ List.mem_cons_self
      · exact pos_of_mem_setQty hqty (fun e he => hqueue e (List.mem_cons_of_mem _ he)) entry h

/-- A book is stocked when both sides are. -/
theorem OrderBookL3.stocked_iff {book : OrderBookL3} :
    book.Stocked ↔ L3Side.Stocked book.bids ∧ L3Side.Stocked book.asks :=
  ⟨fun h => ⟨fun p q hq => h p q (.inl hq), fun p q hq => h p q (.inr hq)⟩,
    fun h p q hq => hq.elim (h.1 p q) (h.2 p q)⟩

/-- Changing one side keeps the book stocked. -/
theorem OrderBookL3.Stocked.mapSide {book : OrderBookL3} (h : book.Stocked) (side : Side)
    {f : L3Side → L3Side} (hf : ∀ levels, L3Side.Stocked levels → L3Side.Stocked (f levels)) :
    (book.mapSide side f).Stocked := by
  obtain ⟨hbids, hasks⟩ := stocked_iff.1 h
  cases side with
  | buy => exact stocked_iff.2 ⟨hf _ hbids, hasks⟩
  | sell => exact stocked_iff.2 ⟨hbids, hf _ hasks⟩
  | none => exact h

/-- An order update that is accepted keeps the book stocked. -/
theorem OrderBookL3.Stocked.applyL3 {book book' : OrderBookL3} (h : book.Stocked)
    {update : L3Update} (happly : book.applyL3 update = .ok book') : book'.Stocked := by
  have hfilter : ∀ {queue : List (ℕ × ℤ)}, (∀ entry ∈ queue, 0 < entry.2) →
      ∀ entry ∈ queue.filter (·.1 ≠ update.orderId), 0 < entry.2 :=
    fun hq entry he => hq entry (List.mem_of_mem_filter he)
  unfold OrderBookL3.applyL3 at happly
  split_ifs at happly with hside hadd hqty hmodify hqty hzero hdelete
  · cases happly
    refine h.mapSide _ fun levels hlevels p q hq => ?_
    rw [ExtTreeMap.getElem?_insert] at hq
    split_ifs at hq
    · intro entry hentry
      rw [← Option.some.inj hq] at hentry
      rcases List.mem_append.1 hentry with hentry | hentry
      · cases hold : levels[update.price]? with
        | none => simp [hold] at hentry
        | some queue =>
          rw [hold] at hentry
          exact hlevels _ _ hold entry hentry
      · rw [List.mem_singleton.1 hentry]
        exact lt_of_not_ge hqty
    · exact hlevels p q hq
  · cases happly
    refine h.mapSide _ fun levels hlevels => ?_
    split
    · exact hlevels
    · next queue hold => exact hlevels.putLevel (hfilter (hlevels _ _ hold))
  · cases happly
    refine h.mapSide _ fun levels hlevels => ?_
    have hpos : 0 < update.qty := (Int.not_lt.1 hqty).lt_of_ne (Ne.symm hzero)
    split
    · exact hlevels
    · next queue hold => exact hlevels.putLevel (pos_of_mem_setQty hpos (hlevels _ _ hold))
  · cases happly
    refine h.mapSide _ fun levels hlevels => ?_
    split
    · exact hlevels
    · next queue hold => exact hlevels.putLevel (hfilter (hlevels _ _ hold))

/-- A queue of positive quantities whose sum fits has no negative total. -/
theorem queueQty_nonneg {queue : List (ℕ × ℤ)} (hpos : ∀ entry ∈ queue, 0 < entry.2)
    (hfits : InRange 64 (queue.map Prod.snd).sum) : 0 ≤ queueQty queue := by
  rw [queueQty, wrap_eq_self (by norm_num) hfits]
  refine List.sum_nonneg fun q hq => ?_
  obtain ⟨entry, hentry, rfl⟩ := List.mem_map.1 hq
  exact (hpos entry hentry).le

/-- The best queues of a stocked book are not negative. -/
theorem OrderBookL3.Stocked.best {book : OrderBookL3} (h : book.Stocked) (hfits : book.Fits)
    {price qty : ℤ} (hbest : book.bestBid = some (price, qty) ∨ book.bestAsk = some (price, qty)) :
    0 ≤ qty := by
  rcases hbest with hbest | hbest
  · obtain ⟨⟨p, queue⟩, hentry, heq⟩ := Option.map_eq_some_iff.1 hbest
    obtain ⟨-, rfl⟩ := Prod.mk.inj heq
    have hlevel : book.bids[p]? = some queue := TreeMap.getElem?_of_max_eq hentry
    exact queueQty_nonneg (h p queue (.inl hlevel)) (hfits p queue (.inl hlevel))
  · obtain ⟨⟨p, queue⟩, hentry, heq⟩ := Option.map_eq_some_iff.1 hbest
    obtain ⟨-, rfl⟩ := Prod.mk.inj heq
    have hlevel : book.asks[p]? = some queue := TreeMap.getElem?_of_min_eq hentry
    exact queueQty_nonneg (h p queue (.inr hlevel)) (hfits p queue (.inr hlevel))

/-! ## Balanced orders -/

/-- The quantities of an order add up, and agree with the reports about it. -/
structure LiveOrder.Balanced {σ : Type} (o : LiveOrder σ) (reports : List OrderReport) : Prop where
  qty : 0 < o.order.qty ∧ o.order.qty ≤ i64Max
  sum : o.filledQty + o.remainingQty = o.order.qty
  filled_nonneg : 0 ≤ o.filledQty
  remaining_nonneg : 0 ≤ o.remainingQty
  filled_iff : o.state = .filled ↔ o.remainingQty = 0
  unfilled : o.state = .pendingNew → o.filledQty = 0
  reported : o.filledQty = (reports.map OrderReport.lastFillQty).sum

namespace ExchangeSimulator

variable {Q : Type} [QueueModel Q]

/-- The books hold no negative quantities. -/
structure Stocked (ex : ExchangeSimulator Q) : Prop where
  l2 : ex.book.Stocked
  l3 : ∀ bookL3, ex.bookL3 = some bookL3 → bookL3.Stocked ∧ bookL3.Fits

/-- A depth update keeps level quantities non-negative and their sums within `i64`. -/
def KeepsStock (ex : ExchangeSimulator Q) : ExchangeOp → Prop
  | .applyL2Update update => 0 ≤ update.qty
  | .applyL3Update update =>
    ∀ bookL3, (ex.applyL3Update update).1.bookL3 = some bookL3 → bookL3.Fits
  | _ => True

/-- What a call must respect : ids are fresh, order quantities are positive, market fills are for
orders not acknowledged yet and forced cancels for partially filled ones, and depth updates keep the
books stocked. -/
def MayCall (ex₀ : ExchangeSimulator Q) (ops : List ExchangeOp) (op : ExchangeOp) : Prop :=
  Fresh ops op ∧ (ex₀.session ops).1.KeepsStock op ∧
  match op with
  | .submitOrder order => 0 < order.qty ∧ order.qty ≤ i64Max
  | .fillMarketImmediately m _ =>
    ∀ o, (ex₀.session ops).1.orders[m]? = some o → o.state = .pendingNew
  | .forceCancelPartialFill m =>
    ∀ o, (ex₀.session ops).1.orders[m]? = some o → o.state = .partiallyFilled
  | _ => True

variable {ex ex₀ : ExchangeSimulator Q} {op : ExchangeOp} {ops : List ExchangeOp}
  {o o' : LiveOrder (QueueModel.State Q)} {rs rs' : List OrderReport} {m n : ℕ}

/-- A new exchange has empty books. -/
theorem Stocked.of_isNew (h : ex.IsNew) : ex.Stocked := by
  have hempty : ∀ q : Q, (new q).book.Stocked := by
    intro q price qty hlevel
    simp [new] at hlevel
  obtain ⟨q, rfl | rfl⟩ := h
  · exact ⟨hempty q, by simp [new]⟩
  · refine ⟨hempty q, fun bookL3 heq => ?_⟩
    obtain rfl : ({} : OrderBookL3) = bookL3 := Option.some.inj heq
    exact ⟨fun price queue hlevel => by simp at hlevel, fun price queue hlevel => by simp at hlevel⟩

/-- Only depth updates change the books. -/
theorem books_perform (ex : ExchangeSimulator Q) (h2 : ∀ update, op ≠ .applyL2Update update)
    (h3 : ∀ update, op ≠ .applyL3Update update) :
    (ex.perform op).1.book = ex.book ∧ (ex.perform op).1.bookL3 = ex.bookL3 := by
  have htarget : ∀ m, op.target = some m →
      (ex.perform op).1.book = ex.book ∧ (ex.perform op).1.bookL3 = ex.bookL3 := by
    intro m hm
    rcases ex.perform_target hm with heq | ⟨o, o', rs, -, -, heq⟩
    · rw [heq]
      exact ⟨rfl, rfl⟩
    · rw [heq]
      exact ⟨rfl, rfl⟩
  cases op with
  | applyL2Update update => exact absurd rfl (h2 update)
  | applyL3Update update => exact absurd rfl (h3 update)
  | submitOrder order => exact ⟨rfl, rfl⟩
  | removeOrder m =>
    simp only [perform, removeOrder]
    split <;> exact ⟨rfl, rfl⟩
  | onTrade trade =>
    simp only [perform, onTrade]
    split <;> exact ⟨rfl, rfl⟩
  | _ => exact htarget _ rfl

/-- An operation keeps the books stocked. -/
theorem Stocked.perform (h : ex.Stocked) (keeps : ex.KeepsStock op) :
    (ex.perform op).1.Stocked := by
  have hkept : (∀ update, op ≠ .applyL2Update update) → (∀ update, op ≠ .applyL3Update update) →
      (ex.perform op).1.Stocked := by
    intro h2 h3
    obtain ⟨hbook, hbookL3⟩ := ex.books_perform h2 h3
    exact ⟨hbook ▸ h.l2, hbookL3 ▸ h.l3⟩
  cases op with
  | applyL2Update update => exact ⟨h.l2.applyL2 keeps, h.l3⟩
  | applyL3Update update =>
    refine ⟨?_, fun bookL3 heq => ⟨?_, keeps bookL3 heq⟩⟩
    · have hbook : (ex.applyL3Update update).1.book = ex.book := by
        simp only [applyL3Update]
        split
        · rfl
        · split <;> rfl
      exact hbook ▸ h.l2
    · have hbookL3 : (ex.applyL3Update update).1.bookL3 = some bookL3 := heq
      simp only [applyL3Update] at hbookL3
      split at hbookL3
      · exact (h.l3 bookL3 hbookL3).1
      · next old hold =>
        split at hbookL3
        · exact (h.l3 bookL3 hbookL3).1
        · next new' happly =>
          obtain rfl : new' = bookL3 := Option.some.inj hbookL3
          exact (h.l3 old hold).1.applyL3 happly
  | _ => exact hkept (by simp) (by simp)

/-- A market order finds a quantity that is not negative. -/
theorem Stocked.marketLevel (h : ex.Stocked) {side : Side} {fallbackPrice : Option ℤ}
    {price availableQty : ℤ}
    (hlevel : ex.marketLevel side fallbackPrice = some (price, availableQty)) :
    0 ≤ availableQty := by
  have hfallback : ∀ {x : Option (ℤ × ℤ)},
      x.or (fallbackPrice.map fun price => (price, i64Max)) = some (price, availableQty) →
      x = some (price, availableQty) ∨ availableQty = i64Max := by
    intro x hx
    cases x with
    | some x => exact .inl hx
    | none =>
      rw [Option.none_or] at hx
      obtain ⟨p, -, heq⟩ := Option.map_eq_some_iff.1 hx
      exact .inr (Prod.mk.inj heq).2.symm
  have hmax : (0 : ℤ) ≤ i64Max := by norm_num [i64Max]
  have hbooks : ∀ {f : OrderBookL3 → Option (ℤ × ℤ)} {y : Option (ℤ × ℤ)},
      (∀ bookL3, f bookL3 = some (price, availableQty) →
        bookL3.bestBid = some (price, availableQty) ∨ bookL3.bestAsk = some (price, availableQty)) →
      (y = some (price, availableQty) → ex.book.bestBid = some (price, availableQty) ∨
        ex.book.bestAsk = some (price, availableQty)) →
      (ex.bookL3.bind f).or y = some (price, availableQty) → 0 ≤ availableQty := by
    intro f y hf hy hor
    cases hx : ex.bookL3.bind f with
    | some x =>
      rw [hx, Option.some_or] at hor
      obtain ⟨bookL3, hbookL3, hfx⟩ := Option.bind_eq_some_iff.1 hx
      obtain ⟨hstocked, hfits⟩ := h.l3 bookL3 hbookL3
      exact hstocked.best hfits (hf bookL3 (hfx.trans hor))
    | none =>
      rw [hx, Option.none_or] at hor
      exact h.l2.best (hy hor)
  unfold ExchangeSimulator.marketLevel at hlevel
  cases side with
  | buy =>
    rcases hfallback hlevel with hbest | hmaximal
    · exact hbooks (fun _ => .inr) .inr hbest
    · exact hmaximal ▸ hmax
  | sell =>
    rcases hfallback hlevel with hbest | hmaximal
    · exact hbooks (fun _ => .inl) .inl hbest
    · exact hmaximal ▸ hmax
  | none =>
    rcases hfallback hlevel with hbest | hmaximal
    · cases hbest
    · exact hmaximal ▸ hmax

/-- A new order is balanced. -/
theorem balanced_submitted {order : Order} (qty : 0 < order.qty ∧ order.qty ≤ i64Max)
    (queueState : QueueModel.State Q) :
    LiveOrder.Balanced ⟨order, .pendingNew, 0, order.qty, queueState⟩ [] where
  qty := qty
  sum := zero_add _
  filled_nonneg := le_rfl
  remaining_nonneg := qty.1.le
  filled_iff := by simp [qty.1.ne']
  unfilled _ := rfl
  reported := rfl

/-- A fill within what remains keeps an order balanced. -/
theorem balanced_fill (h : o.Balanced rs) {fillQty : ℤ} (hpos : 0 < fillQty)
    (hle : fillQty ≤ o.remainingQty) {r : OrderReport} (hr : r.lastFillQty = fillQty) :
    (o.fill fillQty).Balanced (rs ++ [r]) := by
  obtain ⟨hqty, hsum, hfilled, hremaining, hiff, hunfilled, hreported⟩ := h
  have hmax : i64Max = 2 ^ 63 - 1 := rfl
  have hadd : addI64 o.filledQty fillQty = o.filledQty + fillQty :=
    wrap_eq_self (by norm_num) (by unfold InRange; norm_num; omega)
  have hsub : subI64 o.remainingQty fillQty = o.remainingQty - fillQty :=
    wrap_eq_self (by norm_num) (by unfold InRange; norm_num; omega)
  constructor
  · exact hqty
  · simp only [LiveOrder.fill, hadd, hsub]
    omega
  · simp only [LiveOrder.fill, hadd]
    omega
  · simp only [LiveOrder.fill, hsub]
    omega
  · simp only [LiveOrder.fill, hsub]
    split_ifs with hzero
    · simp [hzero]
    · simp [hzero]
  · simp only [LiveOrder.fill, hsub]
    split_ifs <;> simp
  · simp only [LiveOrder.fill, hadd, List.map_append, List.sum_append, List.map_cons, List.map_nil,
      List.sum_singleton, hr]
    rw [hreported]

/-- A change of state that leaves the quantities as they are, reported without a fill. -/
theorem balanced_state (h : o.Balanced rs) {s : OrderState} (hold : o.state ≠ .filled)
    (hs : s ≠ .filled) (hs' : s ≠ .pendingNew) (hrs' : ∀ r ∈ rs', r.lastFillQty = 0) :
    LiveOrder.Balanced { o with state := s } (rs ++ rs') := by
  have hzero : (rs'.map OrderReport.lastFillQty).sum = 0 := by
    refine List.sum_eq_zero fun q hq => ?_
    obtain ⟨r, hr, rfl⟩ := List.mem_map.1 hq
    exact hrs' r hr
  have hremaining : o.remainingQty ≠ 0 := fun heq => hold (h.filled_iff.2 heq)
  exact ⟨h.qty, h.sum, h.filled_nonneg, h.remaining_nonneg, by simp [hs, hremaining],
    fun heq => absurd heq hs', by simp [h.reported, hzero]⟩

/-- Every change keeps an order balanced. -/
theorem Change.balanced [LawfulQueueModel Q] (h : Change ex op o o' rs') (hb : o.Balanced rs)
    (hstocked : ex.Stocked)
    (hmarket : ∀ m p, op = .fillMarketImmediately m p → o.state = .pendingNew)
    (hforce : ∀ m, op = .forceCancelPartialFill m → o.state = .partiallyFilled) :
    o'.Balanced (rs ++ rs') := by
  cases h with
  | idle => simpa using hb
  | ack state =>
    exact balanced_state hb (by simp [state]) (by simp) (by simp) (by simp [Order.report])
  | cancel may =>
    refine balanced_state hb (fun heq => ?_) (by simp) (by simp) (by simp)
    simp [heq, OrderState.canTransitionTo] at may
  | cancelAck state =>
    exact balanced_state hb (by simp [state]) (by simp) (by simp) (by simp [Order.report])
  | @marketReject _ m p level =>
    have state := hmarket m p rfl
    exact balanced_state hb (by simp [state]) (by simp) (by simp) (by simp [Order.report])
  | @forceCancel _ m =>
    have state := hforce m rfl
    exact balanced_state hb (by simp [state]) (by simp) (by simp) (by simp [Order.report])
  | @marketFill _ m p price availableQty fillQty remainingQty s level hfill hremaining hs =>
    obtain ⟨hqty, hsum, -, -, -, hunfilled, hreported⟩ := hb
    have hzero : o.filledQty = 0 := hunfilled (hmarket m p rfl)
    have havailable := hstocked.marketLevel level
    have hmax : i64Max = 2 ^ 63 - 1 := rfl
    have hbound : 0 ≤ fillQty ∧ fillQty ≤ o.order.qty := by omega
    have hsub : remainingQty = o.order.qty - fillQty := by
      rw [hremaining]
      exact wrap_eq_self (by norm_num) (by unfold InRange; norm_num; omega)
    have hs' : s = .filled ∨ s = .partiallyFilled := by
      rw [hs]
      split_ifs
      · exact .inl rfl
      · exact .inr rfl
    refine ⟨hqty, by simp only; omega, hbound.1, by simp only; omega, ?_, ?_, ?_⟩
    · simp only [hs]
      split_ifs with h0 <;> simp [h0]
    · rcases hs' with rfl | rfl <;> simp
    · simp [Order.report, ← hreported, hzero]
  | follow =>
    obtain ⟨horder, hstate⟩ := face_followL3 ex.queueModel ‹_› o
    have hqtys : (o.followL3 ex.queueModel ‹_›).filledQty = o.filledQty ∧
        (o.followL3 ex.queueModel ‹_›).remainingQty = o.remainingQty := by
      unfold LiveOrder.followL3
      split <;> exact ⟨rfl, rfl⟩
    rw [List.append_nil]
    exact ⟨horder ▸ hb.qty, by rw [hqtys.1, hqtys.2, horder, hb.sum], hqtys.1 ▸ hb.filled_nonneg,
      hqtys.2 ▸ hb.remaining_nonneg, by rw [hstate, hqtys.2, hb.filled_iff],
      fun hs => hqtys.1 ▸ hb.unfilled (hstate ▸ hs), hqtys.1 ▸ hb.reported⟩
  | @offer _ trade =>
    unfold LiveOrder.offer
    split_ifs with hremaining hstate
    · simpa using hb
    · simpa using hb
    · dsimp only
      have hqueue : ∀ queueState : QueueModel.State Q,
          LiveOrder.Balanced { o with queueState := queueState } rs :=
        fun _ => ⟨hb.qty, hb.sum, hb.filled_nonneg, hb.remaining_nonneg, hb.filled_iff, hb.unfilled,
          hb.reported⟩
      split_ifs with hfill
      · simpa using hqueue _
      · refine balanced_fill (hqueue _) (lt_of_not_ge hfill) ?_ rfl
        exact LawfulQueueModel.fill_le_remaining _ _ _ _ _ (lt_of_not_ge hremaining)

/-! ## Sessions -/

/-- What holds of a simulator all along a session of calls that respect `MayCall`. -/
structure Conserving (ops : List ExchangeOp) (s : Session Q) : Prop where
  indexed : s.1.Indexed (submittedIds ops)
  stocked : s.1.Stocked
  unreported : ∀ n, n ∉ submittedIds ops → reportsAbout n s.2 = []
  balanced : ∀ (n : ℕ) (o : LiveOrder (QueueModel.State Q)), s.1.orders[n]? = some o →
    o.Balanced (reportsAbout n s.2)

/-- Nothing was submitted to a new exchange. -/
theorem conserving_start (hnew : ex₀.IsNew) : Conserving [] ((ex₀, []) : Session Q) := by
  refine ⟨Indexed.of_isNew hnew, Stocked.of_isNew hnew, fun _ _ => rfl, fun n o ho => ?_⟩
  obtain ⟨q, rfl | rfl⟩ := hnew <;> simp [new, newL3] at ho

/-- One more call conserves the quantities. -/
theorem Conserving.next [LawfulQueueModel Q] (h : Conserving ops (ex₀.session ops))
    (may : MayCall ex₀ ops op) : Conserving (ops ++ [op]) ((ex₀.session ops).next op) := by
  have hstocked : ((ex₀.session ops).1.perform op).1.Stocked := h.stocked.perform may.2.1
  refine ⟨submittedIds_snoc ops op ▸ h.indexed.perform may.1, hstocked, fun n hn => ?_,
    fun n o ho => ?_⟩
  · rw [submittedIds_snoc, List.mem_append, not_or] at hn
    have hs : op.submitted ≠ some n := fun heq => hn.2 (by simp [heq])
    have habsent : (ex₀.session ops).1.orders[n]? = none := by
      by_contra hne
      exact hn.1 (h.indexed.mem_of_stored n (mt getOrder_eq_none.1 hne))
    change reportsAbout n (_ ++ _) = []
    rw [reportsAbout_append, h.unreported n hn.1, (absent_perform h.indexed habsent hs).2]
    rfl
  · change (((ex₀.session ops).1.perform op).1).orders[n]? = some o at ho
    change o.Balanced (reportsAbout n (_ ++ _))
    rw [reportsAbout_append]
    by_cases hs : op.submitted = some n
    · cases op with
      | submitOrder order =>
        obtain rfl : order.orderId = n := Option.some.inj hs
        have hnew := (getElem?_submitOrder order order.orderId).symm.trans ho
        rw [if_pos rfl] at hnew
        rw [h.unreported _ (may.1 _ rfl), ← Option.some.inj hnew]
        exact balanced_submitted may.2.2 _
      | _ => cases hs
    · cases hold : (ex₀.session ops).1.orders[n]? with
      | none =>
        rw [(absent_perform h.indexed hold hs).1] at ho
        cases ho
      | some old =>
        rcases change_of_stored h.indexed may.1 hold ho with ⟨rfl, hnone⟩ | ⟨hname, hchange⟩
        · rw [hnone, List.append_nil]
          exact h.balanced n o hold
        · refine hchange.balanced (h.balanced n old hold) h.stocked ?_ ?_
          · rintro m p rfl
            exact may.2.2 old (hname m rfl ▸ hold)
          · rintro m rfl
            exact may.2.2 old (hname m rfl ▸ hold)

/-- In every session of calls that respect `MayCall`, the filled and the remaining quantity of a
stored order add up to its quantity, it is `filled` exactly when nothing remains, and its reports
tell what is filled. -/
theorem quantities_conserved [LawfulQueueModel Q] (hnew : ex₀.IsNew)
    (hops : Always (MayCall ex₀) ops) (ho : (ex₀.session ops).1.orders[n]? = some o) :
    o.filledQty + o.remainingQty = o.order.qty ∧ 0 ≤ o.filledQty ∧ o.filledQty ≤ o.order.qty ∧
      (o.state = .filled ↔ o.remainingQty = 0) ∧
      o.filledQty = ((reportsAbout n (ex₀.session ops).2).map OrderReport.lastFillQty).sum := by
  have hall := session_induction (I := Conserving) (conserving_start hnew)
    (fun _ _ h may => h.next may) hops
  obtain ⟨-, hsum, hfilled, hremaining, hiff, -, hreported⟩ := hall.balanced n o ho
  exact ⟨hsum, hfilled, by omega, hiff, hreported⟩

/-- A limit order of three, of which a trade fills two. -/
theorem quantities_conserved_sample :
    let order : Order := ⟨1, 0, 0, 0, 100, 3, 1, .buy, .limit⟩
    let ops : List ExchangeOp :=
      [.submitOrder order, .ackNew 1, .onTrade ⟨10, 0, 0, 100, 2, 1, .sell, 0⟩]
    let s := (new (⟨⟩ : ConservativeQueue)).session ops
    ∃ o, s.1.orders[1]? = some o ∧ o.filledQty + o.remainingQty = o.order.qty ∧
      o.filledQty = ((reportsAbout 1 s.2).map OrderReport.lastFillQty).sum := by
  intro order ops s
  have hnew : (new (⟨⟩ : ConservativeQueue)).IsNew := ⟨⟨⟩, .inl rfl⟩
  have hops : Always (MayCall (new (⟨⟩ : ConservativeQueue))) ops := by
    refine (always_snoc (α := ExchangeOp) (l := [.submitOrder order, .ackNew 1])).2
      ⟨?_, ?_, trivial, trivial⟩
    · refine (always_snoc (α := ExchangeOp) (l := [.submitOrder order])).2
        ⟨?_, ?_, trivial, trivial⟩
      · exact (always_snoc (α := ExchangeOp) (l := [])).2
          ⟨always_nil, by simp [Fresh, submittedIds], trivial, by decide⟩
      · simp [Fresh, ExchangeOp.submitted]
    · simp [Fresh, ExchangeOp.submitted]
  have hstored : s.1.orders[1]?.isSome = true := by decide +kernel
  obtain ⟨o, ho⟩ := Option.isSome_iff_exists.1 hstored
  obtain ⟨hsum, -, -, -, hreported⟩ := quantities_conserved hnew hops ho
  exact ⟨o, ho, hsum, hreported⟩

end ExchangeSimulator

end Backtester
