import Backtester.ExchangeOps

/-!
# Prices of fills

A trade is offered to the orders at its own price only. A resting order at a better price is neither
filled by it nor changed in any way, so a fill at a worse price passes it by
(`ExchangeSimulator.price_priority`).
-/

open History Std

set_option linter.unusedSectionVars false

namespace Backtester

variable {Q : Type} [QueueModel Q]

namespace ExchangeSimulator

/-- `price` is better than `price'` for an order of `side`. -/
def IsBetter : Side → ℤ → ℤ → Prop
  | .buy, price, price' => price' < price
  | .sell, price, price' => price < price'
  | .none, _, _ => False

/-- A limit order of `side` with a better price than `price` rests with quantity left. -/
def HasBetter (ex : ExchangeSimulator Q) (side : Side) (price : ℤ) : Prop :=
  ∃ (n : ℕ) (o : LiveOrder (QueueModel.State Q)), ex.orders[n]? = some o ∧
    o.order.orderType = .limit ∧ o.order.side = side ∧ IsBetter side o.order.price price ∧
    o.state.isFillable = true ∧ 0 < o.remainingQty

variable {ex ex₀ : ExchangeSimulator Q} {ops : List ExchangeOp} {ids : List ℕ} {trade : Tick}
  {o : LiveOrder (QueueModel.State Q)} {n : ℕ}

theorem IsBetter.ne {side : Side} {price price' : ℤ} (h : IsBetter side price price') :
    price ≠ price' := by
  cases side <;> simp only [IsBetter] at h <;> omega

/-- A trade changes no order at another price. -/
theorem getElem?_onTrade_of_ne (h : ex.Indexed ids)
    (hprice : ∀ o, ex.orders[n]? = some o → o.order.price ≠ trade.price) :
    (ex.onTrade trade).1.orders[n]? = ex.orders[n]? := by
  cases hside : makerSide trade.side with
  | none =>
    unfold onTrade
    rw [hside]
  | some side =>
    rw [(onTrade_eq h hside).1, if_neg]
    intro hat
    cases ho : ex.orders[n]? with
    | none => simp [isAt, getOrder, ho] at hat
    | some o =>
      have hsame : o.order.price = trade.price ∧ o.order.side = side := by
        simpa [isAt, getOrder, ho] using hat
      exact hprice o ho hsame.1

/-- An order at another price is stored after a trade exactly if it was before. -/
theorem getElem?_onTrade_iff (h : ex.Indexed ids) (hprice : o.order.price ≠ trade.price) :
    (ex.onTrade trade).1.orders[n]? = some o ↔ ex.orders[n]? = some o := by
  constructor
  · intro ho
    have horder : ex.getOrder n = some o.order := by
      rw [← getOrder_onTrade trade n, getOrder, ho]
      rfl
    have hother : ∀ o', ex.orders[n]? = some o' → o'.order.price ≠ trade.price := by
      intro o' ho'
      have hsame : some o'.order = some o.order := by rw [← horder, getOrder, ho', Option.map_some]
      exact Option.some.inj hsame ▸ hprice
    exact (getElem?_onTrade_of_ne h hother).symm.trans ho
  · intro ho
    refine (getElem?_onTrade_of_ne h fun o' ho' => ?_).trans ho
    exact Option.some.inj (ho.symm.trans ho') ▸ hprice

/-- A trade does not change which orders rest at better prices than its own. -/
theorem hasBetter_onTrade (h : ex.Indexed ids) (side : Side) :
    (ex.onTrade trade).1.HasBetter side trade.price ↔ ex.HasBetter side trade.price := by
  constructor
  · rintro ⟨n, o, ho, htype, hside, hbetter, hrest⟩
    exact ⟨n, o, (getElem?_onTrade_iff h hbetter.ne).1 ho, htype, hside, hbetter, hrest⟩
  · rintro ⟨n, o, ho, htype, hside, hbetter, hrest⟩
    exact ⟨n, o, (getElem?_onTrade_iff h hbetter.ne).2 ho, htype, hside, hbetter, hrest⟩

/-- A trade fills stored orders at its own price, at that price. -/
theorem price_of_report (h : ex.Indexed ids) {r : OrderReport} (hr : r ∈ (ex.onTrade trade).2) :
    r.lastFillPrice = trade.price ∧
      ∃ o, ex.orders[r.orderId]? = some o ∧ o.order.price = trade.price := by
  cases hside : makerSide trade.side with
  | none =>
    unfold onTrade at hr
    rw [hside] at hr
    cases hr
  | some side =>
    rw [(onTrade_eq h hside).2] at hr
    obtain ⟨n, hn, hreport⟩ := List.mem_filterMap.1 hr
    obtain ⟨o, ho, hoffer⟩ := Option.bind_eq_some_iff.1 hreport
    have hat : o.order.price = trade.price ∧ o.order.side = side := by
      simpa [isAt, getOrder, ho] using (List.mem_filter.1 hn).2
    rcases offer_cases ex.queueModel trade o with ⟨-, heq⟩ | ⟨-, heq⟩ | ⟨-, -, -, heq⟩
    · rw [heq] at hoffer
      cases hoffer
    · rw [heq] at hoffer
      cases hoffer
    · rw [heq] at hoffer
      obtain rfl := Option.some.inj hoffer
      have hid : (o.fillReport ex.queueModel trade).orderId = n := h.orderId ho
      exact ⟨rfl, o, hid.symm ▸ ho, hat.1⟩

/-- A trade fills stored orders at exactly its own price, and tells that price. Every order at
another price is stored after it exactly as before, be anything filled or not. So after a fill limit
orders rest at prices better than the filled order's exactly if they did before. -/
theorem price_priority (hnew : ex₀.IsNew) (hops : Always Fresh ops) (trade : Tick) :
    (∀ r ∈ ((ex₀.session ops).1.onTrade trade).2, r.lastFillPrice = trade.price ∧
      ∃ o, (ex₀.session ops).1.orders[r.orderId]? = some o ∧ o.order.price = trade.price ∧
        (((ex₀.session ops).1.onTrade trade).1.HasBetter o.order.side r.lastFillPrice ↔
          (ex₀.session ops).1.HasBetter o.order.side r.lastFillPrice)) ∧
    ∀ (n : ℕ) (o : LiveOrder (QueueModel.State Q)), o.order.price ≠ trade.price →
      (((ex₀.session ops).1.onTrade trade).1.orders[n]? = some o ↔
        (ex₀.session ops).1.orders[n]? = some o) := by
  have hindexed := indexed_session hnew hops
  refine ⟨fun r hr => ?_, fun n o hother => getElem?_onTrade_iff hindexed hother⟩
  obtain ⟨hprice, o, ho, hown⟩ := price_of_report hindexed hr
  rw [hprice]
  exact ⟨rfl, o, ho, hown, hasBetter_onTrade hindexed o.order.side⟩

/-- Buy orders of one at 100 and at 101. -/
def twoPrices : List ExchangeOp :=
  [.submitOrder ⟨1, 0, 0, 0, 100, 1, 1, .buy, .limit⟩, .ackNew 1,
    .submitOrder ⟨2, 0, 0, 0, 101, 1, 1, .buy, .limit⟩, .ackNew 2]

/-- A trade at 100 fills the order at 100 and leaves the one at 101 open. -/
theorem price_priority_missed :
    let ex := ((new (⟨⟩ : ConservativeQueue)).session twoPrices).1
    let after := ex.onTrade ⟨10, 0, 0, 100, 1, 1, .sell, 0⟩
    after.2.map (fun r => (r.orderId, r.lastFillQty, r.lastFillPrice)) = [(1, 1, 100)] ∧
      after.1.orders[2]?.map (fun o => (o.order.price, o.state, o.remainingQty)) =
        some (101, .open, 1) := by
  decide +kernel

theorem price_priority_sample :
    let ex := ((new (⟨⟩ : ConservativeQueue)).session twoPrices).1
    let trade : Tick := ⟨10, 0, 0, 100, 1, 1, .sell, 0⟩
    let after := (ex.onTrade trade).1
    (∀ r ∈ (ex.onTrade trade).2, r.lastFillPrice = 100) ∧
      (after.HasBetter .buy 100 ↔ ex.HasBetter .buy 100) ∧
      (∀ (n : ℕ) (o : LiveOrder ConservativeQueueState), o.order.price ≠ 100 →
        (after.orders[n]? = some o ↔ ex.orders[n]? = some o)) := by
  intro ex trade after
  have hnew : (new (⟨⟩ : ConservativeQueue)).IsNew := ⟨⟨⟩, .inl rfl⟩
  have hops : Always Fresh twoPrices := fresh_of_nodup (by decide)
  obtain ⟨hfills, hframe⟩ := price_priority hnew hops trade
  have hfill : (⟨1, 0, 1, 100, 1, 0, none, 1, .filled⟩ : OrderReport) ∈ (ex.onTrade trade).2 := by
    decide +kernel
  have hside : ex.orders[1]?.map (·.order.side) = some .buy := by decide +kernel
  obtain ⟨-, o, ho, -, hbetter⟩ := hfills _ hfill
  have hbuy : o.order.side = .buy := by
    rw [ho] at hside
    exact Option.some.inj hside
  exact ⟨fun r hr => (hfills r hr).1, hbuy ▸ hbetter, hframe⟩

end ExchangeSimulator

end Backtester
