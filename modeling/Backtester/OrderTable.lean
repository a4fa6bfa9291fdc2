import Backtester.ExchangeSimulator

/-!
# Orders in the table of an exchange

What an exchange shows of an order is its `face` : the order as submitted and its state. Every
operation has a lemma that gives the faces after it. A trade may fill an order several times
if its bucket lists it several times; `Fills` is what all these fills amount to.
-/

open Std

namespace Backtester

variable {Q : Type} [QueueModel Q]

/-- What fills do to the face of order `n`, with the reports about any orders. -/
inductive Fills (n : ℕ) (f : Option (Order × OrderState)) :
    List OrderReport → Option (Order × OrderState) → Prop
  | start : Fills n f [] f
  | other {rs : List OrderReport} {g : Option (Order × OrderState)} {r : OrderReport} :
      Fills n f rs g → r.orderId ≠ n → Fills n f (rs ++ [r]) g
  | part {rs : List OrderReport} {o : Order} {s : OrderState} {r : OrderReport} :
      Fills n f rs (some (o, s)) → s.isFillable → r.orderId = n → r.status = .partiallyFilled →
      Fills n f (rs ++ [r]) (some (o, .partiallyFilled))
  | whole {rs : List OrderReport} {o : Order} {s : OrderState} {r : OrderReport} :
      Fills n f rs (some (o, s)) → s.isFillable → r.orderId = n → r.status = .filled →
      Fills n f (rs ++ [r]) (some (o, .filled))

/-- An order that is not fillable is not filled. -/
theorem Fills.idle_or {n : ℕ} {f g : Option (Order × OrderState)} {rs : List OrderReport}
    (h : Fills n f rs g) : (g = f ∧ ∀ r ∈ rs, r.orderId ≠ n) ∨
      ∃ o s, f = some (o, s) ∧ s.isFillable = true := by
  induction h with
  | start => exact .inl ⟨rfl, by simp⟩
  | other _ hr ih =>
    rcases ih with ⟨hg, hrs⟩ | hf
    · refine .inl ⟨hg, fun r' hr' => ?_⟩
      rcases List.mem_append.1 hr' with hr' | hr'
      · exact hrs r' hr'
      · exact List.mem_singleton.1 hr' ▸ hr
    · exact .inr hf
  | part _ hs _ _ ih =>
    rcases ih with ⟨hg, -⟩ | hf
    · exact .inr ⟨_, _, hg.symm, hs⟩
    · exact .inr hf
  | whole _ hs _ _ ih =>
    rcases ih with ⟨hg, -⟩ | hf
    · exact .inr ⟨_, _, hg.symm, hs⟩
    · exact .inr hf

/-- What an order shows. -/
def LiveOrder.face {σ : Type} (o : LiveOrder σ) : Order × OrderState := (o.order, o.state)

namespace ExchangeSimulator

/-- The order under an id, and its state. -/
def face (ex : ExchangeSimulator Q) (n : ℕ) : Option (Order × OrderState) :=
  ex.orders[n]?.map LiveOrder.face

/-- Orders are kept under their ids. -/
def Keyed (ex : ExchangeSimulator Q) : Prop :=
  ∀ (n : ℕ) o, ex.orders[n]? = some o → o.order.orderId = n

variable {ex ex' : ExchangeSimulator Q} {m n : ℕ}

/-- An order shows the order as submitted and its state. -/
theorem face_eq_some {o : Order} {s : OrderState} :
    ex.face n = some (o, s) ↔ ∃ live, ex.orders[n]? = some live ∧ live.order = o ∧
      live.state = s := by
  simp [face, LiveOrder.face]

theorem face_eq_none : ex.face n = none ↔ ex.orders[n]? = none := by simp [face]

/-- Orders stored under their ids, as the faces show them. -/
theorem keyed_iff : ex.Keyed ↔ ∀ n o s, ex.face n = some (o, s) → o.orderId = n := by
  constructor
  · rintro h n o s hf
    obtain ⟨live, hlive, rfl, -⟩ := face_eq_some.1 hf
    exact h n live hlive
  · exact fun h n live hlive => h n live.order live.state (face_eq_some.2 ⟨live, hlive, rfl, rfl⟩)

@[simp] theorem face_new (q : Q) : (new q).face n = none := by simp [face, new]

@[simp] theorem face_newL3 (q : Q) : (newL3 q).face n = none := by simp [face, newL3, new]

@[simp] theorem face_applyL2Update (update : L2Update) :
    (ex.applyL2Update update).face n = ex.face n := rfl

/-- Moving in the queue does not show. -/
theorem face_followL3 (q : Q) (update : L3Update) (live : LiveOrder (QueueModel.State Q)) :
    (live.followL3 q update).order = live.order ∧ (live.followL3 q update).state = live.state := by
  unfold LiveOrder.followL3
  split <;> exact ⟨rfl, by simp_all⟩

@[simp] theorem face_applyL3Update (update : L3Update) :
    (ex.applyL3Update update).1.face n = ex.face n := by
  have hmap : ∀ bookL3, face { ex with
      bookL3 := bookL3
      orders := ex.orders.map fun _ live => LiveOrder.followL3 ex.queueModel update live } n =
        ex.face n := by
    intro bookL3
    simp only [face, ExtTreeMap.getElem?_map, Option.map_map]
    refine congrArg (fun f => Option.map f ex.orders[n]?) (funext fun live => ?_)
    exact Prod.ext (face_followL3 _ _ _).1 (face_followL3 _ _ _).2
  simp only [applyL3Update]
  split
  · exact hmap _
  · split
    · exact hmap _
    · exact hmap _

/-- An order that is submitted shows as pending. -/
theorem face_submitOrder (order : Order) :
    (ex.submitOrder order).face n =
      if order.orderId = n then some (order, .pendingNew) else ex.face n := by
  simp only [face, submitOrder, ExtTreeMap.getElem?_insert, Std.compare_eq_iff_eq]
  split_ifs <;> rfl

/-- The order that is stored shows. -/
theorem face_putOrder (live : LiveOrder (QueueModel.State Q)) :
    (ex.putOrder m live).face n = if m = n then some (live.order, live.state) else ex.face n := by
  simp only [face, putOrder, ExtTreeMap.getElem?_insert, Std.compare_eq_iff_eq]
  split_ifs <;> rfl

/-- An order that is removed does not show. -/
theorem face_removeOrder : (ex.removeOrder m).face n = if m = n then none else ex.face n := by
  unfold removeOrder
  split
  · next h =>
    split_ifs with hmn
    · exact hmn ▸ face_eq_none.2 h
    · rfl
  · simp only [face, ExtTreeMap.getElem?_erase, Std.compare_eq_iff_eq]
    split_ifs <;> rfl

/-- A new order is acknowledged when it is `pendingNew`, and only then. -/
theorem ackNew_spec (ex : ExchangeSimulator Q) (m : ℕ) :
    (∃ o report ex', ex.ackNew m = .ok (report, ex') ∧ ex.face m = some (o, .pendingNew) ∧
      report.orderId = o.orderId ∧ report.status = .open ∧
      ∀ n, ex'.face n = if m = n then some (o, .open) else ex.face n) ∨
    ∃ err, ex.ackNew m = .error err ∧ ∀ o, ex.face m ≠ some (o, .pendingNew) := by
  unfold ackNew
  split
  · next h => exact .inr ⟨_, rfl, by simp [face_eq_none.2 h]⟩
  · next live h =>
    split_ifs with hstate
    · refine .inr ⟨_, rfl, fun o hf => ?_⟩
      obtain ⟨live', hlive', -, hs⟩ := face_eq_some.1 hf
      rw [h] at hlive'
      exact hstate (Option.some.inj hlive' ▸ hs)
    · refine .inl ⟨live.order, _, _, rfl, ?_, rfl, rfl, fun n => face_putOrder _⟩
      exact face_eq_some.2 ⟨live, h, rfl, not_not.1 hstate⟩

/-- A cancel is accepted from the states that allow it, and shows as pending. -/
theorem cancelOrder_spec (ex : ExchangeSimulator Q) (m : ℕ) :
    (∃ o s ex', ex.cancelOrder m = .ok ex' ∧ ex.face m = some (o, s) ∧
      s.canTransitionTo .pendingCancel = true ∧
      ∀ n, ex'.face n = if m = n then some (o, .pendingCancel) else ex.face n) ∨
    ∃ err, ex.cancelOrder m = .error err := by
  unfold cancelOrder
  split
  · exact .inr ⟨_, rfl⟩
  · next live h =>
    split_ifs with hstate
    · exact .inr ⟨_, rfl⟩
    · refine .inl ⟨live.order, live.state, _, rfl, face_eq_some.2 ⟨live, h, rfl, rfl⟩, ?_,
        fun n => face_putOrder _⟩
      simpa using hstate

/-- A pending cancel is answered, and the order shows as cancelled. -/
theorem ackCancel_spec (ex : ExchangeSimulator Q) (m : ℕ) :
    (∃ o report ex', ex.ackCancel m = .ok (report, ex') ∧ ex.face m = some (o, .pendingCancel) ∧
      report.orderId = o.orderId ∧ report.status = .cancelled ∧
      ∀ n, ex'.face n = if m = n then some (o, .cancelled) else ex.face n) ∨
    ∃ err, ex.ackCancel m = .error err ∧ ∀ o, ex.face m ≠ some (o, .pendingCancel) := by
  unfold ackCancel
  split
  · next h => exact .inr ⟨_, rfl, by simp [face_eq_none.2 h]⟩
  · next live h =>
    have hne : live.state ≠ .pendingCancel → ∀ o, ex.face m ≠ some (o, .pendingCancel) := by
      intro hstate o hf
      obtain ⟨live', hlive', -, hs⟩ := face_eq_some.1 hf
      rw [h] at hlive'
      exact hstate (Option.some.inj hlive' ▸ hs)
    split
    · next hstate =>
      exact .inl ⟨live.order, _, _, rfl, face_eq_some.2 ⟨live, h, rfl, hstate⟩, rfl, rfl,
        fun n => face_putOrder _⟩
    · next hstate => exact .inr ⟨_, rfl, hne (by simp [hstate])⟩
    · next hstate _ => exact .inr ⟨_, rfl, hne hstate⟩

/-- The order as submitted is a part of the face. -/
theorem getOrder_eq : ex.getOrder m = (ex.face m).map Prod.fst := by
  simp only [getOrder, face, Option.map_map]
  rfl

/-- A market order is filled, wholly or in part, or rejected. -/
theorem fillMarketImmediately_spec (ex : ExchangeSimulator Q) (m : ℕ) (fallbackPrice : Option ℤ) :
    (∃ o s s' report ex', ex.fillMarketImmediately m fallbackPrice = some (report, ex') ∧
      ex.face m = some (o, s) ∧ report.orderId = o.orderId ∧ report.status = s' ∧
      (s' = .filled ∨ s' = .partiallyFilled ∨ s' = .rejected) ∧
      ∀ n, ex'.face n = if m = n then some (o, s') else ex.face n) ∨
    ex.fillMarketImmediately m fallbackPrice = none ∧ ex.face m = none := by
  unfold fillMarketImmediately
  cases h : ex.orders[m]? with
  | none => exact .inr ⟨rfl, face_eq_none.2 h⟩
  | some live =>
    rw [Option.map_some]
    split
    · refine .inl ⟨live.order, live.state, _, _, _, rfl, face_eq_some.2 ⟨live, h, rfl, rfl⟩,
        rfl, rfl,
        ?_, fun n => face_putOrder _⟩
      split_ifs
      · exact .inl rfl
      · exact .inr (.inl rfl)
    · exact .inl ⟨live.order, live.state, _, _, _, rfl, face_eq_some.2 ⟨live, h, rfl, rfl⟩,
        rfl, rfl,
        .inr (.inr rfl), fun n => face_putOrder _⟩

/-- What is left of a market order is cancelled, if it is stored. -/
theorem forceCancelPartialFill_spec (ex : ExchangeSimulator Q) (m : ℕ) :
    (∃ o s report ex', ex.forceCancelPartialFill m = some (report, ex') ∧
      ex.face m = some (o, s) ∧ report.orderId = o.orderId ∧ report.status = .cancelled ∧
      ∀ n, ex'.face n = if m = n then some (o, .cancelled) else ex.face n) ∨
    ex.forceCancelPartialFill m = none ∧ ex.face m = none := by
  unfold forceCancelPartialFill
  cases h : ex.orders[m]? with
  | none => exact .inr ⟨rfl, face_eq_none.2 h⟩
  | some live =>
    exact .inl ⟨live.order, live.state, _, _, rfl, face_eq_some.2 ⟨live, h, rfl, rfl⟩, rfl, rfl,
      fun n => face_putOrder _⟩

/-! ## Trades -/

/-- An offer leaves the order as it is, or fills it in part or wholly. -/
theorem offer_spec (q : Q) (trade : Tick) (live : LiveOrder (QueueModel.State Q)) :
    ((live.offer q trade).2 = none ∧ (live.offer q trade).1.face = live.face) ∨
    ∃ r, (live.offer q trade).2 = some r ∧ live.state.isFillable = true ∧
      r.orderId = live.order.orderId ∧ (live.offer q trade).1.face = (live.order, r.status) ∧
      (r.status = .filled ∨ r.status = .partiallyFilled) := by
  unfold LiveOrder.offer
  split_ifs with hrem hstate
  · exact .inl ⟨rfl, rfl⟩
  · exact .inl ⟨rfl, rfl⟩
  · dsimp only
    split_ifs with hfill
    · exact .inl ⟨rfl, rfl⟩
    · refine .inr ⟨_, rfl, by simpa using hstate, rfl, rfl, ?_⟩
      change (if _ then _ else _) = _ ∨ (if _ then _ else _) = _
      split_ifs
      · exact .inl rfl
      · exact .inr rfl

/-- A trade changes no order as it was submitted. -/
theorem order_offer (q : Q) (trade : Tick) (live : LiveOrder (QueueModel.State Q)) :
    (live.offer q trade).1.order = live.order := by
  rcases offer_spec q trade live with ⟨-, hface⟩ | ⟨r, -, -, -, hface, -⟩
  · exact congrArg Prod.fst hface
  · exact congrArg Prod.fst hface

variable {q : Q} {trade : Tick}
  {acc : ExtTreeMap ℕ (LiveOrder (QueueModel.State Q)) × List OrderReport}

/-- Offers keep orders under their ids. -/
theorem keyed_offerTo
    (hkeyed : ∀ (k : ℕ) (o : LiveOrder (QueueModel.State Q)), acc.1[k]? = some o →
      o.order.orderId = k)
    (m : ℕ) : ∀ (k : ℕ) (o : LiveOrder (QueueModel.State Q)),
      (offerTo q trade acc m).1[k]? = some o → o.order.orderId = k := by
  intro k o hk
  unfold offerTo at hk
  split at hk
  · exact hkeyed k o hk
  · next live hm =>
    simp only [ExtTreeMap.getElem?_insert, Std.compare_eq_iff_eq] at hk
    split_ifs at hk with hmk
    · rw [← Option.some.inj hk, order_offer, hkeyed m live hm, hmk]
    · exact hkeyed k o hk

/-- One offer of the loop, seen from order `n`. -/
theorem fills_offerTo {f : Option (Order × OrderState)}
    (hkeyed : ∀ (k : ℕ) (o : LiveOrder (QueueModel.State Q)), acc.1[k]? = some o →
      o.order.orderId = k)
    (h : Fills n f acc.2 (acc.1[n]?.map LiveOrder.face)) (m : ℕ) :
    Fills n f (offerTo q trade acc m).2 ((offerTo q trade acc m).1[n]?.map LiveOrder.face) := by
  unfold offerTo
  split
  · exact h
  · next live hm =>
    have hid := hkeyed m live hm
    simp only [ExtTreeMap.getElem?_insert, Std.compare_eq_iff_eq]
    rcases offer_spec q trade live with ⟨hnone, hface⟩ | ⟨r, hsome, hfillable, hr, hface, hs⟩
    · rw [hnone, Option.toList_none, List.append_nil]
      split_ifs with hmn
      · subst hmn
        rw [Option.map_some, hface]
        rwa [hm, Option.map_some] at h
      · exact h
    · rw [hsome, Option.toList_some]
      split_ifs with hmn
      · subst hmn
        rw [hm, Option.map_some] at h
        rw [Option.map_some, hface]
        rcases hs with hs | hs
        · rw [hs]
          exact .whole h hfillable (hr.trans hid) hs
        · rw [hs]
          exact .part h hfillable (hr.trans hid) hs
      · exact .other h fun heq => hmn (hid.symm.trans (hr.symm.trans heq))

/-- Offering a trade to several orders fills each of them once. -/
theorem fills_foldl {f : Option (Order × OrderState)} : ∀ (ids : List ℕ)
    (acc : ExtTreeMap ℕ (LiveOrder (QueueModel.State Q)) × List OrderReport),
    (∀ (k : ℕ) (o : LiveOrder (QueueModel.State Q)), acc.1[k]? = some o → o.order.orderId = k) →
    Fills n f acc.2 (acc.1[n]?.map LiveOrder.face) →
    Fills n f (ids.foldl (offerTo q trade) acc).2
      ((ids.foldl (offerTo q trade) acc).1[n]?.map LiveOrder.face)
  | [], _, _, h => h
  | m :: ids, _, hkeyed, h => fills_foldl ids _ (keyed_offerTo hkeyed m) (fills_offerTo hkeyed h m)

/-- A trade fills order `n` as its reports say. -/
theorem onTrade_spec (hkeyed : ex.Keyed) (trade : Tick) (n : ℕ) :
    Fills n (ex.face n) (ex.onTrade trade).2 ((ex.onTrade trade).1.face n) := by
  unfold onTrade
  split
  · exact .start
  · exact fills_foldl _ _ hkeyed .start

end ExchangeSimulator

end Backtester
