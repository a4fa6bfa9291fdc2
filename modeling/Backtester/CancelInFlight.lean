import Backtester.ExchangeOps

/-!
# A cancel in flight

Two runs of one sequence of market data : one on a simulator, the other after a cancel request for
order `n`. They differ in the state of that order only (`InFlight`) until a fill makes the
states equal again. Trades treat both alike. `applyL3Update` does not : it passes over orders whose
cancel is in flight, so their queue position is no longer followed (`MissesUpdate`).
-/

open History Std

set_option linter.unusedSectionVars false

namespace Backtester

/-- The calls that bring market data. -/
def ExchangeOp.isMarketData : ExchangeOp → Bool
  | onTrade _ | applyL2Update _ | applyL3Update _ => true
  | _ => false

variable {Q : Type} [QueueModel Q]

/-- The order with its cancel in flight. -/
def LiveOrder.cancelling {σ : Type} (o : LiveOrder σ) : LiveOrder σ :=
  { o with state := .pendingCancel }

/-- The order under an id, without or with a cancel in flight. -/
inductive CancelPair {σ : Type} : Option (LiveOrder σ) → Option (LiveOrder σ) → Prop
  | same {x : Option (LiveOrder σ)} : CancelPair x x
  | inFlight {o : LiveOrder σ} (state : o.state = .open ∨ o.state = .partiallyFilled) :
      CancelPair (some o) (some o.cancelling)

namespace ExchangeSimulator

/-- `ex'` is `ex`, but the cancel of order `n` may be in flight. -/
structure InFlight (n : ℕ) (ex ex' : ExchangeSimulator Q) : Prop where
  rest : ex' = { ex with orders := ex'.orders }
  others : ∀ m : ℕ, m ≠ n → ex'.orders[m]? = ex.orders[m]?
  order : CancelPair (ex.orders[n]?) (ex'.orders[n]?)

/-- An update of the venue moves the queue position of order `n` while its cancel is in
flight. -/
def MissesUpdate (n : ℕ) (ex : ExchangeSimulator Q) (update : L3Update) : Prop :=
  ∃ o, ex.orders[n]? = some o ∧ o.state = .pendingCancel ∧
    QueueModel.onL3Update ex.queueModel o.order o.queueState update ≠ o.queueState

/-- No update of the session is missed. -/
def NoneMissed (n : ℕ) (ex₀ : ExchangeSimulator Q) (ops : List ExchangeOp)
    (op : ExchangeOp) : Prop :=
  ∀ update, op = .applyL3Update update → ¬(ex₀.session ops).1.MissesUpdate n update

variable {ex ex' : ExchangeSimulator Q} {op : ExchangeOp} {ops : List ExchangeOp} {n : ℕ}
  {o : LiveOrder (QueueModel.State Q)} {q : Q} {trade : Tick}

theorem InFlight.of_cancelOrder (ho : ex.orders[n]? = some o)
    (state : o.state = .open ∨ o.state = .partiallyFilled) (hcancel : ex.cancelOrder n = .ok ex') :
    InFlight n ex ex' := by
  have hmay : (!o.state.canTransitionTo .pendingCancel) = false := by
    rcases state with state | state <;> rw [state] <;> rfl
  simp only [cancelOrder, ho, hmay, Bool.false_eq_true, ↓reduceIte, Except.ok.injEq] at hcancel
  subst hcancel
  refine ⟨rfl, fun m hm => by rw [getElem?_putOrder, if_neg (Ne.symm hm)], ?_⟩
  rw [getElem?_putOrder, if_pos rfl, ho]
  exact .inFlight state

/-! ## Trades -/

/-- An offer treats an order and the same order with a cancel in flight alike, and a fill makes them
equal. -/
theorem offer_cancelling (state : o.state = .open ∨ o.state = .partiallyFilled) :
    (o.cancelling.offer q trade).2 = (o.offer q trade).2 ∧
      CancelPair (some (o.offer q trade).1) (some (o.cancelling.offer q trade).1) := by
  have hfillable : o.state.isFillable = true := by
    rcases state with state | state <;> rw [state] <;> rfl
  have hqty : o.cancelling.fillQty q trade = o.fillQty q trade := rfl
  have hfilled : o.cancelling.filled q trade = o.filled q trade := rfl
  have hreport : o.cancelling.fillReport q trade = o.fillReport q trade := rfl
  rcases offer_cases q trade o with ⟨hpassed, heq⟩ | ⟨hnofill, heq⟩ | ⟨hremaining, -, hfill, heq⟩
  · have hremaining : o.remainingQty ≤ 0 := hpassed.resolve_right (by simp [hfillable])
    have heq' : o.cancelling.offer q trade = (o.cancelling, none) := if_pos hremaining
    rw [heq, heq']
    exact ⟨rfl, .inFlight state⟩
  · rcases offer_cases q trade o.cancelling with
      ⟨hpassed', heq'⟩ | ⟨-, heq'⟩ | ⟨-, -, hfill', -⟩
    · have hremaining : o.remainingQty ≤ 0 :=
        hpassed'.resolve_right (by simp [LiveOrder.cancelling, OrderState.isFillable])
      have heq₀ : o.offer q trade = (o, none) := if_pos hremaining
      rw [heq₀, heq']
      exact ⟨rfl, .inFlight state⟩
    · rw [heq, heq']
      exact ⟨rfl, .inFlight state⟩
    · omega
  · rcases offer_cases q trade o.cancelling with
      ⟨hpassed', -⟩ | ⟨hnofill', -⟩ | ⟨-, -, -, heq'⟩
    · have hremaining' : o.remainingQty ≤ 0 :=
        hpassed'.resolve_right (by simp [LiveOrder.cancelling, OrderState.isFillable])
      omega
    · omega
    · rw [heq, heq', hfilled, hreport]
      exact ⟨rfl, .same⟩

/-- Two loops over the same bucket, one with the cancel of order `n` in flight. -/
theorem foldl_offerTo_inFlight (q : Q) (trade : Tick) : ∀ (ids : List ℕ)
    (acc acc' : ExtTreeMap ℕ (LiveOrder (QueueModel.State Q)) × List OrderReport),
    (∀ m : ℕ, m ≠ n → acc'.1[m]? = acc.1[m]?) → CancelPair (acc.1[n]?) (acc'.1[n]?) →
    acc'.2 = acc.2 →
    (∀ m : ℕ, m ≠ n → (ids.foldl (offerTo q trade) acc').1[m]? =
      (ids.foldl (offerTo q trade) acc).1[m]?) ∧
    CancelPair ((ids.foldl (offerTo q trade) acc).1[n]?)
      ((ids.foldl (offerTo q trade) acc').1[n]?) ∧
    (ids.foldl (offerTo q trade) acc').2 = (ids.foldl (offerTo q trade) acc).2
  | [], _, _, hothers, hpair, hreports => ⟨hothers, hpair, hreports⟩
  | m :: ids, acc, acc', hothers, hpair, hreports => by
    refine foldl_offerTo_inFlight q trade ids _ _ (fun k hk => ?_) ?_ ?_
    · rw [getElem?_offerTo, getElem?_offerTo, hothers k hk]
    · rw [getElem?_offerTo, getElem?_offerTo]
      split_ifs
      · generalize acc.1[n]? = x, acc'.1[n]? = x' at hpair ⊢
        cases hpair with
        | same => exact .same
        | inFlight state => exact (offer_cancelling state).2
      · exact hpair
    · rw [reports_offerTo, reports_offerTo, hreports]
      have hsame : offerReport q trade acc'.1 m = offerReport q trade acc.1 m := by
        unfold offerReport
        by_cases hmn : m = n
        · subst hmn
          generalize acc.1[m]? = x, acc'.1[m]? = x' at hpair ⊢
          cases hpair with
          | same => rfl
          | inFlight state => exact (offer_cancelling state).1
        · rw [hothers m hmn]
      rw [hsame]

theorem InFlight.onTrade (h : InFlight n ex ex') (trade : Tick) :
    InFlight n (ex.onTrade trade).1 (ex'.onTrade trade).1 ∧
      (ex'.onTrade trade).2 = (ex.onTrade trade).2 := by
  have hbuckets : ex'.buckets = ex.buckets := by rw [h.rest]
  have hmodel : ex'.queueModel = ex.queueModel := by rw [h.rest]
  unfold ExchangeSimulator.onTrade
  cases makerSide trade.side with
  | none => exact ⟨h, rfl⟩
  | some side =>
    dsimp only
    rw [hbuckets, hmodel]
    obtain ⟨hothers, hpair, hreports⟩ := foldl_offerTo_inFlight ex.queueModel
      trade (ex.buckets trade.price side) (ex.orders, []) (ex'.orders, []) h.others h.order
      rfl
    exact ⟨⟨by rw [h.rest], hothers, hpair⟩, hreports⟩

/-! ## Depth updates -/

theorem InFlight.applyL3Update (h : InFlight n ex ex') {update : L3Update}
    (hmissed : ¬ex'.MissesUpdate n update) :
    InFlight n (ex.applyL3Update update).1 (ex'.applyL3Update update).1 := by
  have hmodel : ex'.queueModel = ex.queueModel := by rw [h.rest]
  refine ⟨?_, fun m hm => ?_, ?_⟩
  · have hbook : ex'.bookL3 = ex.bookL3 := by rw [h.rest]
    simp only [ExchangeSimulator.applyL3Update]
    rw [hbook]
    split
    · rw [h.rest]
    · split <;> rw [h.rest]
  · rw [getElem?_applyL3Update, getElem?_applyL3Update, h.others m hm, hmodel]
  · rw [getElem?_applyL3Update, getElem?_applyL3Update, hmodel]
    have hpair := h.order
    have hqueue : ∀ o : LiveOrder (QueueModel.State Q), ex'.orders[n]? = some o.cancelling →
        QueueModel.onL3Update ex.queueModel o.order o.queueState update = o.queueState := by
      intro o ho
      by_contra hne
      exact hmissed ⟨o.cancelling, ho, rfl, by rw [hmodel]; exact hne⟩
    generalize ex.orders[n]? = x, ex'.orders[n]? = x' at hpair hqueue ⊢
    cases hpair with
    | same => exact .same
    | @inFlight o state =>
      have hkept : o.followL3 ex.queueModel update = o := by
        have hsame := hqueue o rfl
        obtain ⟨order, s, filledQty, remainingQty, queueState⟩ := o
        obtain rfl | rfl : s = .open ∨ s = .partiallyFilled := state
        · exact congrArg (LiveOrder.mk order .open filledQty remainingQty) hsame
        · exact congrArg (LiveOrder.mk order .partiallyFilled filledQty remainingQty) hsame
      rw [Option.map_some, Option.map_some, hkept]
      exact .inFlight state

/-- Market data keeps the two simulators alike, as long as no update is missed. -/
theorem InFlight.perform (h : InFlight n ex ex') (hdata : op.isMarketData = true)
    (hmissed : ∀ update, op = .applyL3Update update → ¬ex'.MissesUpdate n update) :
    InFlight n (ex.perform op).1 (ex'.perform op).1 ∧ (ex'.perform op).2 = (ex.perform op).2 := by
  cases op with
  | onTrade trade => exact h.onTrade trade
  | applyL2Update update =>
    refine ⟨⟨?_, h.others, h.order⟩, rfl⟩
    simp only [ExchangeSimulator.perform, applyL2Update]
    rw [h.rest]
  | applyL3Update update => exact ⟨h.applyL3Update (hmissed update rfl), rfl⟩
  | _ => cases hdata

/-- Run the same market data without and with a cancel of order `n` in flight. As long as every L3
update that arrives while the cancel is in flight leaves the queue state of the order as it is, all
reports are the same, and so are the quantities of the order after every call. -/
theorem cancel_in_flight_unseen (ho : ex.orders[n]? = some o)
    (state : o.state = .open ∨ o.state = .partiallyFilled) (hcancel : ex.cancelOrder n = .ok ex')
    (hdata : ∀ op ∈ ops, op.isMarketData = true) (hmissed : Always (NoneMissed n ex') ops) :
    ∀ done, done <+: ops → (ex'.session done).2 = (ex.session done).2 ∧
      ((ex'.session done).1.orders[n]?).map (fun o => (o.filledQty, o.remainingQty)) =
        ((ex.session done).1.orders[n]?).map fun o => (o.filledQty, o.remainingQty) := by
  have hall : ∀ done, done <+: ops → InFlight n (ex.session done).1 (ex'.session done).1 ∧
      (ex'.session done).2 = (ex.session done).2 := by
    intro done
    induction done using List.reverseRecOn with
    | nil => exact fun _ => ⟨.of_cancelOrder ho state hcancel, rfl⟩
    | append_singleton done op ih =>
      rintro ⟨post, heq⟩
      obtain ⟨hflight, hreports⟩ := ih ⟨op :: post, by simpa using heq⟩
      have hmem : op ∈ ops := heq ▸ by simp
      have hnone := hmissed done op post (by simpa using heq.symm)
      obtain ⟨hflight', hnew⟩ := hflight.perform (hdata op hmem) hnone
      rw [session_snoc, session_snoc]
      exact ⟨hflight', by rw [Session.next, Session.next, hreports, hnew]⟩
  intro done hdone
  obtain ⟨hflight, hreports⟩ := hall done hdone
  refine ⟨hreports, ?_⟩
  have hpair := hflight.order
  generalize (ex.session done).1.orders[n]? = x, (ex'.session done).1.orders[n]? = x' at hpair ⊢
  cases hpair <;> rfl

/-- An L3 simulator with a buy order of two behind a venue order of five. -/
def behindVenue : ExchangeSimulator L3ExactQueue :=
  ((newL3 ⟨⟩).session [.applyL3Update ⟨1, 0, 1, 9, 100, 5, .buy, l3Add⟩,
    .submitOrder ⟨1, 0, 0, 0, 100, 2, 1, .buy, .limit⟩, .ackNew 1]).1

/-- The venue deletes its order, and a trade of two follows. -/
def venueLeaves : List ExchangeOp :=
  [.applyL3Update ⟨2, 1, 1, 9, 100, 0, .buy, l3Delete⟩, .onTrade ⟨3, 0, 2, 100, 2, 1, .sell, 0⟩]

/-- The order fills, but not with its cancel in flight. -/
theorem cancel_in_flight_seen :
    (behindVenue.orders[1]?).map LiveOrder.state = some .open ∧
      ((behindVenue.session venueLeaves).2.map OrderReport.lastFillQty) = [2] ∧
      (behindVenue.cancelOrder 1).toOption.map (fun ex => (ex.session venueLeaves).2) =
        some [] := by
  decide +kernel

/-- A venue order joins behind, and two trades fill the order, one each. -/
def venueStays : List ExchangeOp :=
  [.applyL3Update ⟨2, 1, 1, 11, 100, 4, .buy, l3Add⟩, .onTrade ⟨3, 0, 2, 100, 6, 1, .sell, 0⟩,
    .onTrade ⟨4, 0, 3, 100, 3, 1, .sell, 0⟩]

/-- While the venue's order ahead stays, the order fills the same with its cancel in flight. -/
theorem cancel_in_flight_unseen_sample :
    ∃ ex', behindVenue.cancelOrder 1 = .ok ex' ∧
      (behindVenue.session venueStays).2.map OrderReport.lastFillQty = [1, 1] ∧
      (ex'.session venueStays).2 = (behindVenue.session venueStays).2 ∧
      ((ex'.session venueStays).1.orders[1]?).map (fun o => (o.filledQty, o.remainingQty)) =
        ((behindVenue.session venueStays).1.orders[1]?).map fun o =>
          (o.filledQty, o.remainingQty) := by
  have hstored : (behindVenue.orders[1]?).map LiveOrder.state = some .open := by decide +kernel
  obtain ⟨o, ho, hstate⟩ := Option.map_eq_some_iff.1 hstored
  have hcancel : (behindVenue.cancelOrder 1).toOption.isSome = true := by decide +kernel
  cases hex : behindVenue.cancelOrder 1 with
  | error err => simp [hex, Except.toOption] at hcancel
  | ok ex' =>
    have hmissed : Always (NoneMissed 1 ex') venueStays := by
      refine (always_snoc (l := venueStays.take 2)).2 ⟨?_, fun update heq => by cases heq⟩
      refine (always_snoc (l := venueStays.take 1)).2 ⟨?_, fun update heq => by cases heq⟩
      refine (always_snoc (l := [])).2 ⟨always_nil, ?_⟩
      -- an order that joins does not move the orders ahead of it
      rintro update heq ⟨o, -, -, hmoved⟩
      cases heq
      exact hmoved (by simp [QueueModel.onL3Update, l3Add, l3Delete, l3Modify])
    have hdata : ∀ op ∈ venueStays, op.isMarketData = true := by decide
    obtain ⟨hreports, hquantities⟩ :=
      cancel_in_flight_unseen ho (.inl hstate) hex hdata hmissed venueStays List.prefix_rfl
    exact ⟨ex', rfl, by decide +kernel, hreports, hquantities⟩

end ExchangeSimulator

end Backtester
