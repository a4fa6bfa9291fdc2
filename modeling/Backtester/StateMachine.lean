import Backtester.ExchangeOps

/-!
# The order state machine

`OrderState.canTransitionTo` is the table of legal transitions. Only `cancelOrder` consults it.
The other operations agree with it, except that a trade which fills a part of an order whose
cancel is in flight takes it from `pendingCancel` back to `partiallyFilled`. `SplitsCancel` says
when that happens, and `obeys_iff` that nothing else leaves the table.
-/

open History Std

set_option linter.unusedSectionVars false

namespace Backtester.ExchangeSimulator

variable {Q : Type} [QueueModel Q]

/-- What the engine respects when it calls an exchange : ids are fresh, market fills are for
market orders not acknowledged yet, forced cancels for partially filled orders. -/
def MayMove (ex₀ : ExchangeSimulator Q) (ops : List ExchangeOp) (op : ExchangeOp) : Prop :=
  Fresh ops op ∧
  match op with
  | .fillMarketImmediately m _ => ∀ o, (ex₀.session ops).1.orders[m]? = some o →
      o.state = .pendingNew ∧ o.order.orderType = .market
  | .forceCancelPartialFill m =>
    ∀ o, (ex₀.session ops).1.orders[m]? = some o → o.state = .partiallyFilled
  | _ => True

/-- Whenever the operation changes the state of a stored order or fills it, the table has the
transition. -/
def Obeys (ex : ExchangeSimulator Q) (op : ExchangeOp) : Prop :=
  ∀ (n : ℕ) (o o' : LiveOrder (QueueModel.State Q)), ex.orders[n]? = some o →
    (ex.perform op).1.orders[n]? = some o' →
    (o'.state ≠ o.state ∨ ∃ r ∈ reportsAbout n (ex.perform op).2, 0 < r.lastFillQty) →
    o.state.canTransitionTo o'.state = true

/-- The trade fills a part of an order at its price whose cancel is in flight. -/
def SplitsCancel (ex : ExchangeSimulator Q) (trade : Tick) : Prop :=
  ∃ side n o, makerSide trade.side = some side ∧ ex.isAt trade.price side n = true ∧
    ex.orders[n]? = some o ∧ o.state = .pendingCancel ∧ 0 < o.remainingQty ∧
    0 < o.fillQty ex.queueModel trade ∧
    subI64 o.remainingQty (o.fillQty ex.queueModel trade) ≠ 0

/-- No trade of the session fills a part of an order whose cancel is in flight. -/
def NoSplit (ex₀ : ExchangeSimulator Q) (ops : List ExchangeOp) (op : ExchangeOp) : Prop :=
  ∀ trade, op = .onTrade trade → ¬(ex₀.session ops).1.SplitsCancel trade

variable {ex ex₀ : ExchangeSimulator Q} {op : ExchangeOp} {ops : List ExchangeOp} {ids : List ℕ}
  {o o' : LiveOrder (QueueModel.State Q)} {rs : List OrderReport} {trade : Tick} {m n : ℕ}

/-- Every change but that of a trade agrees with the table. -/
theorem Change.legal (h : Change ex op o o' rs) (htrade : ∀ trade, op ≠ .onTrade trade)
    (hmarket : ∀ m p, op = .fillMarketImmediately m p → o.state = .pendingNew)
    (hforce : ∀ m, op = .forceCancelPartialFill m → o.state = .partiallyFilled)
    (hmoved : o'.state ≠ o.state ∨ ∃ r ∈ rs, 0 < r.lastFillQty) :
    o.state.canTransitionTo o'.state = true := by
  cases h with
  | idle => simp at hmoved
  | ack state => rw [state]; rfl
  | cancel may => exact may
  | cancelAck state => rw [state]; rfl
  | @marketFill _ m p price availableQty fillQty remainingQty s level hfill hremaining hs =>
    rw [hmarket m p rfl, hs]
    split_ifs <;> rfl
  | @marketReject _ m p level => rw [hmarket m p rfl]; rfl
  | @forceCancel _ m => rw [hforce m rfl]; rfl
  | follow => simp [(face_followL3 _ _ _).2] at hmoved
  | @offer _ trade => exact absurd rfl (htrade trade)

/-- A fill leaves the order `filled` or `partiallyFilled`. -/
theorem state_filled (q : Q) (trade : Tick) (o : LiveOrder (QueueModel.State Q)) :
    (o.filled q trade).state =
      if subI64 o.remainingQty (o.fillQty q trade) = 0 then .filled else .partiallyFilled := rfl

/-- An offer agrees with the table unless it splits a cancel. -/
theorem offer_legal (q : Q) (trade : Tick) (o : LiveOrder (QueueModel.State Q))
    (hmoved : (o.offer q trade).1.state ≠ o.state ∨
      ∃ r ∈ (o.offer q trade).2.toList, 0 < r.lastFillQty) :
    o.state.canTransitionTo (o.offer q trade).1.state = true ∨
      (o.state = .pendingCancel ∧ 0 < o.remainingQty ∧ 0 < o.fillQty q trade ∧
        subI64 o.remainingQty (o.fillQty q trade) ≠ 0) := by
  rcases offer_cases q trade o with ⟨-, heq⟩ | ⟨-, heq⟩ | ⟨hremaining, hfillable, hfill, heq⟩
  · simp [heq] at hmoved
  · simp [heq, LiveOrder.queued] at hmoved
  · rw [heq]
    dsimp only
    rw [state_filled]
    by_cases hrest : subI64 o.remainingQty (o.fillQty q trade) = 0
    · rw [if_pos hrest]
      cases hstate : o.state <;> simp_all [OrderState.isFillable, OrderState.canTransitionTo]
    · rw [if_neg hrest]
      cases hstate : o.state <;> simp_all [OrderState.isFillable, OrderState.canTransitionTo]

/-- A trade agrees with the table exactly when it splits no cancel. -/
theorem obeys_onTrade (h : ex.Indexed ids) : ex.Obeys (.onTrade trade) ↔
    ¬ex.SplitsCancel trade := by
  constructor
  · rintro hobeys ⟨side, n, o, hside, hat, ho, hstate, hremaining, hfill, hrest⟩
    rcases offer_cases ex.queueModel trade o with
      ⟨hpassed, -⟩ | ⟨hnofill, -⟩ | ⟨-, -, -, heq⟩
    · rw [hstate] at hpassed
      rcases hpassed with hpassed | hpassed
      · omega
      · cases hpassed
    · omega
    · have hafter : (ex.perform (.onTrade trade)).1.orders[n]? =
          some (o.filled ex.queueModel trade) := by
        have hn := (onTrade_eq h hside).1 n
        rw [if_pos hat, ho, Option.map_some, heq] at hn
        exact hn
      have hmoved := hobeys n o _ ho hafter
        (.inl (by rw [state_filled, if_neg hrest, hstate]; simp))
      rw [state_filled, if_neg hrest, hstate] at hmoved
      cases hmoved
  · intro hno n o o' ho ho' hmoved
    change (ex.onTrade trade).1.orders[n]? = some o' at ho'
    change o'.state ≠ o.state ∨ ∃ r ∈ reportsAbout n (ex.onTrade trade).2,
      0 < r.lastFillQty at hmoved
    cases hside : makerSide trade.side with
    | none =>
      have hnone : ex.onTrade trade = (ex, []) := by
        unfold onTrade
        rw [hside]
      rw [hnone] at ho' hmoved
      obtain rfl : o' = o := Option.some.inj (ho'.symm.trans ho)
      simp [reportsAbout] at hmoved
    | some side =>
      rw [(onTrade_eq h hside).1] at ho'
      rw [reportsAbout_onTrade h hside] at hmoved
      split_ifs at ho' hmoved with hat
      · rw [ho] at ho'
        obtain rfl : (o.offer ex.queueModel trade).1 = o' := Option.some.inj ho'
        rw [offerReport, ho, Option.bind_some] at hmoved
        refine (offer_legal ex.queueModel trade o hmoved).resolve_right ?_
        rintro ⟨hstate, hremaining, hfill, hrest⟩
        exact hno ⟨side, n, o, hside, hat, ho, hstate, hremaining, hfill, hrest⟩
      · obtain rfl : o' = o := Option.some.inj (ho'.symm.trans ho)
        simp at hmoved

/-- An operation that the engine may call agrees with the table exactly when it is not a trade that
splits a cancel. -/
theorem obeys_iff (h : (ex₀.session ops).1.Indexed (submittedIds ops)) (may : MayMove ex₀ ops op) :
    (ex₀.session ops).1.Obeys op ↔ NoSplit ex₀ ops op := by
  by_cases htrade : ∃ trade, op = .onTrade trade
  · obtain ⟨trade, rfl⟩ := htrade
    rw [obeys_onTrade h]
    exact ⟨fun hno trade' heq => by cases heq; exact hno, fun hno => hno trade rfl⟩
  · refine iff_of_true ?_ fun trade heq => absurd ⟨trade, heq⟩ htrade
    intro n o o' ho ho' hmoved
    rcases change_of_stored h may.1 ho ho' with ⟨rfl, hnone⟩ | ⟨hname, hchange⟩
    · simp [hnone] at hmoved
    · refine hchange.legal (fun trade heq => htrade ⟨trade, heq⟩) ?_ ?_ hmoved
      · rintro m p rfl
        exact (may.2 o (hname m rfl ▸ ho)).1
      · rintro m rfl
        exact may.2 o (hname m rfl ▸ ho)

/-- A session agrees with the table in every call exactly when none of its trades fills a part of
an order whose cancel is in flight. -/
theorem state_machine_obeyed_iff (hnew : ex₀.IsNew) (hops : Always (MayMove ex₀) ops) :
    Always (fun done op => (ex₀.session done).1.Obeys op) ops ↔ Always (NoSplit ex₀) ops := by
  have hiff : ∀ pre op post, ops = pre ++ op :: post →
      ((ex₀.session pre).1.Obeys op ↔ NoSplit ex₀ pre op) := by
    intro pre op post heq
    have hpre : Always Fresh pre := fun pre' op' post' heq' =>
      (hops pre' op' (post' ++ op :: post) (by simp [heq, heq'])).1
    exact obeys_iff (indexed_session hnew hpre) (hops pre op post heq)
  exact ⟨fun h pre op post heq => (hiff pre op post heq).1 (h pre op post heq),
    fun h pre op post heq => (hiff pre op post heq).2 (h pre op post heq)⟩

/-- The calls before the trade : an order of two is acknowledged and its cancel requested. -/
def beforeSplit : List ExchangeOp :=
  [.submitOrder ⟨1, 0, 0, 0, 100, 2, 1, .buy, .limit⟩, .ackNew 1, .cancelOrder 1]

/-- A trade that meets only a part of an order of more than `qty`. -/
def splittingTrade (qty : ℤ) : ExchangeOp := .onTrade ⟨10, 0, 0, 100, qty, 1, .sell, 0⟩

theorem mayMove_split (q : ConservativeQueue) (qty : ℤ) :
    Always (MayMove (new q)) (beforeSplit ++ [splittingTrade qty]) := by
  refine always_snoc.2 ⟨?_, by simp [Fresh, splittingTrade, ExchangeOp.submitted], trivial⟩
  refine (always_snoc (l := beforeSplit.take 2)).2
    ⟨?_, by simp [Fresh, ExchangeOp.submitted], trivial⟩
  refine (always_snoc (l := beforeSplit.take 1)).2
    ⟨?_, by simp [Fresh, ExchangeOp.submitted], trivial⟩
  exact (always_snoc (l := [])).2 ⟨always_nil, by simp [Fresh, submittedIds], trivial⟩

/-- A trade of one takes an order of two whose cancel is in flight back to `partiallyFilled`. -/
theorem state_machine_not_obeyed :
    let ex₀ := new (⟨⟩ : ConservativeQueue)
    Always (MayMove ex₀) (beforeSplit ++ [splittingTrade 1]) ∧
      ((ex₀.session beforeSplit).1.orders[1]?).map LiveOrder.state = some .pendingCancel ∧
      ((ex₀.session (beforeSplit ++ [splittingTrade 1])).1.orders[1]?).map LiveOrder.state =
        some .partiallyFilled ∧
      OrderState.canTransitionTo .pendingCancel .partiallyFilled = false :=
  ⟨mayMove_split _ _, by decide +kernel, by decide +kernel, rfl⟩

/-- A trade of two fills the order completely. -/
theorem state_machine_obeyed_sample :
    let ex₀ := new (⟨⟩ : ConservativeQueue)
    Always (fun done op => (ex₀.session done).1.Obeys op) (beforeSplit ++ [splittingTrade 2]) := by
  intro ex₀
  have hnew : ex₀.IsNew := ⟨⟨⟩, .inl rfl⟩
  refine (state_machine_obeyed_iff hnew (mayMove_split _ _)).2 ?_
  refine always_snoc.2 ⟨?_, ?_⟩
  · intro pre op post heq trade hop
    subst hop
    have hmem : ExchangeOp.onTrade trade ∈ beforeSplit := heq ▸ by simp
    simp [beforeSplit] at hmem
  · rintro trade hop ⟨side, n, o, hside, hat, ho, hstate, hremaining, hfill, hrest⟩
    have hfresh : Always Fresh beforeSplit := fun pre op post heq =>
      (mayMove_split ⟨⟩ 2 pre op (post ++ [splittingTrade 2]) (by simp [heq])).1
    have hid : n ∈ submittedIds beforeSplit :=
      (indexed_session hnew hfresh).mem_of_stored n (mt getOrder_eq_none.1 (by simp [ho]))
    obtain rfl : n = 1 := List.mem_singleton.1 hid
    have hwhole : ((ex₀.session beforeSplit).1.orders[1]?).map (fun o =>
        subI64 o.remainingQty (o.fillQty (⟨⟩ : ConservativeQueue)
          ⟨10, 0, 0, 100, 2, 1, .sell, 0⟩)) =
          some 0 := by decide +kernel
    obtain rfl : (⟨10, 0, 0, 100, 2, 1, .sell, 0⟩ : Tick) = trade := ExchangeOp.onTrade.inj hop
    rw [ho] at hwhole
    exact hrest (Option.some.inj hwhole)

end Backtester.ExchangeSimulator
