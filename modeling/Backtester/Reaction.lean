import Backtester.ExchangeOps

/-!
# One order among many

What a call does to one resting order is a function of that order alone (`LiveOrder.react`) : the
other orders, the buckets and the books do not matter once it is registered (`perform_react`).
-/

open History Std

set_option linter.unusedSectionVars false

namespace Backtester

/-- A call that leaves order `n` on the exchange as a limit order. -/
def ExchangeOp.Rests (n : ℕ) (op : ExchangeOp) : Prop :=
  op.submitted ≠ some n ∧ op.removed ≠ some n ∧ ∀ p, op ≠ .fillMarketImmediately n p

variable {Q : Type} [QueueModel Q]

/-- What a call does to the order stored under `n`, with the reports about it. -/
def LiveOrder.react (q : Q) (n : ℕ) (o : LiveOrder (QueueModel.State Q)) :
    ExchangeOp → LiveOrder (QueueModel.State Q) × List OrderReport
  | .ackNew m =>
    if m = n ∧ o.state = .pendingNew then
      ({ o with state := .open }, [o.order.report .open 0 0 0 o.remainingQty none])
    else (o, [])
  | .cancelOrder m =>
    if m = n ∧ o.state.canTransitionTo .pendingCancel = true then
      ({ o with state := .pendingCancel }, [])
    else (o, [])
  | .ackCancel m =>
    if m = n ∧ o.state = .pendingCancel then
      ({ o with state := .cancelled },
        [o.order.report .cancelled 0 0 o.filledQty o.remainingQty none])
    else (o, [])
  | .forceCancelPartialFill m =>
    if m = n then
      ({ o with state := .cancelled }, [o.order.report .cancelled 0 0 o.filledQty o.remainingQty
        (some "market order partial fill: remaining qty cancelled")])
    else (o, [])
  | .applyL3Update update => (o.followL3 q update, [])
  | .onTrade trade =>
    if ExchangeSimulator.makerSide trade.side = some o.order.side ∧ trade.price = o.order.price then
      ((o.offer q trade).1, (o.offer q trade).2.toList)
    else (o, [])
  | _ => (o, [])

/-- No call changes an order as it was submitted. -/
theorem LiveOrder.order_react (q : Q) (n : ℕ) (o : LiveOrder (QueueModel.State Q))
    (op : ExchangeOp) :
    (o.react q n op).1.order = o.order := by
  cases op with
  | applyL3Update update => exact (ExchangeSimulator.face_followL3 q update o).1
  | onTrade trade =>
    simp only [react]
    split_ifs
    · exact ExchangeSimulator.order_offer q trade o
    · rfl
  | _ =>
    simp only [react]
    try split_ifs
    all_goals rfl

/-- An order as `submit_order` stores it. -/
def Order.registered (q : Q) (order : Order) (depth : MarketDepth) :
    LiveOrder (QueueModel.State Q) :=
  ⟨order, .pendingNew, 0, order.qty, QueueModel.registerOrder q order depth⟩

namespace ExchangeSimulator

variable {ex ex₀ : ExchangeSimulator Q} {op : ExchangeOp} {ids : List ℕ} {m n : ℕ}
  {o : LiveOrder (QueueModel.State Q)}

/-- A call does to a resting order what `react` says. -/
theorem perform_react (h : ex.Indexed ids) (ho : ex.orders[n]? = some o) (hrests : op.Rests n) :
    (ex.perform op).1.orders[n]? = some (o.react ex.queueModel n op).1 ∧
      reportsAbout n (ex.perform op).2 = (o.react ex.queueModel n op).2 := by
  obtain ⟨hsubmit, hremove, hmarket⟩ := hrests
  have hid : o.order.orderId = n := h.orderId ho
  have hother : ∀ m, op.target = some m → m ≠ n → (ex.perform op).1.orders[n]? = some o ∧
      reportsAbout n (ex.perform op).2 = [] := by
    intro m hm hmn
    obtain ⟨hkept, hnone⟩ := aside_perform h hm hmn
    exact ⟨hkept.trans ho, hnone⟩
  cases op with
  | submitOrder order =>
    have hne : order.orderId ≠ n := fun heq => hsubmit (congrArg some heq)
    exact ⟨(getElem?_submitOrder order n).trans (by rw [if_neg hne, ho]; rfl), rfl⟩
  | removeOrder m =>
    have hne : m ≠ n := fun heq => hremove (congrArg some heq)
    exact ⟨(getElem?_removeOrder m n).trans (by rw [if_neg hne, ho]; rfl), rfl⟩
  | fillMarketImmediately m p =>
    have hne : m ≠ n := fun heq => hmarket p (by rw [heq])
    exact hother m rfl hne
  | applyL2Update update => exact ⟨ho, rfl⟩
  | applyL3Update update => exact ⟨(getElem?_applyL3Update update n).trans (by rw [ho]; rfl), rfl⟩
  | ackNew m =>
    by_cases hmn : m = n
    · subst hmn
      by_cases hstate : o.state = .pendingNew
      · simp [perform, ackNew, ho, hstate, LiveOrder.react, reportsAbout, getElem?_putOrder,
          Order.report, hid]
      · simp [perform, ackNew, ho, hstate, LiveOrder.react, reportsAbout]
    · simpa [LiveOrder.react, hmn] using hother m rfl hmn
  | cancelOrder m =>
    by_cases hmn : m = n
    · subst hmn
      by_cases hmay : o.state.canTransitionTo .pendingCancel = true
      · simp [perform, cancelOrder, ho, hmay, LiveOrder.react, reportsAbout, getElem?_putOrder]
      · simp [perform, cancelOrder, ho, hmay, LiveOrder.react, reportsAbout]
    · simpa [LiveOrder.react, hmn] using hother m rfl hmn
  | ackCancel m =>
    by_cases hmn : m = n
    · subst hmn
      cases hstate : o.state with
      | pendingCancel =>
        simp [perform, ackCancel, ho, hstate, LiveOrder.react, reportsAbout, getElem?_putOrder,
          Order.report,
          hid]
      | _ => simp [perform, ackCancel, ho, hstate, LiveOrder.react, reportsAbout]
    · simpa [LiveOrder.react, hmn] using hother m rfl hmn
  | forceCancelPartialFill m =>
    by_cases hmn : m = n
    · subst hmn
      simp [perform, forceCancelPartialFill, ho, LiveOrder.react, reportsAbout, getElem?_putOrder,
        Order.report,
        hid]
    · simpa [LiveOrder.react, hmn] using hother m rfl hmn
  | onTrade trade =>
    have hat : ∀ side, ex.isAt trade.price side n = true ↔
        side = o.order.side ∧ trade.price = o.order.price := by
      intro side
      rw [isAt, getOrder, ho, Option.map_some, Option.any_some, Bool.and_eq_true, decide_eq_true_eq,
        decide_eq_true_eq, and_comm, eq_comm, @eq_comm _ o.order.price]
    simp only [ExchangeSimulator.perform, LiveOrder.react]
    cases hside : makerSide trade.side with
    | none =>
      have hnone : ex.onTrade trade = (ex, []) := by
        unfold onTrade
        rw [hside]
      rw [hnone, if_neg (by simp)]
      exact ⟨ho, rfl⟩
    | some side =>
      rw [reportsAbout_onTrade h hside, (onTrade_eq h hside).1, offerReport, ho]
      simp only [hat, Option.some.injEq]
      split_ifs <;> exact ⟨rfl, rfl⟩

/-- The ids a call submits are not among `ids`, nor submitted before. -/
def FreshFrom (ids : List ℕ) (ops : List ExchangeOp) (op : ExchangeOp) : Prop :=
  ∀ m, op.submitted = some m → m ∉ ids ++ submittedIds ops

theorem indexed_session_from (h : ex.Indexed ids) {ops : List ExchangeOp}
    (fresh : Always (FreshFrom ids) ops) :
    (ex.session ops).1.Indexed (ids ++ submittedIds ops) := by
  refine session_induction (I := fun ops s => s.1.Indexed (ids ++ submittedIds ops)) ?_
    (fun ops op ih hop => ?_) fresh
  · simpa [submittedIds] using h
  · rw [submittedIds_snoc, ← List.append_assoc]
    exact ih.perform hop

theorem queueModel_session (ex : ExchangeSimulator Q) (ops : List ExchangeOp) :
    (ex.session ops).1.queueModel = ex.queueModel := by
  induction ops using List.reverseRecOn with
  | nil => rfl
  | append_singleton ops op ih =>
    rw [session_snoc]
    exact queueModel_perform.trans ih

/-- When no id is submitted twice, what comes after an order is fresh from what came up to it. -/
theorem freshFrom_of_fresh {before after : List ExchangeOp} {order : Order}
    (fresh : Always Fresh (before ++ .submitOrder order :: after)) :
    Always Fresh (before ++ [.submitOrder order]) ∧
      Always (FreshFrom (submittedIds (before ++ [.submitOrder order]))) after := by
  constructor
  · intro pre op post heq
    have hall : before ++ .submitOrder order :: after = pre ++ op :: (post ++ after) := by
      rw [List.append_cons, heq, List.append_assoc, List.cons_append]
    exact fresh pre op (post ++ after) hall
  · intro pre op post heq m hm
    have hop := fresh (before ++ .submitOrder order :: pre) op post (by simp [heq]) m hm
    simpa [submittedIds] using hop

end ExchangeSimulator

end Backtester
