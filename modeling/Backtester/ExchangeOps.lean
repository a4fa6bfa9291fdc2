import Backtester.Library.History
import Backtester.OrderTable

/-!
# Sequences of exchange operations

The calls to one exchange simulator as data (`ExchangeOp`), and what a sequence of them makes
(`ExchangeSimulator.Session`). `Changes` says once what any operation can do to a stored order and
which reports about it come out; what is proved of an order over whole sequences is proved by
cases on it. It rests on the bucket index : a bucket holds the stored ids of its price and side,
in the order they were submitted (`Indexed`), so a trade is offered to no order twice.
-/

open History Std

set_option linter.unusedSectionVars false

namespace Backtester

/-- A call to an exchange simulator. -/
inductive ExchangeOp where
  | submitOrder (order : Order)
  | ackNew (orderId : ℕ)
  | cancelOrder (orderId : ℕ)
  | ackCancel (orderId : ℕ)
  | fillMarketImmediately (orderId : ℕ) (fallbackPrice : Option ℤ)
  | forceCancelPartialFill (orderId : ℕ)
  | removeOrder (orderId : ℕ)
  | applyL2Update (update : L2Update)
  | applyL3Update (update : L3Update)
  | onTrade (trade : Tick)
  deriving DecidableEq, Repr

/-- The id an operation submits. -/
def ExchangeOp.submitted : ExchangeOp → Option ℕ
  | submitOrder order => some order.orderId
  | _ => none

/-- The id an operation removes. -/
def ExchangeOp.removed : ExchangeOp → Option ℕ
  | removeOrder orderId => some orderId
  | _ => none

/-- The order an operation names, if it is neither submitted nor removed. -/
def ExchangeOp.target : ExchangeOp → Option ℕ
  | ackNew m | cancelOrder m | ackCancel m | fillMarketImmediately m _
  | forceCancelPartialFill m => some m
  | _ => none

/-- The reports of a list about order `n`. -/
def reportsAbout (n : ℕ) (reports : List OrderReport) : List OrderReport :=
  reports.filter (·.orderId = n)

/-- The reports about an order in the parts are those in the whole. -/
theorem reportsAbout_append (n : ℕ) (l l' : List OrderReport) :
    reportsAbout n (l ++ l') = reportsAbout n l ++ reportsAbout n l' :=
  List.filter_append ..

variable {Q : Type} [QueueModel Q]

namespace LiveOrder

/-- The quantity the queue model lets a trade fill. -/
def fillQty (q : Q) (trade : Tick) (o : LiveOrder (QueueModel.State Q)) : ℤ :=
  (QueueModel.checkFill q o.order o.remainingQty trade o.queueState).1

/-- The order after the queue model has seen the trade. -/
def queued (q : Q) (trade : Tick) (o : LiveOrder (QueueModel.State Q)) :
    LiveOrder (QueueModel.State Q) :=
  { o with queueState := (QueueModel.checkFill q o.order o.remainingQty trade o.queueState).2 }

/-- The order after the trade has filled it. -/
def filled (q : Q) (trade : Tick) (o : LiveOrder (QueueModel.State Q)) :
    LiveOrder (QueueModel.State Q) :=
  (o.queued q trade).fill (o.fillQty q trade)

/-- The report of what the trade fills. -/
def fillReport (q : Q) (trade : Tick) (o : LiveOrder (QueueModel.State Q)) : OrderReport :=
  o.order.report (o.filled q trade).state (o.fillQty q trade) trade.price
    (o.filled q trade).filledQty (o.filled q trade).remainingQty none

end LiveOrder

namespace ExchangeSimulator

/-- The simulator after a call, and the reports the call returns. A call that fails changes what
it changed before it failed. -/
def perform (ex : ExchangeSimulator Q) : ExchangeOp → ExchangeSimulator Q × List OrderReport
  | .submitOrder order => (ex.submitOrder order, [])
  | .ackNew orderId =>
    match ex.ackNew orderId with
    | .ok (report, ex) => (ex, [report])
    | .error _ => (ex, [])
  | .cancelOrder orderId =>
    match ex.cancelOrder orderId with
    | .ok ex => (ex, [])
    | .error _ => (ex, [])
  | .ackCancel orderId =>
    match ex.ackCancel orderId with
    | .ok (report, ex) => (ex, [report])
    | .error _ => (ex, [])
  | .fillMarketImmediately orderId fallbackPrice =>
    match ex.fillMarketImmediately orderId fallbackPrice with
    | some (report, ex) => (ex, [report])
    | none => (ex, [])
  | .forceCancelPartialFill orderId =>
    match ex.forceCancelPartialFill orderId with
    | some (report, ex) => (ex, [report])
    | none => (ex, [])
  | .removeOrder orderId => (ex.removeOrder orderId, [])
  | .applyL2Update update => (ex.applyL2Update update, [])
  | .applyL3Update update => ((ex.applyL3Update update).1, [])
  | .onTrade trade => ex.onTrade trade

/-- A simulator and the reports it has returned so far. -/
abbrev Session (Q : Type) [QueueModel Q] := ExchangeSimulator Q × List OrderReport

/-- One more operation, and what it reports after what was reported. -/
def Session.next (s : Session Q) (op : ExchangeOp) : Session Q :=
  ((s.1.perform op).1, s.2 ++ (s.1.perform op).2)

/-- The session of a sequence of calls. -/
def session (ex : ExchangeSimulator Q) (ops : List ExchangeOp) : Session Q :=
  ops.foldl Session.next (ex, [])

/-- A simulator as the engine makes it. -/
def IsNew (ex : ExchangeSimulator Q) : Prop := ∃ queueModel, ex = new queueModel ∨
    ex = newL3 queueModel

/-- The ids a sequence of calls submits, in order. -/
def submittedIds (ops : List ExchangeOp) : List ℕ := ops.filterMap ExchangeOp.submitted

variable {ex ex₀ : ExchangeSimulator Q} {op : ExchangeOp} {ops : List ExchangeOp} {ids : List ℕ}
  {m n : ℕ}

@[simp] theorem session_nil : ex.session [] = (ex, []) := rfl

/-- One more operation. -/
@[simp] theorem session_snoc (ops : List ExchangeOp) (op : ExchangeOp) :
    ex.session (ops ++ [op]) = (ex.session ops).next op := by
  simp [session]

@[simp] theorem submittedIds_snoc (ops : List ExchangeOp) (op : ExchangeOp) :
    submittedIds (ops ++ [op]) = submittedIds ops ++ op.submitted.toList := by
  rw [submittedIds, List.filterMap_append]
  cases h : op.submitted <;> simp [submittedIds, h]

/-- What holds of a new simulator and is kept by the next call holds after any sequence of
calls. -/
theorem session_induction {may : List ExchangeOp → ExchangeOp → Prop}
    {I : List ExchangeOp → Session Q → Prop} (start : I [] (ex, []))
    (step : ∀ ops op, I ops (ex.session ops) → may ops op →
      I (ops ++ [op]) ((ex.session ops).next op))
    (hops : Always may ops) : I ops (ex.session ops) := by
  induction ops using List.reverseRecOn with
  | nil => exact start
  | append_singleton ops op ih =>
    obtain ⟨hdone, hlast⟩ := always_snoc.1 hops
    rw [session_snoc]
    exact step ops op (ih hdone) hlast

/-! ## What an operation does to an order -/

/-- What an operation on `ex` does to the stored order `o`, with the reports about it. -/
inductive Change (ex : ExchangeSimulator Q) : ExchangeOp → LiveOrder (QueueModel.State Q) →
    LiveOrder (QueueModel.State Q) → List OrderReport → Prop
  | idle {op : ExchangeOp} {o : LiveOrder (QueueModel.State Q)} : Change ex op o o []
  | ack {o : LiveOrder (QueueModel.State Q)} {m : ℕ} (state : o.state = .pendingNew) :
      Change ex (.ackNew m) o { o with state := .open }
        [o.order.report .open 0 0 0 o.remainingQty none]
  | cancel {o : LiveOrder (QueueModel.State Q)} {m : ℕ}
      (may : o.state.canTransitionTo .pendingCancel = true) :
      Change ex (.cancelOrder m) o { o with state := .pendingCancel } []
  | cancelAck {o : LiveOrder (QueueModel.State Q)} {m : ℕ} (state : o.state = .pendingCancel) :
      Change ex (.ackCancel m) o { o with state := .cancelled }
        [o.order.report .cancelled 0 0 o.filledQty o.remainingQty none]
  | marketFill {o : LiveOrder (QueueModel.State Q)} {m : ℕ} {fallbackPrice : Option ℤ}
      {price availableQty fillQty remainingQty : ℤ} {s : OrderState}
      (level : ex.marketLevel o.order.side fallbackPrice = some (price, availableQty))
      (fillQty_eq : fillQty = min o.order.qty availableQty)
      (remainingQty_eq : remainingQty = subI64 o.order.qty fillQty)
      (state : s = if remainingQty = 0 then .filled else .partiallyFilled) :
      Change ex (.fillMarketImmediately m fallbackPrice) o
        { o with filledQty := fillQty, remainingQty := remainingQty, state := s }
        [o.order.report s fillQty price fillQty remainingQty none]
  | marketReject {o : LiveOrder (QueueModel.State Q)} {m : ℕ} {fallbackPrice : Option ℤ}
      (level : ex.marketLevel o.order.side fallbackPrice = none) :
      Change ex (.fillMarketImmediately m fallbackPrice) o { o with state := .rejected }
        [o.order.report .rejected 0 0 0 o.order.qty (some "book empty")]
  | forceCancel {o : LiveOrder (QueueModel.State Q)} {m : ℕ} :
      Change ex (.forceCancelPartialFill m) o { o with state := .cancelled }
        [o.order.report .cancelled 0 0 o.filledQty o.remainingQty
          (some "market order partial fill: remaining qty cancelled")]
  | follow {o : LiveOrder (QueueModel.State Q)} {update : L3Update} :
      Change ex (.applyL3Update update) o (o.followL3 ex.queueModel update) []
  | offer {o : LiveOrder (QueueModel.State Q)} {trade : Tick} :
      Change ex (.onTrade trade) o (o.offer ex.queueModel trade).1
        (o.offer ex.queueModel trade).2.toList

variable {o o' : LiveOrder (QueueModel.State Q)} {rs : List OrderReport}

/-- An operation does not change an order as it was submitted, and reports under its id. -/
theorem Change.order_eq (h : Change ex op o o' rs) :
    o'.order = o.order ∧ ∀ r ∈ rs, r.orderId = o.order.orderId := by
  cases h with
  | follow => exact ⟨(face_followL3 _ _ _).1, by simp⟩
  | @offer _ trade =>
    refine ⟨order_offer _ _ _, fun r hr => ?_⟩
    rcases offer_spec ex.queueModel trade o with ⟨hnone, -⟩ | ⟨r', hsome, -, hid, -⟩
    · simp [hnone] at hr
    · rw [hsome] at hr
      exact List.mem_singleton.1 hr ▸ hid
  | _ => exact ⟨rfl, by simp [Order.report]⟩

/-- An offer passes the order by, moves its queue state only, or fills it. -/
theorem offer_cases (q : Q) (trade : Tick) (o : LiveOrder (QueueModel.State Q)) :
    ((o.remainingQty ≤ 0 ∨ o.state.isFillable = false) ∧ o.offer q trade = (o, none)) ∨
    (o.fillQty q trade ≤ 0 ∧ o.offer q trade = (o.queued q trade, none)) ∨
    (0 < o.remainingQty ∧ o.state.isFillable = true ∧ 0 < o.fillQty q trade ∧
      o.offer q trade = (o.filled q trade, some (o.fillReport q trade))) := by
  unfold LiveOrder.offer
  by_cases hremaining : o.remainingQty ≤ 0
  · rw [if_pos hremaining]
    exact .inl ⟨.inl hremaining, rfl⟩
  · rw [if_neg hremaining]
    cases hstate : o.state.isFillable with
    | false => exact .inl ⟨.inr rfl, if_pos rfl⟩
    | true =>
      rw [if_neg (by simp)]
      dsimp only
      split_ifs with hfill
      · exact .inr (.inl ⟨hfill, rfl⟩)
      · exact .inr (.inr ⟨lt_of_not_ge hremaining, rfl, lt_of_not_ge hfill, rfl⟩)

/-- A call that names an order fails, or changes that order only. -/
theorem perform_target (ex : ExchangeSimulator Q) (h : op.target = some m) :
    ex.perform op = (ex, []) ∨
    ∃ o o' rs, ex.orders[m]? = some o ∧ Change ex op o o' rs ∧
      ex.perform op = (ex.putOrder m o', rs) := by
  cases op with
  | ackNew m' =>
    obtain rfl : m' = m := Option.some.inj h
    simp only [perform, ackNew]
    cases ho : ex.orders[m']? with
    | none => exact .inl rfl
    | some o =>
      dsimp only
      split_ifs with hstate
      · exact .inl rfl
      · exact .inr ⟨o, _, _, rfl, .ack (not_not.1 hstate), rfl⟩
  | cancelOrder m' =>
    obtain rfl : m' = m := Option.some.inj h
    simp only [perform, cancelOrder]
    cases ho : ex.orders[m']? with
    | none => exact .inl rfl
    | some o =>
      dsimp only
      split_ifs with hmay
      · exact .inl rfl
      · exact .inr ⟨o, _, _, rfl, .cancel (by simpa using hmay), rfl⟩
  | ackCancel m' =>
    obtain rfl : m' = m := Option.some.inj h
    simp only [perform, ackCancel]
    cases ho : ex.orders[m']? with
    | none => exact .inl rfl
    | some o =>
      cases hstate : o.state with
      | pendingCancel =>
        dsimp only
        rw [hstate]
        exact .inr ⟨o, _, _, rfl, .cancelAck hstate, rfl⟩
      | _ =>
        dsimp only
        rw [hstate]
        exact .inl rfl
  | fillMarketImmediately m' fallbackPrice =>
    obtain rfl : m' = m := Option.some.inj h
    simp only [perform, fillMarketImmediately]
    cases ho : ex.orders[m']? with
    | none => exact .inl rfl
    | some o =>
      rw [Option.map_some]
      cases hlevel : ex.marketLevel o.order.side fallbackPrice with
      | none => exact .inr ⟨o, _, _, rfl, .marketReject hlevel, rfl⟩
      | some level =>
        obtain ⟨price, availableQty⟩ := level
        exact .inr ⟨o, _, _, rfl, .marketFill hlevel rfl rfl rfl, rfl⟩
  | forceCancelPartialFill m' =>
    obtain rfl : m' = m := Option.some.inj h
    simp only [perform, forceCancelPartialFill]
    cases ho : ex.orders[m']? with
    | none => exact .inl rfl
    | some o => exact .inr ⟨o, _, _, rfl, .forceCancel, rfl⟩
  | _ => cases h

/-- The order that is stored is the one that is read. -/
theorem getElem?_putOrder (m n : ℕ) (o : LiveOrder (QueueModel.State Q)) :
    (ex.putOrder m o).orders[n]? = if m = n then some o else ex.orders[n]? := by
  simp only [putOrder, ExtTreeMap.getElem?_insert, Std.compare_eq_iff_eq]

/-- An order that is submitted is stored with nothing filled. -/
theorem getElem?_submitOrder (order : Order) (n : ℕ) :
    (ex.submitOrder order).orders[n]? =
      if order.orderId = n then
        some ⟨order, .pendingNew, 0, order.qty,
          QueueModel.registerOrder ex.queueModel order ex.depth⟩
      else ex.orders[n]? := by
  simp only [submitOrder, ExtTreeMap.getElem?_insert, Std.compare_eq_iff_eq]

/-- An order that is removed is gone. -/
theorem getElem?_removeOrder (m n : ℕ) :
    (ex.removeOrder m).orders[n]? = if m = n then none else ex.orders[n]? := by
  unfold removeOrder
  split
  · next h =>
    split_ifs with hmn
    · exact hmn ▸ h
    · rfl
  · simp only [ExtTreeMap.getElem?_erase, Std.compare_eq_iff_eq]

/-- An order update moves every order in its queue. -/
theorem getElem?_applyL3Update (update : L3Update) (n : ℕ) :
    (ex.applyL3Update update).1.orders[n]? =
      ex.orders[n]?.map (LiveOrder.followL3 ex.queueModel update) := by
  have hmap : ∀ bookL3, ({ ex with
      bookL3 := bookL3
      orders := ex.orders.map fun _ live => LiveOrder.followL3 ex.queueModel update live } :
        ExchangeSimulator Q).orders[n]? =
      ex.orders[n]?.map (LiveOrder.followL3 ex.queueModel update) := fun _ =>
    ExtTreeMap.getElem?_map
  simp only [applyL3Update]
  split
  · exact hmap _
  · split
    · exact hmap _
    · exact hmap _

/-- An order update leaves the buckets alone. -/
theorem buckets_applyL3Update (update : L3Update) :
    (ex.applyL3Update update).1.buckets = ex.buckets := by
  simp only [applyL3Update]
  split
  · rfl
  · split <;> rfl

/-- A trade leaves the buckets alone. -/
theorem buckets_onTrade (trade : Tick) : (ex.onTrade trade).1.buckets = ex.buckets := by
  unfold onTrade
  split <;> rfl

/-! ## Offering a trade to several orders -/

section Offers

variable {q : Q} {trade : Tick}

/-- The report of order `n` when the trade is offered to it. -/
def offerReport (q : Q) (trade : Tick) (orders : ExtTreeMap ℕ (LiveOrder (QueueModel.State Q)))
    (n : ℕ) : Option OrderReport :=
  orders[n]?.bind fun o => (o.offer q trade).2

/-- Offering a trade to an order changes that order only. -/
theorem getElem?_offerTo (acc : ExtTreeMap ℕ (LiveOrder (QueueModel.State Q)) × List OrderReport)
    (m n : ℕ) : (offerTo q trade acc m).1[n]? =
      if m = n then acc.1[n]?.map fun o => (LiveOrder.offer q trade o).1 else acc.1[n]? := by
  unfold offerTo
  split
  · next hm =>
    split_ifs with hmn
    · rw [← hmn, hm]
      rfl
    · rfl
  · next o hm =>
    simp only [ExtTreeMap.getElem?_insert, Std.compare_eq_iff_eq]
    split_ifs with hmn
    · rw [← hmn, hm]
      rfl
    · rfl

/-- Offering a trade to an order reports its fill, if there is one. -/
theorem reports_offerTo (acc : ExtTreeMap ℕ (LiveOrder (QueueModel.State Q)) × List OrderReport)
    (m : ℕ) : (offerTo q trade acc m).2 = acc.2 ++ (offerReport q trade acc.1 m).toList := by
  unfold offerTo offerReport
  split
  · next hm => simp [hm]
  · next o hm => simp [hm]

/-- A trade offered to distinct orders changes each as if it were the only one. -/
theorem foldl_offerTo (q : Q) (trade : Tick) : ∀ (ids : List ℕ)
    (acc : ExtTreeMap ℕ (LiveOrder (QueueModel.State Q)) × List OrderReport), ids.Nodup →
    (∀ n, (ids.foldl (offerTo q trade) acc).1[n]? =
      if n ∈ ids then acc.1[n]?.map fun o => (LiveOrder.offer q trade o).1 else acc.1[n]?) ∧
    (ids.foldl (offerTo q trade) acc).2 = acc.2 ++ ids.filterMap (offerReport q trade acc.1)
  | [], acc, _ => by simp
  | m :: ids, acc, hnodup => by
    obtain ⟨hm, hids⟩ := List.nodup_cons.1 hnodup
    obtain ⟨horders, hreports⟩ := foldl_offerTo q trade ids (offerTo q trade acc m) hids
    constructor
    · intro n
      rw [List.foldl_cons, horders, getElem?_offerTo]
      by_cases hmn : m = n
      · subst hmn
        simp [hm]
      · simp [hmn, Ne.symm hmn]
    · have hsame : ids.filterMap (offerReport q trade (offerTo q trade acc m).1) =
          ids.filterMap (offerReport q trade acc.1) := by
        refine List.filterMap_congr fun n hn => ?_
        have hmn : m ≠ n := fun heq => hm (heq ▸ hn)
        rw [offerReport, offerReport, getElem?_offerTo, if_neg hmn]
      rw [List.foldl_cons, hreports, hsame, reports_offerTo, List.append_assoc]
      cases h : offerReport q trade acc.1 m <;> simp [h]

end Offers

/-! ## The bucket index -/

/-- Order `n` is stored, with this price and side. -/
def isAt (ex : ExchangeSimulator Q) (price : ℤ) (side : Side) (n : ℕ) : Bool :=
  (ex.getOrder n).any fun order => order.price = price && order.side = side

/-- Every bucket lists, in the order they were submitted, the ids that are stored with its price
and side. -/
structure Indexed (ids : List ℕ) (ex : ExchangeSimulator Q) : Prop where
  nodup : ids.Nodup
  mem_of_stored : ∀ n, ex.getOrder n ≠ none → n ∈ ids
  keyed : ∀ n order, ex.getOrder n = some order → order.orderId = n
  buckets : ∀ price side, ex.buckets price side = ids.filter (ex.isAt price side)

/-- A new exchange has empty buckets. -/
theorem Indexed.of_isNew (h : ex.IsNew) : ex.Indexed [] := by
  obtain ⟨q, rfl | rfl⟩ := h
  · exact ⟨List.nodup_nil, by simp [getOrder_eq], by simp [getOrder_eq], fun _ _ => rfl⟩
  · exact ⟨List.nodup_nil, by simp [getOrder_eq], by simp [getOrder_eq], fun _ _ => rfl⟩

/-- A trade changes no order as it was submitted. -/
theorem getOrder_foldl_offerTo {q : Q} {trade : Tick} (n : ℕ) : ∀ (ids : List ℕ)
    (acc : ExtTreeMap ℕ (LiveOrder (QueueModel.State Q)) × List OrderReport),
    (ids.foldl (offerTo q trade) acc).1[n]?.map LiveOrder.order = acc.1[n]?.map LiveOrder.order
  | [], _ => rfl
  | m :: ids, acc => by
    refine (getOrder_foldl_offerTo n ids _).trans ?_
    rw [getElem?_offerTo]
    split_ifs
    · rw [Option.map_map]
      exact congrArg (fun f => Option.map f acc.1[n]?) (funext fun o => order_offer q trade o)
    · rfl

/-- A trade changes no order as it was submitted. -/
theorem getOrder_onTrade (trade : Tick) (n : ℕ) :
    (ex.onTrade trade).1.getOrder n = ex.getOrder n := by
  unfold onTrade
  split
  · rfl
  · exact getOrder_foldl_offerTo n _ _

theorem getOrder_eq_none : ex.getOrder n = none ↔ ex.orders[n]? = none := by simp [getOrder]

/-- The order that is submitted is read under its id. -/
theorem getOrder_submitOrder (order : Order) (n : ℕ) :
    (ex.submitOrder order).getOrder n =
      if order.orderId = n then some order else ex.getOrder n := by
  rw [getOrder_eq, getOrder_eq, face_submitOrder]
  split_ifs <;> rfl

/-- An order that is removed is not read any more. -/
theorem getOrder_removeOrder (m n : ℕ) :
    (ex.removeOrder m).getOrder n = if m = n then none else ex.getOrder n := by
  rw [getOrder_eq, getOrder_eq, face_removeOrder]
  split_ifs <;> rfl

/-- An order under a new id is added to its bucket. -/
theorem Indexed.submitOrder (h : ex.Indexed ids) {order : Order} (fresh : order.orderId ∉ ids) :
    (ex.submitOrder order).Indexed (ids ++ [order.orderId]) := by
  refine ⟨?_, fun n hn => ?_, fun n o hn => ?_, fun price side => ?_⟩
  · exact List.nodup_append.2 ⟨h.nodup, List.nodup_singleton _, by
      intro a ha b hb
      rw [List.mem_singleton.1 hb]
      exact fun heq => fresh (heq ▸ ha)⟩
  · rw [getOrder_submitOrder] at hn
    split_ifs at hn with heq
    · simp [heq]
    · exact List.mem_append_left _ (h.mem_of_stored n hn)
  · rw [getOrder_submitOrder] at hn
    split_ifs at hn with heq
    · exact Option.some.inj hn ▸ heq
    · exact h.keyed n o hn
  · have hold : ids.filter ((ex.submitOrder order).isAt price side) =
      ids.filter (ex.isAt price side) := by
      refine List.filter_congr fun n hn => ?_
      have hne : order.orderId ≠ n := fun heq => fresh (heq ▸ hn)
      rw [isAt, isAt, getOrder_submitOrder, if_neg hne]
    rw [List.filter_append, hold, ← h.buckets]
    have hnew : (ex.submitOrder order).isAt price side order.orderId =
        (order.price = price && order.side = side) := by
      rw [isAt, getOrder_submitOrder, if_pos rfl]
      rfl
    have hbucket : (ex.submitOrder order).buckets price side =
        if price = order.price ∧ side = order.side then
          ex.buckets order.price order.side ++ [order.orderId]
        else ex.buckets price side := rfl
    rw [hbucket]
    split_ifs with hat
    · obtain ⟨rfl, rfl⟩ := hat
      rw [List.filter_cons_of_pos (by rw [hnew]; simp), List.filter_nil]
    · rw [List.filter_cons_of_neg, List.filter_nil, List.append_nil]
      rw [hnew]
      intro hat'
      have : order.price = price ∧ order.side = side := by simpa using hat'
      exact hat ⟨this.1.symm, this.2.symm⟩

/-- Erasing an id from a filtered list without duplicates filters it out. -/
theorem erase_filter {p p' : ℕ → Bool} {m : ℕ} (hids : ids.Nodup) (hm : p' m = false)
    (hother : ∀ n, n ≠ m → p' n = p n) : (ids.filter p).erase m = ids.filter p' := by
  rw [(hids.filter p).erase_eq_filter, List.filter_filter]
  refine List.filter_congr fun n _ => ?_
  by_cases hnm : n = m
  · simp [hnm, hm]
  · simp [hnm, hother n hnm]

/-- An order that is removed leaves its bucket. -/
theorem Indexed.removeOrder (h : ex.Indexed ids) (m : ℕ) : (ex.removeOrder m).Indexed ids := by
  refine ⟨h.nodup, fun n hn => ?_, fun n o hn => ?_, fun price side => ?_⟩
  · rw [getOrder_removeOrder] at hn
    split_ifs at hn with heq
    · exact absurd rfl hn
    · exact h.mem_of_stored n hn
  · rw [getOrder_removeOrder] at hn
    split_ifs at hn
    exact h.keyed n o hn
  · have hgone : (ex.removeOrder m).isAt price side m = false := by
      rw [isAt, getOrder_removeOrder, if_pos rfl]
      rfl
    have hother : ∀ n, n ≠ m → (ex.removeOrder m).isAt price side n = ex.isAt price side n := by
      intro n hn
      rw [isAt, isAt, getOrder_removeOrder, if_neg (Ne.symm hn)]
    have hkept : ex.isAt price side m = false →
        ids.filter (ex.isAt price side) = ids.filter ((ex.removeOrder m).isAt price side) := by
      intro hno
      refine List.filter_congr fun n _ => ?_
      by_cases hnm : n = m
      · rw [hnm, hno, hgone]
      · rw [hother n hnm]
    cases ho : ex.orders[m]? with
    | none =>
      have hsame : ex.removeOrder m = ex := by
        unfold ExchangeSimulator.removeOrder
        rw [ho]
      rw [hsame]
      exact h.buckets price side
    | some o =>
      have horder : ex.getOrder m = some o.order := by simp [getOrder, ho]
      have hbuckets : (ex.removeOrder m).buckets = setBucket ex.buckets o.order.price o.order.side
          ((ex.buckets o.order.price o.order.side).erase m) := by
        unfold ExchangeSimulator.removeOrder
        rw [ho]
      rw [hbuckets, setBucket]
      split_ifs with hat
      · obtain ⟨rfl, rfl⟩ := hat
        rw [h.buckets, erase_filter h.nodup hgone hother]
      · rw [h.buckets]
        refine hkept ?_
        rw [isAt, horder]
        simp only [Option.any_some, Bool.and_eq_false_iff, decide_eq_false_iff_not]
        by_contra hboth
        obtain ⟨hprice, hside⟩ := not_or.1 hboth
        exact hat ⟨(not_not.1 hprice).symm, (not_not.1 hside).symm⟩

/-- Only submitting and removing change the orders and the buckets. -/
theorem kept_perform (ex : ExchangeSimulator Q) (hs : op.submitted = none)
    (hr : op.removed = none) :
    (∀ n, (ex.perform op).1.getOrder n = ex.getOrder n) ∧
      (ex.perform op).1.buckets = ex.buckets := by
  have htarget : ∀ m, op.target = some m → (∀ n, (ex.perform op).1.getOrder n = ex.getOrder n) ∧
      (ex.perform op).1.buckets = ex.buckets := by
    intro m hm
    rcases ex.perform_target hm with heq | ⟨o, o', rs, ho, hchange, heq⟩
    · rw [heq]
      exact ⟨fun _ => rfl, rfl⟩
    · rw [heq]
      refine ⟨fun n => ?_, rfl⟩
      rw [getOrder, getOrder, getElem?_putOrder]
      split_ifs with hmn
      · rw [← hmn, ho]
        exact congrArg some hchange.order_eq.1
      · rfl
  cases op with
  | submitOrder order => cases hs
  | removeOrder orderId => cases hr
  | applyL2Update update => exact ⟨fun _ => rfl, rfl⟩
  | applyL3Update update =>
    refine ⟨fun n => ?_, buckets_applyL3Update update⟩
    rw [getOrder_eq, getOrder_eq]
    exact congrArg (Option.map Prod.fst) (face_applyL3Update update)
  | onTrade trade => exact ⟨getOrder_onTrade trade, buckets_onTrade trade⟩
  | _ => exact htarget _ rfl

/-- Every operation keeps the buckets exact. -/
theorem Indexed.perform (h : ex.Indexed ids) (fresh : ∀ n, op.submitted = some n → n ∉ ids) :
    (ex.perform op).1.Indexed (ids ++ op.submitted.toList) := by
  have hkept : op.submitted = none → op.removed = none →
      (ex.perform op).1.Indexed (ids ++ op.submitted.toList) := by
    intro hs hr
    obtain ⟨horder, hbuckets⟩ := ex.kept_perform hs hr
    rw [hs, Option.toList_none, List.append_nil]
    refine ⟨h.nodup, fun n hn => h.mem_of_stored n (horder n ▸ hn),
      fun n o hn => h.keyed n o (horder n ▸ hn), fun price side => ?_⟩
    rw [hbuckets, h.buckets]
    exact List.filter_congr fun n _ => by rw [isAt, isAt, horder]
  cases op with
  | submitOrder order => exact h.submitOrder (fresh _ rfl)
  | removeOrder m =>
    have hremoved : (ex.perform (.removeOrder m)).1.Indexed ids := h.removeOrder m
    simpa [ExchangeOp.submitted] using hremoved
  | _ => exact hkept rfl rfl

/-- The orders and the reports of a trade. -/
theorem onTrade_eq (h : ex.Indexed ids) {trade : Tick} {side : Side}
    (hside : makerSide trade.side = some side) :
    (∀ n, (ex.onTrade trade).1.orders[n]? = if ex.isAt trade.price side n then
        ex.orders[n]?.map fun o => (LiveOrder.offer ex.queueModel trade o).1
      else ex.orders[n]?) ∧
    (ex.onTrade trade).2 =
      (ids.filter (ex.isAt trade.price side)).filterMap
        (offerReport ex.queueModel trade ex.orders) := by
  have hnodup : (ex.buckets trade.price side).Nodup := h.buckets _ _ ▸ h.nodup.filter _
  obtain ⟨horders, hreports⟩ := foldl_offerTo ex.queueModel trade
    (ex.buckets trade.price side) (ex.orders, []) hnodup
  unfold onTrade
  rw [hside]
  refine ⟨fun n => (horders n).trans ?_, ?_⟩
  · have hmem : n ∈ ex.buckets trade.price side ↔ ex.isAt trade.price side n = true := by
      rw [h.buckets, List.mem_filter, and_iff_right_iff_imp]
      intro hat
      refine h.mem_of_stored n fun hnone => ?_
      simp [isAt, hnone] at hat
    simp only [hmem]
  · rw [← h.buckets]
    exact hreports.trans (List.nil_append _)

/-- A list of distinct ids holds the report of each at most once. -/
theorem reportsAbout_filterMap {f : ℕ → Option OrderReport}
    (hid : ∀ m r, f m = some r → r.orderId = m) :
    ∀ {ids : List ℕ}, ids.Nodup →
      reportsAbout n (ids.filterMap f) = if n ∈ ids then (f n).toList else []
  | [], _ => rfl
  | m :: ids, hnodup => by
    obtain ⟨hm, hids⟩ := List.nodup_cons.1 hnodup
    have ih : reportsAbout n (ids.filterMap f) = if n ∈ ids then (f n).toList else [] :=
      reportsAbout_filterMap hid hids
    unfold reportsAbout at ih ⊢
    cases hf : f m with
    | none =>
      rw [List.filterMap_cons_none hf, ih]
      by_cases hnm : n = m
      · subst hnm
        simp [hm, hf]
      · simp [hnm]
    | some r =>
      rw [List.filterMap_cons_some hf, List.filter_cons, ih, hid m r hf]
      by_cases hnm : n = m
      · subst hnm
        simp [hm, hf]
      · simp [hnm, Ne.symm hnm]

/-- An order is stored under its id. -/
theorem Indexed.orderId (h : ex.Indexed ids) (ho : ex.orders[n]? = some o) : o.order.orderId = n :=
  h.keyed n o.order (by simp [getOrder, ho])

/-- A trade reports of an order when it stands at its price and is filled. -/
theorem reportsAbout_onTrade (h : ex.Indexed ids) {trade : Tick} {side : Side}
    (hside : makerSide trade.side = some side) (n : ℕ) :
    reportsAbout n (ex.onTrade trade).2 = if ex.isAt trade.price side n then
      (offerReport ex.queueModel trade ex.orders n).toList else [] := by
  have hid : ∀ m r, offerReport ex.queueModel trade ex.orders m = some r → r.orderId = m := by
    intro m r hr
    obtain ⟨o, ho, hoffer⟩ := Option.bind_eq_some_iff.1 hr
    rcases offer_spec ex.queueModel trade o with ⟨hnone, -⟩ | ⟨r', hsome, -, hid, -⟩
    · simp [hnone] at hoffer
    · rw [hsome] at hoffer
      obtain rfl := Option.some.inj hoffer
      exact hid.trans (h.orderId ho)
  rw [(onTrade_eq h hside).2, reportsAbout_filterMap hid (h.nodup.filter _)]
  have hmem : n ∈ ids.filter (ex.isAt trade.price side) ↔ ex.isAt trade.price side n = true := by
    rw [List.mem_filter, and_iff_right_iff_imp]
    intro hat
    refine h.mem_of_stored n fun hnone => ?_
    simp [isAt, hnone] at hat
  simp only [hmem]

/-- No operation changes the queue model. -/
theorem queueModel_perform : (ex.perform op).1.queueModel = ex.queueModel := by
  have htarget : ∀ m, op.target = some m → (ex.perform op).1.queueModel = ex.queueModel := by
    intro m hm
    rcases ex.perform_target hm with heq | ⟨o, o', rs, -, -, heq⟩
    · rw [heq]
    · rw [heq]
      rfl
  cases op with
  | submitOrder order => rfl
  | removeOrder m =>
    simp only [perform, removeOrder]
    split <;> rfl
  | applyL2Update update => rfl
  | applyL3Update update =>
    simp only [perform, applyL3Update]
    split
    · rfl
    · split <;> rfl
  | onTrade trade =>
    simp only [perform, onTrade]
    split <;> rfl
  | _ => exact htarget _ rfl

/-- A call that names an order leaves the others aside. -/
theorem aside_perform (h : ex.Indexed ids) (htarget : op.target = some m) (hmn : m ≠ n) :
    (ex.perform op).1.orders[n]? = ex.orders[n]? ∧ reportsAbout n (ex.perform op).2 = [] := by
  rcases ex.perform_target htarget with heq | ⟨o, o', rs, ho, hchange, heq⟩
  · rw [heq]
    exact ⟨rfl, rfl⟩
  · rw [heq]
    refine ⟨by rw [getElem?_putOrder, if_neg hmn], List.filter_eq_nil_iff.2 fun r hr => ?_⟩
    simp [(hchange.order_eq.2 r hr).trans (h.orderId ho), hmn]

/-- An operation changes an order that stays stored as `Change` says. -/
theorem change_perform (h : ex.Indexed ids) (ho : ex.orders[n]? = some o)
    (hs : op.submitted ≠ some n) (hr : op.removed ≠ some n) :
    ∃ o', (ex.perform op).1.orders[n]? = some o' ∧
      Change ex op o o' (reportsAbout n (ex.perform op).2) := by
  have htarget : ∀ m, op.target = some m → ∃ o', (ex.perform op).1.orders[n]? = some o' ∧
      Change ex op o o' (reportsAbout n (ex.perform op).2) := by
    intro m hm
    by_cases hmn : m = n
    · subst hmn
      rcases ex.perform_target hm with heq | ⟨o₁, o', rs, ho₁, hchange, heq⟩
      · rw [heq]
        exact ⟨o, ho, .idle⟩
      · obtain rfl : o₁ = o := Option.some.inj (ho₁.symm.trans ho)
        rw [heq]
        refine ⟨o', by rw [getElem?_putOrder, if_pos rfl], ?_⟩
        have hall : reportsAbout m rs = rs := List.filter_eq_self.2 fun r hr => by
          simp [(hchange.order_eq.2 r hr).trans (h.orderId ho₁)]
        rwa [hall]
    · obtain ⟨hkept, hnone⟩ := aside_perform h hm hmn
      rw [hkept, hnone]
      exact ⟨o, ho, .idle⟩
  cases op with
  | submitOrder order =>
    have hne : order.orderId ≠ n := fun heq => hs (congrArg some heq)
    exact ⟨o, (getElem?_submitOrder order n).trans (by rw [if_neg hne, ho]), .idle⟩
  | removeOrder m =>
    have hne : m ≠ n := fun heq => hr (congrArg some heq)
    exact ⟨o, (getElem?_removeOrder m n).trans (by rw [if_neg hne, ho]), .idle⟩
  | applyL2Update update => exact ⟨o, ho, .idle⟩
  | applyL3Update update =>
    exact ⟨_, (getElem?_applyL3Update update n).trans (by rw [ho]; rfl), .follow⟩
  | onTrade trade =>
    simp only [ExchangeSimulator.perform]
    cases hside : makerSide trade.side with
    | none =>
      have hnone : ex.onTrade trade = (ex, []) := by
        unfold onTrade
        rw [hside]
      rw [hnone]
      exact ⟨o, ho, .idle⟩
    | some side =>
      rw [reportsAbout_onTrade h hside, (onTrade_eq h hside).1, offerReport, ho]
      split_ifs
      · exact ⟨_, rfl, .offer⟩
      · exact ⟨o, rfl, .idle⟩
  | _ => exact htarget _ rfl

/-- No operation reports about an order that is not stored. -/
theorem absent_perform (h : ex.Indexed ids) (ho : ex.orders[n]? = none)
    (hs : op.submitted ≠ some n) :
    (ex.perform op).1.orders[n]? = none ∧ reportsAbout n (ex.perform op).2 = [] := by
  have htarget : ∀ m, op.target = some m →
      (ex.perform op).1.orders[n]? = none ∧ reportsAbout n (ex.perform op).2 = [] := by
    intro m hm
    by_cases hmn : m = n
    · subst hmn
      rcases ex.perform_target hm with heq | ⟨o₁, o', rs, ho₁, -, -⟩
      · rw [heq]
        exact ⟨ho, rfl⟩
      · simp [ho] at ho₁
    · obtain ⟨hkept, hnone⟩ := aside_perform h hm hmn
      exact ⟨hkept.trans ho, hnone⟩
  cases op with
  | submitOrder order =>
    have hne : order.orderId ≠ n := fun heq => hs (congrArg some heq)
    exact ⟨(getElem?_submitOrder order n).trans (by rw [if_neg hne, ho]), rfl⟩
  | removeOrder m =>
    refine ⟨(getElem?_removeOrder m n).trans ?_, rfl⟩
    split_ifs
    · rfl
    · exact ho
  | applyL2Update update => exact ⟨ho, rfl⟩
  | applyL3Update update => exact ⟨(getElem?_applyL3Update update n).trans (by rw [ho]; rfl), rfl⟩
  | onTrade trade =>
    simp only [ExchangeSimulator.perform]
    cases hside : makerSide trade.side with
    | none =>
      have hnone : ex.onTrade trade = (ex, []) := by
        unfold onTrade
        rw [hside]
      rw [hnone]
      exact ⟨ho, rfl⟩
    | some side =>
      rw [reportsAbout_onTrade h hside, (onTrade_eq h hside).1, offerReport, ho]
      split_ifs
      · exact ⟨rfl, rfl⟩
      · exact ⟨rfl, rfl⟩
  | _ => exact htarget _ rfl

/-- An order that is stored before and after an operation is left alone, or changed by a call that
names no other order. -/
theorem change_of_stored (h : ex.Indexed ids) (fresh : ∀ n, op.submitted = some n → n ∉ ids)
    (ho : ex.orders[n]? = some o) (ho' : (ex.perform op).1.orders[n]? = some o') :
    (o' = o ∧ reportsAbout n (ex.perform op).2 = []) ∨
    ((∀ m, op.target = some m → m = n) ∧ Change ex op o o' (reportsAbout n (ex.perform op).2)) := by
  by_cases hother : ∃ m, op.target = some m ∧ m ≠ n
  · obtain ⟨m, htarget, hmn⟩ := hother
    obtain ⟨hkept, hnone⟩ := aside_perform h htarget hmn
    exact .inl ⟨Option.some.inj (ho'.symm.trans (hkept.trans ho)), hnone⟩
  · have hs : op.submitted ≠ some n := fun hs =>
      fresh n hs (h.mem_of_stored n (by simp [getOrder, ho]))
    have hr : op.removed ≠ some n := by
      intro hr
      cases op with
      | removeOrder m =>
        obtain rfl : m = n := Option.some.inj hr
        have hgone := (getElem?_removeOrder m m).symm.trans ho'
        rw [if_pos rfl] at hgone
        cases hgone
      | _ => cases hr
    obtain ⟨o₁, ho₁, hchange⟩ := change_perform h ho hs hr
    obtain rfl : o₁ = o' := Option.some.inj (ho₁.symm.trans ho')
    refine .inr ⟨fun m hm => ?_, hchange⟩
    by_contra hmn
    exact hother ⟨m, hm, hmn⟩

/-! ## Sessions with fresh ids -/

/-- No id is submitted twice. -/
def Fresh (ops : List ExchangeOp) (op : ExchangeOp) : Prop :=
  ∀ n, op.submitted = some n → n ∉ submittedIds ops

/-- Ids that never repeat are fresh. -/
theorem fresh_of_nodup (h : (submittedIds ops).Nodup) : Always Fresh ops := by
  rintro pre op post rfl n hn hmem
  rw [submittedIds, List.filterMap_append, List.filterMap_cons_some hn] at h
  exact (List.nodup_append.1 h).2.2 n hmem n List.mem_cons_self rfl

/-- After any session with fresh ids the buckets are exact. -/
theorem indexed_session (hnew : ex.IsNew) (hops : Always Fresh ops) :
    (ex.session ops).1.Indexed (submittedIds ops) := by
  refine session_induction (I := fun ops s => s.1.Indexed (submittedIds ops))
    (Indexed.of_isNew hnew) (fun ops op ih hfresh => ?_) hops
  rw [submittedIds_snoc]
  exact ih.perform hfresh

end ExchangeSimulator

end Backtester
