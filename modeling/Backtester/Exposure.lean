import Backtester.Posting

/-!
# What fills do to orders and positions

The fills of a trace add up to the quantity that is filled of each order (`filledQty`) and to the
position in each symbol (`positionIn`). A core *weighs* its orders (`Core.Weighs`) when every stored
order has left what the trace has not filled of it. A handler either fills nothing (`Core.Steady`)
or fills orders that its exchange stores, for no more than they have left (`Core.Accounts`), and
moves the account by exactly its fills.
-/

open Run StableSort Std History MachineInt

set_option linter.unusedSectionVars false

namespace Backtester

/-! ## Fills on a trace -/

/-- The fill that is booked. -/
def Effect.fill : Effect → Option TradeFill
  | filled f => some f
  | _ => none

/-- The fills that were booked, in order. -/
def filledIn (l : List Effect) : List TradeFill := l.filterMap Effect.fill

/-- How much of order `n` is filled. -/
def filledQty (n : ℕ) (l : List Effect) : ℤ :=
  (((filledIn l).filter (·.orderId = n)).map TradeFill.qty).sum

/-- The position in `symbolId` after one more fill. -/
def positionAfter (symbolId : ℕ) (qty : ℤ) (fill : TradeFill) : ℤ :=
  if fill.symbolId = symbolId then satAddI64 qty (wrap 64 (fill.side.signed fill.qty)) else qty

/-- The position in `symbolId` that the fills of a trace add up to. -/
def positionIn (symbolId : ℕ) (l : List Effect) : ℤ := (filledIn l).foldl (positionAfter symbolId) 0

variable {n s : ℕ} {l l' : List Effect}

/-- The fills of the parts are those of the whole. -/
theorem filledIn_append (l l' : List Effect) : filledIn (l ++ l') = filledIn l ++ filledIn l' :=
  List.filterMap_append

/-- A fill is booked when the trace says so. -/
theorem mem_filledIn {f : TradeFill} : f ∈ filledIn l ↔ .filled f ∈ l := by
  constructor
  · intro h
    obtain ⟨x, hx, hfill⟩ := List.mem_filterMap.1 h
    cases x with
    | filled f' =>
      obtain rfl := Option.some.inj hfill
      exact hx
    | _ => cases hfill
  · exact fun h => List.mem_filterMap.2 ⟨_, h, rfl⟩

/-- Effects that are no fills book none. -/
theorem filledIn_eq_nil (h : ∀ x ∈ l, x.fill = none) : filledIn l = [] :=
  List.filterMap_eq_nil_iff.2 h

/-- The fills of a journal entry, read off the trace. -/
theorem filledIn_fills (fills : List (Order × TradeFill)) :
    filledIn (fills.map fun f => .filled f.2) = fills.map Prod.snd := by
  induction fills with
  | nil => rfl
  | cons f fills ih => exact congrArg (f.2 :: ·) ih

/-- What is filled of an order adds up over the parts. -/
theorem filledQty_append (n : ℕ) (l l' : List Effect) :
    filledQty n (l ++ l') = filledQty n l + filledQty n l' := by
  rw [filledQty, filledIn_append, List.filter_append, List.map_append, List.sum_append]
  rfl

/-- Nothing is filled of an order that no fill is about. -/
theorem filledQty_eq_zero (h : ∀ f ∈ filledIn l, f.orderId ≠ n) : filledQty n l = 0 := by
  rw [filledQty, List.filter_eq_nil_iff.2 fun f hf => by simpa using h f hf]
  rfl

/-- A fill counts for its order. -/
theorem filledQty_singleton (n : ℕ) (f : TradeFill) :
    filledQty n [.filled f] = if f.orderId = n then f.qty else 0 := by
  have hfilled : filledIn [.filled f] = [f] := rfl
  rw [filledQty, hfilled, List.filter_singleton]
  by_cases h : f.orderId = n <;> simp [h]

/-- Fills of positive quantity never take anything back. -/
theorem filledQty_nonneg (hpos : ∀ f ∈ filledIn l, 0 < f.qty) : 0 ≤ filledQty n l := by
  refine List.sum_nonneg fun q hq => ?_
  obtain ⟨f, hf, rfl⟩ := List.mem_map.1 hq
  exact (hpos f (List.mem_of_mem_filter hf)).le

/-- A position stays in the range of `i64`. -/
theorem inRange_positionAfter {qty : ℤ} (h : InRange 64 qty) (s : ℕ) (f : TradeFill) :
    InRange 64 (positionAfter s qty f) := by
  unfold positionAfter
  split_ifs
  · exact clamp_inRange 64 _
  · exact h

/-- A position stays in range over any fills. -/
theorem inRange_foldl {qty : ℤ} (h : InRange 64 qty) (s : ℕ) (fills : List TradeFill) :
    InRange 64 (fills.foldl (positionAfter s) qty) := by
  induction fills generalizing qty with
  | nil => exact h
  | cons f fills ih => exact ih (inRange_positionAfter h s f)

/-- The position of a trace is in range. -/
theorem inRange_positionIn (s : ℕ) (l : List Effect) : InRange 64 (positionIn s l) :=
  inRange_foldl (by norm_num [InRange]) s _

/-- The position goes on from where the first part left it. -/
theorem positionIn_append (s : ℕ) (l l' : List Effect) :
    positionIn s (l ++ l') = (filledIn l').foldl (positionAfter s) (positionIn s l) := by
  rw [positionIn, filledIn_append, List.foldl_append]
  rfl

/-! ## Fills in the account -/

/-- Storing a position changes the position in its symbol only. -/
theorem Account.positionQty_insert (positions : ExtTreeMap ℕ Position) (funding : ℤ) (m s : ℕ)
    (p : Position) : positionQty ⟨positions.insert m p, funding⟩ s =
      if m = s then p.qty else positionQty ⟨positions, funding⟩ s := by
  simp only [positionQty, ExtTreeMap.getElem?_insert, Std.compare_eq_iff_eq]
  split_ifs <;> rfl

/-- A fill moves the position in its symbol by its signed quantity, saturating. -/
theorem Account.positionQty_onFill (account : Account) (order : Order) (qty price : ℤ) (s : ℕ)
    (h : InRange 64 (account.positionQty s)) : (account.onFill order qty price).1.positionQty s =
      if order.symbolId = s then satAddI64 (account.positionQty s) (wrap 64 (order.side.signed qty))
      else account.positionQty s := by
  have hqty : (account.positions[order.symbolId]?.getD {}).qty =
      account.positionQty order.symbolId := by
    unfold positionQty
    cases account.positions[order.symbolId]? <;> rfl
  by_cases hzero : wrap 64 (order.side.signed qty) = 0
  · have hsame : account.onFill order qty price = (account, 0) := if_pos hzero
    rw [hsame, hzero, satAddI64, add_zero, clamp_eq_self h]
    exact (ite_self _).symm
  · have hput : ∃ p : Position, (account.onFill order qty price).1 =
        { account with positions := account.positions.insert order.symbolId p } ∧
          p.qty = satAddI64 (account.positionQty order.symbolId)
            (wrap 64 (order.side.signed qty)) := by
      simp only [onFill, if_neg hzero, ← hqty]
      split_ifs with hsame hopen hclose
      · exact ⟨_, rfl, rfl⟩
      · exact ⟨_, rfl, rfl⟩
      · exact ⟨_, rfl, hclose.symm⟩
      · exact ⟨_, rfl, rfl⟩
      · exact ⟨_, rfl, rfl⟩
    obtain ⟨p, heq, hp⟩ := hput
    rw [heq, positionQty_insert, hp]
    split_ifs with hs
    · rw [hs]
    · rfl

/-- Funding moves no position. -/
theorem Account.positionQty_applyFunding (account : Account) (event : FundingEvent) (markPrice : ℤ)
    (s : ℕ) : (account.applyFunding event markPrice).1.positionQty s = account.positionQty s := by
  unfold applyFunding
  split
  · rfl
  · next p hp =>
    split_ifs
    · rfl
    · dsimp only
      rw [positionQty_insert]
      split_ifs with heq
      · rw [← heq, positionQty, hp]
        rfl
      · rfl

/-- The guard lets no order pass that would take the position past the limit on its own. -/
theorem RiskGuard.le_of_checkOrder {guard : RiskGuard} {order : Order} {count : ℕ} {qty : ℤ}
    (h : guard.checkOrder order count qty = none) (hlimit : 0 < guard.maxPosition) :
    |qty + order.side.signed order.qty| ≤ guard.maxPosition := by
  unfold checkOrder at h
  split_ifs at h with hkilled hopen hposition
  exact Int.not_lt.1 fun hlt => hposition ⟨hlimit, hlt⟩

/-! ## What is left of an order -/

namespace LiveOrder

variable {σ : Type} {o o' : LiveOrder σ} {filled : ℤ}

/-- `filled` of the order is filled. Unless the order is over, the rest of it remains. -/
structure Weighed (o : LiveOrder σ) (filled : ℤ) : Prop where
  qty : 0 < o.order.qty ∧ o.order.qty ≤ i64Max
  bounds : 0 ≤ filled ∧ filled ≤ o.order.qty
  unfilled : o.state = .pendingNew → filled = 0
  rest : o.state.isTerminal = false → filled + o.remainingQty = o.order.qty

/-- `o'` is the order `o`, maybe further in its life, but not filled further. -/
structure Becomes (o o' : LiveOrder σ) : Prop where
  order : o'.order = o.order
  remaining : o'.remainingQty = o.remainingQty
  new : o'.state = .pendingNew → o.state = .pendingNew
  alive : o'.state.isTerminal = false → o.state.isTerminal = false

/-- An order may stay as it is. -/
theorem Becomes.refl (o : LiveOrder σ) : o.Becomes o := ⟨rfl, rfl, id, id⟩

/-- What an order becomes in two steps. -/
theorem Becomes.trans {o'' : LiveOrder σ} (h : o.Becomes o') (h' : o'.Becomes o'') :
    o.Becomes o'' :=
  ⟨h'.order.trans h.order, h'.remaining.trans h.remaining, fun hs => h.new (h'.new hs),
    fun hs => h.alive (h'.alive hs)⟩

/-- An order that keeps what is left of it stays weighed. -/
theorem Weighed.becomes (h : o.Weighed filled) (hb : o.Becomes o') : o'.Weighed filled := by
  obtain ⟨hqty, hbounds, hunfilled, hrest⟩ := h
  refine ⟨hb.order ▸ hqty, hb.order ▸ hbounds, fun hs => hunfilled (hb.new hs), fun hs => ?_⟩
  rw [hb.order, hb.remaining]
  exact hrest (hb.alive hs)

/-- An order that was just submitted. -/
theorem weighed_new {order : Order} (hqty : 0 < order.qty ∧ order.qty ≤ i64Max) (queueState : σ) :
    Weighed ⟨order, .pendingNew, 0, order.qty, queueState⟩ 0 :=
  ⟨hqty, ⟨le_rfl, hqty.1.le⟩, fun _ => rfl, fun _ => zero_add _⟩

end LiveOrder

/-- The calls that can fill an order or bring a new one. -/
def ExchangeOp.weighs : ExchangeOp → Bool
  | submitOrder _ | fillMarketImmediately _ _ | onTrade _ => true
  | _ => false

namespace ExchangeSimulator

variable {Q : Type} [QueueModel Q] {ex ex' ex'' : ExchangeSimulator Q} {op : ExchangeOp}
  {o o' : LiveOrder (QueueModel.State Q)} {rs : List OrderReport}

/-- The orders of `ex'` are orders of `ex`, not filled further. -/
def Inherits (ex ex' : ExchangeSimulator Q) : Prop :=
  ∀ (n : ℕ) (o' : LiveOrder (QueueModel.State Q)), ex'.orders[n]? = some o' →
    ∃ o, ex.orders[n]? = some o ∧ o.Becomes o'

/-- An exchange with the same orders inherits them. -/
theorem Inherits.of_orders (h : ex'.orders = ex.orders) : ex.Inherits ex' :=
  fun _ o ho => ⟨o, h ▸ ho, .refl o⟩

/-- An operation that fills nothing leaves an order what it had left. -/
theorem Change.becomes (h : Change ex op o o' rs) (hop : op.weighs = false) : o.Becomes o' := by
  cases h with
  | idle => exact .refl o
  | follow =>
    have hqty : ∀ update, (o.followL3 ex.queueModel update).remainingQty = o.remainingQty :=
      fun _ => by
      unfold LiveOrder.followL3
      split <;> rfl
    obtain ⟨horder, hstate⟩ := face_followL3 ex.queueModel ‹_› o
    exact ⟨horder, hqty _, fun hs => hstate ▸ hs, fun hs => hstate ▸ hs⟩
  | ack state => exact ⟨rfl, rfl, by simp, fun _ => by rw [state]; rfl⟩
  | cancel may =>
    refine ⟨rfl, rfl, by simp, fun _ => ?_⟩
    cases hs : o.state <;> simp_all [OrderState.canTransitionTo, OrderState.isTerminal]
  | cancelAck state => exact ⟨rfl, rfl, by simp, by simp [OrderState.isTerminal]⟩
  | forceCancel => exact ⟨rfl, rfl, by simp, by simp [OrderState.isTerminal]⟩
  | _ => cases hop

/-- An operation that fills nothing and submits nothing keeps all orders. -/
theorem inherits_perform (ex : ExchangeSimulator Q) (hop : op.weighs = false) :
    ex.Inherits (ex.perform op).1 := by
  have htarget : ∀ m, op.target = some m → ex.Inherits (ex.perform op).1 := fun m hm => by
    rcases perform_target ex hm with heq | ⟨o, o', rs, ho, hchange, heq⟩
    · rw [heq]
      exact .of_orders rfl
    · rw [heq]
      intro n o'' ho''
      rw [getElem?_putOrder] at ho''
      split_ifs at ho'' with hmn
      · obtain rfl := Option.some.inj ho''
        exact ⟨o, hmn ▸ ho, hchange.becomes hop⟩
      · exact ⟨o'', ho'', .refl o''⟩
  cases op with
  | removeOrder m =>
    intro n o ho
    rw [perform, getElem?_removeOrder] at ho
    split_ifs at ho
    exact ⟨o, ho, .refl o⟩
  | applyL2Update update => exact .of_orders rfl
  | applyL3Update update =>
    intro n o ho
    rw [perform, getElem?_applyL3Update] at ho
    obtain ⟨o', ho', rfl⟩ := Option.map_eq_some_iff.1 ho
    have hfollow : Change ex (.applyL3Update update) o' (o'.followL3 ex.queueModel update) [] :=
      .follow
    exact ⟨o', ho', hfollow.becomes rfl⟩
  | submitOrder | fillMarketImmediately | onTrade => cases hop
  | ackNew m | cancelOrder m | ackCancel m | forceCancelPartialFill m => exact htarget m rfl

end ExchangeSimulator

/-! ## Work that fills nothing -/

/-- The guard found room for an accepted order at the position at the time. -/
def Effect.Vetted (limit : ℤ) (position : ℕ → ℤ) : Effect → Prop
  | accepted o => 0 < limit → |position o.symbolId + o.side.signed o.qty| ≤ limit
  | _ => True

namespace Core

variable {Q S L R : Type} [QueueModel Q] {c c' c'' : Core Q S L R} {n : ℕ} {t : ℤ}

/-- Between `c` and `c'` no order is filled and no order is new. -/
structure Steady (c c' : Core Q S L R) : Prop where
  account : c'.account.positionQty = c.account.positionQty
  limit : c'.riskGuard.maxPosition = c.riskGuard.maxPosition
  orders : ∀ s, (c.exchange s).Inherits (c'.exchange s)
  effects : ∃ new, c'.effects = c.effects ++ new ∧ ∀ x ∈ new,
    x.fill = none ∧ x.Vetted c.riskGuard.maxPosition c.account.positionQty

/-- Exchanges that are not there yet have no orders. -/
theorem orders_of_exchanges (hex : c'.exchanges = c.exchanges) (s : ℕ) :
    (c'.exchange s).orders = (c.exchange s).orders := by
  simp only [exchange, hex]
  cases c.exchanges[s]? with
  | some ex => rfl
  | none =>
    simp only [Option.getD_none]
    split_ifs <;> rfl

namespace Steady

/-- Work that changes neither account nor guard nor exchanges is steady. -/
theorem of_eq (haccount : c'.account = c.account) (hguard : c'.riskGuard = c.riskGuard)
    (hex : c'.exchanges = c.exchanges) (heffects : c'.effects = c.effects) : Steady c c' :=
  ⟨by rw [haccount], by rw [hguard], fun s => .of_orders (orders_of_exchanges hex s),
    [], by simp [heffects], by simp⟩

theorem refl (c : Core Q S L R) : Steady c c := of_eq rfl rfl rfl rfl

/-- One steady piece of work after another is steady. -/
theorem trans (h : Steady c c') (h' : Steady c' c'') : Steady c c'' := by
  obtain ⟨new, heq, hnew⟩ := h.effects
  obtain ⟨new', heq', hnew'⟩ := h'.effects
  refine ⟨h'.account.trans h.account, h'.limit.trans h.limit, fun s n o ho => ?_, new ++ new', ?_,
    fun x hx => ?_⟩
  · obtain ⟨o', ho', hb'⟩ := h'.orders s n o ho
    obtain ⟨o'', ho'', hb⟩ := h.orders s n o' ho'
    exact ⟨o'', ho'', hb.trans hb'⟩
  · rw [heq', heq, List.append_assoc]
  · rcases List.mem_append.1 hx with hx | hx
    · exact hnew x hx
    · rw [← h.limit, ← h.account]
      exact hnew' x hx

/-- Effects that fill nothing, and orders that were vetted, may be added. -/
theorem append (h : Steady c c') (new : List Effect) (haccount : c''.account = c'.account)
    (hguard : c''.riskGuard = c'.riskGuard) (hex : c''.exchanges = c'.exchanges)
    (heffects : c''.effects = c'.effects ++ new)
    (hnew : ∀ x ∈ new, x.fill = none ∧ x.Vetted c'.riskGuard.maxPosition c'.account.positionQty) :
    Steady c c'' :=
  h.trans ⟨by rw [haccount], by rw [hguard], fun s => .of_orders (orders_of_exchanges hex s), new,
    heffects, hnew⟩

/-- A push fills nothing. -/
theorem pushEffects (ts delay pushed : ℤ) (kind : EventKind) (limit : ℤ) (position : ℕ → ℤ) :
    ∀ x ∈ pushEffects ts delay pushed kind, x.fill = none ∧ x.Vetted limit position := by
  unfold Core.pushEffects
  split_ifs <;> simp [Effect.fill, Effect.Vetted]

/-- A push after a delay is steady. -/
theorem pushAfter (h : Steady c c') (ts delay : ℤ) (kind : EventKind) :
    Steady c (c'.pushAfter ts delay kind) := by
  rw [pushAfter_eq]
  exact h.append _ rfl rfl rfl rfl (pushEffects _ _ _ _ _ _)

/-- A push with a saturating sum is steady. -/
theorem pushAfterSat (h : Steady c c') (ts delay : ℤ) (kind : EventKind) :
    Steady c (c'.pushAfterSat ts delay kind) := by
  rw [pushAfterSat_eq]
  exact h.append _ rfl rfl rfl rfl (pushEffects _ _ _ _ _ _)

/-- Storing an exchange that keeps the orders is steady. -/
theorem putExchange (h : Steady c c') {s : ℕ} {ex : ExchangeSimulator Q}
    (hex : (c'.exchange s).Inherits ex) : Steady c (c'.putExchange s ex) := by
  refine h.trans ⟨rfl, rfl, fun s' => ?_, [], by simp [Core.putExchange], by simp⟩
  rw [exchange_putExchange]
  split_ifs with hs
  · exact hs ▸ hex
  · exact .of_orders rfl

/-- An operation that fills nothing is steady. -/
theorem perform (h : Steady c c') {s : ℕ} (op : ExchangeOp) (hop : op.weighs = false)
    {ex : ExchangeSimulator Q} (hex : ((c'.exchange s).perform op).1 = ex) :
    Steady c (c'.putExchange s ex) :=
  h.putExchange (hex ▸ (c'.exchange s).inherits_perform hop)

/-- Making an exchange is steady. -/
theorem exchangeMut (h : Steady c c') (s : ℕ) : Steady c (c'.exchangeMut s) :=
  h.putExchange (.of_orders rfl)

/-! ### Commands and calls -/

/-- The risk guard vets an order against the position before it passes. -/
theorem screenOrder (h : Steady c c') (order : Order) : Steady c (c'.screenOrder t order) := by
  unfold Core.screenOrder
  split
  · refine Steady.pushAfterSat ?_ _ _ _
    exact h.append [.refused order _] rfl rfl rfl rfl (by simp [Effect.fill, Effect.Vetted])
  · next hcheck =>
    refine h.append [.accepted order, .scheduled t (.order order)] rfl rfl rfl
      (List.append_assoc _ [_] [_]) fun x hx => ?_
    rcases List.mem_pair.1 hx with rfl | rfl
    · exact ⟨rfl, RiskGuard.le_of_checkOrder hcheck⟩
    · exact ⟨rfl, trivial⟩

/-- A command is steady, since what it submits is not at an exchange yet. -/
theorem handleCommand (h : Steady c c') (command : Command) :
    Steady c (c'.handleCommand t command) := by
  cases command with
  | submitOrder order =>
    have hclaim : Steady c c'.claimId := h.trans (.of_eq rfl rfl rfl rfl)
    exact hclaim.screenOrder _
  | cancelOrder orderId =>
    exact h.append [.scheduled t (.orderCancel orderId)] rfl rfl rfl rfl
      (by simp [Effect.fill, Effect.Vetted])

/-- The commands of an answer are steady. -/
theorem handleCommands (h : Steady c c') (commands : List Command) :
    Steady c (c'.handleCommands commands t) := by
  induction commands generalizing c' with
  | nil => exact h
  | cons command commands ih => exact ih (h.handleCommand command)

variable [Strategy S]

/-- A call is steady. -/
theorem afterCall (h : Steady c c') (call : Call) (t : ℤ) (strategy : S) :
    Steady c (c'.afterCall call t strategy) :=
  h.append [.called call t c'.market] rfl rfl rfl rfl (by simp [Effect.fill, Effect.Vetted])

/-- Waking the strategy is steady. -/
theorem wake (h : Steady c c') (call : Call) (t : ℤ) (wakeup : Bool) :
    Steady c (c'.wake call t wakeup).1 := by
  rcases wake_spec c' call t wakeup with ⟨err, heq⟩ | ⟨strategy, commands, heq⟩
  · rw [heq]
    exact h.afterCall call t _
  · rw [heq]
    exact (h.afterCall call t strategy).handleCommands commands

/-- Handing over is steady. -/
theorem handed (h : Steady c c') (t : ℤ) (strategy : S) (calls : List Call)
    (tickBuffer : List Tick) (reportBuffer : List OrderReport) :
    Steady c (c'.disarmed.handed t strategy calls tickBuffer reportBuffer) := by
  refine h.append (calls.map (Effect.called · t c'.market)) rfl rfl rfl rfl fun x hx => ?_
  obtain ⟨call, -, rfl⟩ := List.mem_map.1 hx
  exact ⟨rfl, trivial⟩

/-- Tuning is steady. -/
theorem tune (h : Steady c c') : Steady c c'.tune := by
  unfold Core.tune
  split_ifs
  · exact h.trans (.of_eq rfl rfl rfl rfl)
  · exact h

/-- A flush is steady. -/
theorem flushStrategy (h : Steady c c') (t : ℤ) : Steady c (c'.flushStrategy t).1 := by
  rcases flushStrategy_spec c' t with
    ⟨-, -, heq⟩ | ⟨strategy, calls, tickBuffer, err, -, heq⟩ | ⟨strategy, commands, heq⟩
  · rw [heq]
    exact h
  · rw [heq]
    exact h.handed t strategy calls tickBuffer _
  · rw [heq]
    exact ((h.handed t strategy _ [] []).handleCommands commands).tune

end Steady

/-! ### Handlers -/

variable [Strategy S]

/-- The delivery of a tick fills nothing. -/
theorem steady_onTickDelivery (c : Core Q S L R) (tick : Tick) :
    Steady c (c.onTickDelivery tick).1 := by
  have hobserve : Steady c (c.observeDelivery tick) := .of_eq rfl rfl rfl rfl
  unfold onTickDelivery
  dsimp only
  split
  · exact hobserve.wake _ _ _
  · have hbuffer : Steady c ((c.observeDelivery tick).bufferTick tick) := .of_eq rfl rfl rfl rfl
    split_ifs
    · have htimer : Steady c ((c.observeDelivery tick).bufferTick tick).nextTimer :=
        .of_eq rfl rfl rfl rfl
      exact htimer.pushAfter _ _ _
    · exact hbuffer

/-- A level update fills nothing. -/
theorem steady_onL2Update (c : Core Q S L R) (update : L2Update) :
    Steady c (c.onL2Update update).1 := by
  by_cases hl3 : update.symbolId ∈ c.l3DepthSymbols
  · rw [onL2Update_mixed hl3]
    exact .refl c
  · rw [onL2Update_eq hl3]
    have hmark : Steady c (c.markL2Depth update.symbolId) := .of_eq rfl rfl rfl rfl
    exact hmark.perform (.applyL2Update update) rfl rfl

/-- An order update fills nothing. -/
theorem steady_onL3Update (c : Core Q S L R) (update : L3Update) :
    Steady c (c.onL3Update update).1 := by
  by_cases hl2 : update.symbolId ∈ c.l2DepthSymbols
  · rw [onL3Update_mixed hl2]
    exact .refl c
  · rw [onL3Update_eq hl2]
    have hmark : Steady c (c.markL3Depth update.symbolId) := .of_eq rfl rfl rfl rfl
    exact hmark.perform (.applyL3Update update) rfl rfl

/-- Drawing a latency fills nothing. -/
theorem steady_sampleOrderLatency [LatencyModel L R] (c : Core Q S L R) :
    Steady c c.sampleOrderLatency.2 := .of_eq rfl rfl rfl rfl

/-- A cancel that arrives fills nothing. -/
theorem steady_onOrderCancel [LatencyModel L R] (c : Core Q S L R) (m : ℕ) :
    Steady c (c.onOrderCancel m).1 := by
  unfold onOrderCancel
  split
  · exact .refl c
  · next s _ =>
    have hmut : Steady c (c.exchangeMut s) := (Steady.refl c).exchangeMut s
    dsimp only
    split
    · exact hmut
    · next ex heq =>
      have hperform : ((c.exchangeMut s).exchange s).perform (.cancelOrder m) = (ex, []) := by
        simp only [ExchangeSimulator.perform, heq]
      have hput := hmut.perform (.cancelOrder m) rfl (congrArg Prod.fst hperform)
      refine Steady.pushAfterSat ?_ _ _ _
      exact (hput.trans (steady_sampleOrderLatency _)).append [.cancelLatency m _] rfl rfl rfl rfl
        (by simp [Effect.fill, Effect.Vetted])

/-- The answer to a cancel fills nothing. -/
theorem steady_onOrderCancelAck (c : Core Q S L R) (m : ℕ) : Steady c (c.onOrderCancelAck m).1 := by
  unfold onOrderCancelAck
  split
  · exact .refl c
  · next s _ =>
    have hmut : Steady c (c.exchangeMut s) := (Steady.refl c).exchangeMut s
    dsimp only
    split
    · exact hmut
    · next report ex heq =>
      have hperform : ((c.exchangeMut s).exchange s).perform (.ackCancel m) = (ex, [report]) := by
        simp only [ExchangeSimulator.perform, heq]
      exact (hmut.perform (.ackCancel m) rfl (congrArg Prod.fst hperform)).pushAfter _ _ _

/-- Ending a registration fills nothing. -/
theorem steady_forget (c : Core Q S L R) (report : OrderReport) : Steady c (c.forget report) := by
  unfold forget
  split_ifs
  · split
    · exact .refl c
    · next s _ =>
      exact ((Steady.refl c).perform (.removeOrder report.orderId) rfl rfl).trans
        (.of_eq rfl rfl rfl rfl)
  · exact .refl c

/-- A report to the strategy fills nothing. -/
theorem steady_onOrderReport (c : Core Q S L R) (report : OrderReport) :
    Steady c (c.onOrderReport report).1 := by
  unfold onOrderReport
  dsimp only
  split
  · exact (steady_forget c report).wake _ _ _
  · exact (steady_forget c report).trans (.of_eq rfl rfl rfl rfl)

/-- Funding fills nothing. -/
theorem steady_onFunding (c : Core Q S L R) (event : FundingEvent) :
    Steady c (c.onFunding event).1 := by
  refine Steady.wake ?_ _ _ _
  simp only [applyFunding]
  split
  · exact .refl c
  · exact ⟨funext fun s => c.account.positionQty_applyFunding _ _ s, rfl,
      fun s => .of_orders (orders_of_exchanges rfl s), [], by simp, by simp⟩

/-- A timer fills nothing. -/
theorem steady_onTimer (c : Core Q S L R) (timerId : ℕ) : Steady c (c.onTimer timerId).1 := by
  unfold onTimer
  split_ifs
  · exact .of_eq rfl rfl rfl rfl
  · exact .refl c

end Core

/-! ## Trades -/

namespace ExchangeSimulator

variable {Q : Type} [QueueModel Q] {q : Q} {trade : Tick} {filled : ℕ → ℤ}

/-- A trade fills an order by at most what remains of it. -/
theorem offer_weighed [LawfulQueueModel Q] (q : Q) (trade : Tick)
    (o : LiveOrder (QueueModel.State Q)) :
    (o.offer q trade).1.order = o.order ∧
    (∀ r ∈ (o.offer q trade).2.toList, r.orderId = o.order.orderId ∧
      r.symbolId = o.order.symbolId ∧ 0 < r.lastFillQty) ∧
    ∀ x, o.Weighed x → (o.offer q trade).1.Weighed
      (x + ((o.offer q trade).2.toList.map OrderReport.lastFillQty).sum) := by
  rcases offer_cases q trade o with ⟨-, heq⟩ | ⟨-, heq⟩ | ⟨hremaining, hstate, hpos, heq⟩
  · rw [heq]
    exact ⟨rfl, by simp, fun x hx => by simpa using hx⟩
  · rw [heq]
    have hqueued : o.Becomes (o.queued q trade) := ⟨rfl, rfl, id, id⟩
    exact ⟨rfl, by simp, fun x hx => by simpa using hx.becomes hqueued⟩
  · rw [heq]
    refine ⟨rfl, fun r hr => ?_, fun x hx => ?_⟩
    · obtain rfl := List.mem_singleton.1 hr
      exact ⟨rfl, rfl, hpos⟩
    · obtain ⟨hqty, hbounds, -, hrest⟩ := hx
      have halive : o.state.isTerminal = false := by
        cases hs : o.state <;> simp_all [OrderState.isFillable, OrderState.isTerminal]
      have hle : o.fillQty q trade ≤ o.remainingQty :=
        LawfulQueueModel.fill_le_remaining _ _ _ _ _ hremaining
      have hsum := hrest halive
      have hmax : i64Max = 2 ^ 63 - 1 := rfl
      have hsub : subI64 o.remainingQty (o.fillQty q trade) = o.remainingQty - o.fillQty q trade :=
        wrap_eq_self (by norm_num) (by unfold InRange; norm_num; omega)
      have hfill : ((some (o.fillReport q trade)).toList.map OrderReport.lastFillQty).sum =
          o.fillQty q trade := by simp [LiveOrder.fillReport, Order.report]
      rw [hfill]
      refine ⟨hqty, ⟨by omega, ?_⟩, fun hs => ?_, fun _ => ?_⟩
      · change x + o.fillQty q trade ≤ o.order.qty
        omega
      · change (if subI64 o.remainingQty (o.fillQty q trade) = 0 then OrderState.filled
          else .partiallyFilled) = .pendingNew at hs
        split_ifs at hs
      · change x + o.fillQty q trade + subI64 o.remainingQty (o.fillQty q trade) = o.order.qty
        rw [hsub]
        omega

/-- The orders after a trade was offered to some of them, with the reports so far. -/
structure Offered (filled : ℕ → ℤ) (orders : ExtTreeMap ℕ (LiveOrder (QueueModel.State Q)))
    (rs : List OrderReport) : Prop where
  weighed : ∀ (n : ℕ) o, orders[n]? = some o →
    o.Weighed (filled n + ((reportsAbout n rs).map OrderReport.lastFillQty).sum)
  keyed : ∀ (n : ℕ) o, orders[n]? = some o → o.order.orderId = n
  reports : ∀ r ∈ rs, 0 < r.lastFillQty ∧
    ∃ o, orders[r.orderId]? = some o ∧ o.order.symbolId = r.symbolId

/-- Offering the trade to one more order keeps what was filled within what was left. -/
theorem Offered.offerTo [LawfulQueueModel Q]
    {acc : ExtTreeMap ℕ (LiveOrder (QueueModel.State Q)) × List OrderReport}
    (h : Offered filled acc.1 acc.2) (m : ℕ) :
    Offered filled (offerTo q trade acc m).1 (offerTo q trade acc m).2 := by
  unfold ExchangeSimulator.offerTo
  split
  · exact h
  · next o ho =>
    obtain ⟨horder, hreports, hweighed⟩ := offer_weighed q trade o
    have hid := h.keyed m o ho
    have hget : ∀ n : ℕ, (acc.1.insert m (o.offer q trade).1)[n]? =
        if m = n then some (o.offer q trade).1 else acc.1[n]? := fun n => by
      simp only [ExtTreeMap.getElem?_insert, Std.compare_eq_iff_eq]
    constructor
    · intro n o' ho'
      rw [hget] at ho'
      rw [reportsAbout_append, List.map_append, List.sum_append, ← add_assoc]
      split_ifs at ho' with hmn
      · obtain rfl := Option.some.inj ho'
        subst hmn
        have hall : reportsAbout m (o.offer q trade).2.toList = (o.offer q trade).2.toList :=
          List.filter_eq_self.2 fun r hr => by simp [(hreports r hr).1, hid]
        rw [hall]
        exact hweighed _ (h.weighed m o ho)
      · have hnone : reportsAbout n (o.offer q trade).2.toList = [] :=
          List.filter_eq_nil_iff.2 fun r hr => by simp [(hreports r hr).1, hid, hmn]
        rw [hnone]
        simpa using h.weighed n o' ho'
    · intro n o' ho'
      rw [hget] at ho'
      split_ifs at ho' with hmn
      · obtain rfl := Option.some.inj ho'
        rw [horder, hid, hmn]
      · exact h.keyed n o' ho'
    · intro r hr
      rcases List.mem_append.1 hr with hr | hr
      · obtain ⟨hpos, o', ho', hsymbol⟩ := h.reports r hr
        refine ⟨hpos, ?_⟩
        rw [hget]
        split_ifs with hmr
        · obtain rfl : o = o' := Option.some.inj (ho.symm.trans (hmr ▸ ho'))
          exact ⟨_, rfl, horder ▸ hsymbol⟩
        · exact ⟨o', ho', hsymbol⟩
      · obtain ⟨hr, hsymbol, hpos⟩ := hreports r hr
        refine ⟨hpos, (o.offer q trade).1, ?_, by rw [horder, hsymbol]⟩
        rw [hget, if_pos (hid.symm.trans hr.symm)]

/-- A trade on an exchange whose orders are weighed. -/
theorem offered_onTrade [LawfulQueueModel Q] {ex : ExchangeSimulator Q} (trade : Tick)
    (hweighed : ∀ (n : ℕ) o, ex.orders[n]? = some o → o.Weighed (filled n))
    (hkeyed : ∀ (n : ℕ) o, ex.orders[n]? = some o → o.order.orderId = n) :
    Offered filled (ex.onTrade trade).1.orders (ex.onTrade trade).2 := by
  have hstart : Offered filled ex.orders [] :=
    ⟨fun n o ho => by simpa [reportsAbout] using hweighed n o ho, hkeyed, by simp⟩
  have hfold : ∀ (ids : List ℕ) acc, Offered filled acc.1 acc.2 →
      Offered filled (ids.foldl (ExchangeSimulator.offerTo ex.queueModel trade) acc).1
        (ids.foldl (ExchangeSimulator.offerTo ex.queueModel trade) acc).2 := by
    intro ids
    induction ids with
    | nil => exact fun acc h => h
    | cons m ids ih => exact fun acc h => ih _ (h.offerTo m)
  unfold onTrade
  split
  · exact hstart
  · exact hfold _ (ex.orders, []) hstart

/-- The orders that a trade reports about were there before. -/
theorem Offered.order {ex : ExchangeSimulator Q}
    (h : Offered filled (ex.onTrade trade).1.orders (ex.onTrade trade).2)
    {r : OrderReport} (hr : r ∈ (ex.onTrade trade).2) : ∃ o, ex.orders[r.orderId]? = some o ∧
      (ex.onTrade trade).1.getOrder r.orderId = some o.order ∧ o.order.symbolId = r.symbolId ∧
      filled r.orderId + ((reportsAbout r.orderId (ex.onTrade trade).2).map
        OrderReport.lastFillQty).sum ≤
        o.order.qty := by
  obtain ⟨-, o', ho', hsymbol⟩ := h.reports r hr
  have hget' : (ex.onTrade trade).1.getOrder r.orderId = some o'.order := by
    rw [getOrder, ho']
    rfl
  obtain ⟨o, ho, horder⟩ := Option.map_eq_some_iff.1
    ((getOrder_onTrade trade r.orderId).symm.trans hget')
  refine ⟨o, ho, horder ▸ hget', horder ▸ hsymbol, ?_⟩
  rw [horder]
  exact (h.weighed _ o' ho').bounds.2

/-- A market order is filled by at most its quantity, and rejected if there is nothing to fill
it. -/
theorem fillMarketImmediately_eq {ex : ExchangeSimulator Q} {n : ℕ}
    {o : LiveOrder (QueueModel.State Q)}
    (ho : ex.orders[n]? = some o) (hqty : 0 < o.order.qty) (fallbackPrice : Option ℤ) :
    ∃ r o', ex.fillMarketImmediately n fallbackPrice = some (r, ex.putOrder n o') ∧
      o'.order = o.order ∧ r.orderId = o.order.orderId ∧ r.symbolId = o.order.symbolId ∧
      r.lastFillQty ≤ o.order.qty ∧ r.status = o'.state ∧
      (o'.state = .partiallyFilled ∨ o'.state.isTerminal = true) := by
  simp only [fillMarketImmediately, ho, Option.map_some]
  cases ex.marketLevel o.order.side fallbackPrice with
  | none => exact ⟨_, _, rfl, rfl, rfl, rfl, hqty.le, rfl, .inr rfl⟩
  | some level =>
    obtain ⟨price, availableQty⟩ := level
    refine ⟨_, _, rfl, rfl, rfl, rfl, min_le_left _ _, rfl, ?_⟩
    dsimp only
    split_ifs
    · exact .inr rfl
    · exact .inl rfl

end ExchangeSimulator

/-- The fills of a trade, order by order. -/
theorem Core.filledQty_makerFills {Q : Type} [QueueModel Q] {ex : ExchangeSimulator Q}
    {ts feeBps : ℤ} {rs : List OrderReport} (n : ℕ)
    (h : ∀ r ∈ rs, 0 < r.lastFillQty ∧ ∃ order, ex.getOrder r.orderId = some order) :
    filledQty n ((Core.makerFills ex ts feeBps rs).map fun f => .filled f.2) =
      ((reportsAbout n rs).map OrderReport.lastFillQty).sum := by
  rw [filledQty, filledIn_fills]
  induction rs with
  | nil => rfl
  | cons r rs ih =>
    obtain ⟨hpos, order, horder⟩ := h r (by simp)
    have hcons : Core.makerFills ex ts feeBps (r :: rs) =
        (order, Core.tradeFill ts false feeBps order r) :: Core.makerFills ex ts feeBps rs := by
      rw [Core.makerFills, List.filterMap_cons, if_pos hpos, horder]
      rfl
    have hrest := ih fun r hr => h r (by simp [hr])
    rw [hcons, reportsAbout, List.filter_cons]
    by_cases hid : r.orderId = n
    · simp only [List.map_cons, List.filter_cons, Core.tradeFill, hid, decide_true, ↓reduceIte,
        List.sum_cons, hrest, reportsAbout]
    · simpa only [List.map_cons, List.filter_cons, Core.tradeFill, hid, decide_false,
        Bool.false_eq_true, ↓reduceIte, reportsAbout] using hrest

namespace Ledger

variable {Q : Type} [QueueModel Q]

/-- Booked fills move the positions one by one. -/
theorem positionQty_book (L : Ledger Q) (symbol : ℕ) (ts : ℤ) {fills : List (Order × TradeFill)}
    {s : ℕ} (hfills : ∀ f ∈ fills, f.2.symbolId = f.1.symbolId ∧ f.2.side = f.1.side)
    (h : InRange 64 (L.account.positionQty s)) :
    (L.post (.book symbol ts fills)).account.positionQty s =
      (fills.map Prod.snd).foldl (positionAfter s) (L.account.positionQty s) := by
  have hlog : ∀ (fills : List (Order × TradeFill)) (L : Ledger Q),
      (fills.foldl logFill L).account = L.account := by
    intro fills
    induction fills with
    | nil => exact fun _ => rfl
    | cons f fills ih => exact fun L => ih (L.logFill f)
  rw [post, ← hlog fills L]
  rw [← hlog fills L] at h
  generalize fills.foldl logFill L = L' at h
  induction fills generalizing L' with
  | nil => rfl
  | cons f fills ih =>
    obtain ⟨hsymbol, hside⟩ := hfills f (by simp)
    have hsettle : (settle ts L' f).account.positionQty s =
        positionAfter s (L'.account.positionQty s) f.2 := by
      rw [positionAfter, hsymbol, hside]
      exact Account.positionQty_onFill _ _ _ _ s h
    have hin : InRange 64 ((settle ts L' f).account.positionQty s) :=
      hsettle ▸ inRange_positionAfter h s f.2
    rw [List.foldl_cons, List.map_cons, List.foldl_cons, ← hsettle]
    exact ih (fun f hf => hfills f (by simp [hf])) _ hin

end Ledger

/-! ## Handlers that fill orders -/

namespace Core

variable {Q S L R : Type} [QueueModel Q] {c c' c'' : Core Q S L R} {filled : ℕ → ℤ}
  {new : List Effect} {n s : ℕ}

/-- Of every order `n` at an exchange, `filled n` is filled. -/
def Weighs (filled : ℕ → ℤ) (c : Core Q S L R) : Prop :=
  ∀ (s n : ℕ) o, (c.exchange s).orders[n]? = some o → o.Weighed (filled n)

/-- No order is at two exchanges. -/
def Housed (c : Core Q S L R) : Prop :=
  ∀ (s s' n : ℕ) o o', (c.exchange s).orders[n]? = some o → (c.exchange s').orders[n]? = some o' →
    s = s'

/-- What `new` books between `c` and `c'`, when `filled` was booked before : fills of orders that
have room for them, settled in the account in their order. -/
structure Accounts (filled : ℕ → ℤ) (c : Core Q S L R) (new : List Effect) (c' : Core Q S L R) :
    Prop where
  effects : c'.effects = c.effects ++ new
  limit : c'.riskGuard.maxPosition = c.riskGuard.maxPosition
  placed : ∀ f ∈ filledIn new, 0 < f.qty ∧ ∃ s o, (c.exchange s).orders[f.orderId]? = some o ∧
    o.order.symbolId = f.symbolId ∧ o.order.side = f.side ∧
    filled f.orderId + filledQty f.orderId new ≤ o.order.qty
  position : ∀ s, c'.account.positionQty s = (filledIn new).foldl (positionAfter s)
    (c.account.positionQty s)
  vetted : Always (fun pre x => x.Vetted c.riskGuard.maxPosition fun s =>
    (filledIn pre).foldl (positionAfter s) (c.account.positionQty s)) new

/-- What is filled depends on the fills only. -/
theorem filledQty_congr {l l' : List Effect} (h : filledIn l = filledIn l') (n : ℕ) :
    filledQty n l = filledQty n l' := by
  rw [filledQty, h]
  rfl

/-- More work that fills nothing. -/
theorem Accounts.steady (h : Accounts filled c new c') (hs : Steady c' c'') :
    ∃ new', Accounts filled c new' c'' ∧ filledIn new' = filledIn new := by
  obtain ⟨rest, heq, hrest⟩ := hs.effects
  have hnone : ∀ l : List Effect, l ⊆ rest → filledIn (new ++ l) = filledIn new := fun l hl => by
    rw [filledIn_append, filledIn_eq_nil fun x hx => (hrest x (hl hx)).1, List.append_nil]
  have hsame := hnone rest (List.Subset.refl _)
  refine ⟨new ++ rest, ⟨?_, hs.limit.trans h.limit, ?_, fun s => ?_, ?_⟩, hsame⟩
  · rw [heq, h.effects, List.append_assoc]
  · rw [hsame]
    simpa only [filledQty_congr hsame] using h.placed
  · rw [hs.account, h.position, hsame]
  · refine always_append h.vetted fun pre x post hsplit => ?_
    have hx := (hrest x (by rw [hsplit]; exact List.mem_append_right _ List.mem_cons_self)).2
    rw [hnone pre fun y hy => hsplit ▸ List.mem_append_left _ hy]
    rw [h.limit] at hx
    have hposition : c'.account.positionQty = fun s =>
        (filledIn new).foldl (positionAfter s) (c.account.positionQty s) := funext h.position
    exact hposition ▸ hx

/-- Booking nothing. -/
theorem Accounts.refl (filled : ℕ → ℤ) (c : Core Q S L R) : Accounts filled c [] c :=
  ⟨by simp, rfl, by simp [filledIn], fun _ => rfl, always_nil⟩

/-- Steady work keeps the orders weighed. -/
theorem Weighs.steady (h : c.Weighs filled) (hs : Steady c c') : c'.Weighs filled := by
  intro s n o ho
  obtain ⟨o', ho', hb⟩ := hs.orders s n o ho
  exact (h s n o' ho').becomes hb

/-- Booking a trade. -/
theorem accounts_bookTrade [Strategy S] (c₀ c : Core Q S L R) {ex : ExchangeSimulator Q}
    {rs : List OrderReport} (heffects : c.effects = c₀.effects) (haccount : c.account = c₀.account)
    (hguard : c.riskGuard = c₀.riskGuard) (hrange : ∀ s, InRange 64 (c₀.account.positionQty s))
    (hrs : ∀ r ∈ rs, 0 < r.lastFillQty ∧ ∃ s o, (c₀.exchange s).orders[r.orderId]? = some o ∧
      ex.getOrder r.orderId = some o.order ∧ o.order.symbolId = r.symbolId ∧
      filled r.orderId + ((reportsAbout r.orderId rs).map OrderReport.lastFillQty).sum ≤
        o.order.qty)
    (tick : Tick) : ∃ new, Accounts filled c₀ new (c.bookTrade tick ex rs) ∧
      ∀ n, filledQty n new = ((reportsAbout n rs).map OrderReport.lastFillQty).sum := by
  let fills := makerFills ex tick.tsExchange c.config.makerFeeBps rs
  let pushed := rs.flatMap fun r => pushEffects tick.tsExchange c.config.orderUpdateLatencyNs
    (addI64 tick.tsExchange c.config.orderUpdateLatencyNs) (.orderReport r)
  have hpushed : ∀ x ∈ pushed, x.fill = none ∧ ∀ limit position, x.Vetted limit position := by
    intro x hx
    obtain ⟨r, -, hx⟩ := List.mem_flatMap.1 hx
    exact ⟨(Steady.pushEffects _ _ _ _ 0 (fun _ => 0) x hx).1,
      fun limit position => (Steady.pushEffects _ _ _ _ limit position x hx).2⟩
  have hfilled : filledIn (fills.map (fun f => Effect.filled f.2) ++ pushed) =
      fills.map Prod.snd := by
    rw [filledIn_append, filledIn_fills, filledIn_eq_nil fun x hx => (hpushed x hx).1,
      List.append_nil]
  have hqty : ∀ n, filledQty n (fills.map (fun f => Effect.filled f.2) ++ pushed) =
      ((reportsAbout n rs).map OrderReport.lastFillQty).sum := fun n => by
    rw [filledQty_congr (hfilled.trans (filledIn_fills fills).symm)]
    refine filledQty_makerFills n fun r hr => ?_
    obtain ⟨hpos, s, o, -, hget, -⟩ := hrs r hr
    exact ⟨hpos, o.order, hget⟩
  have hfill : ∀ f ∈ fills, 0 < f.2.qty ∧ f.2.symbolId = f.1.symbolId ∧ f.2.side = f.1.side ∧
      ∃ s o, (c₀.exchange s).orders[f.2.orderId]? = some o ∧ o.order = f.1 ∧
        filled f.2.orderId + ((reportsAbout f.2.orderId rs).map OrderReport.lastFillQty).sum ≤
          o.order.qty := by
    intro f hf
    obtain ⟨r, hr, hsome⟩ := List.mem_filterMap.1 hf
    obtain ⟨hpos, s, o, ho, hget, hsymbol, hle⟩ := hrs r hr
    rw [if_pos hpos, hget] at hsome
    obtain rfl := Option.some.inj hsome
    exact ⟨hpos, hsymbol.symm, rfl, s, o, ho, rfl, hle⟩
  obtain ⟨-, -, -, hbooked⟩ := bookTrade_cases c tick ex rs
  have hledger := ledger_bookTrade c tick ex rs 0
  refine ⟨_, ⟨?_, ?_, ?_, fun s => ?_, ?_⟩, hqty⟩
  · rw [hbooked, heffects, List.append_assoc]
  · obtain ⟨killed, runningPnl, heq⟩ := Ledger.limits_post c.ledger (.book 0 tick.tsExchange fills)
    have hguard' : (c.bookTrade tick ex rs).riskGuard =
        { c.riskGuard with killed := killed, runningPnl := runningPnl } :=
      (congrArg Ledger.riskGuard hledger).trans heq
    rw [hguard', hguard]
  · intro fill hmem
    rw [hfilled] at hmem
    obtain ⟨f, hf, rfl⟩ := List.mem_map.1 hmem
    obtain ⟨hpos, hsymbol, hside, s, o, ho, horder, hle⟩ := hfill f hf
    refine ⟨hpos, s, o, ho, ?_, ?_, ?_⟩
    · rw [horder, hsymbol]
    · rw [horder, hside]
    · rwa [hqty]
  · have hposition : (c.bookTrade tick ex rs).account.positionQty s =
        (fills.map Prod.snd).foldl (positionAfter s) (c.account.positionQty s) := by
      have haccount' : (c.bookTrade tick ex rs).account =
          (c.ledger.post (.book 0 tick.tsExchange fills)).account := congrArg Ledger.account hledger
      have hin : InRange 64 (c.account.positionQty s) := by
        rw [haccount]
        exact hrange s
      rw [haccount']
      exact c.ledger.positionQty_book 0 _ (fun f hf => ⟨(hfill f hf).2.1, (hfill f hf).2.2.1⟩) hin
    rw [hposition, hfilled, haccount]
  · intro pre x post hsplit
    have hx : x ∈ fills.map (fun f => Effect.filled f.2) ++ pushed := by
      rw [hsplit]
      exact List.mem_append_right _ List.mem_cons_self
    rcases List.mem_append.1 hx with hx | hx
    · obtain ⟨f, -, rfl⟩ := List.mem_map.1 hx
      trivial
    · exact (hpushed x hx).2 _ _

/-- A trade. -/
theorem accounts_onTickEvent [LawfulQueueModel Q] [Strategy S] (hw : c.Weighs filled)
    (hkeyed : ∀ s, (c.exchange s).Keyed) (hhoused : c.Housed)
    (hrange : ∀ s, InRange 64 (c.account.positionQty s)) (tick : Tick) :
    ∃ new, Accounts filled c new (c.onTickEvent tick).1 ∧
      (c.onTickEvent tick).1.Weighs fun n => filled n + filledQty n new := by
  let ex := c.exchange tick.symbolId
  let c₁ := (c.observeTrade tick).putExchange tick.symbolId (ex.onTrade tick).1
  have hoffered := ExchangeSimulator.offered_onTrade tick (hw tick.symbolId) (hkeyed tick.symbolId)
  obtain ⟨new, haccounts, hqty⟩ := accounts_bookTrade c c₁ rfl rfl rfl hrange
    (fun r hr => ⟨(hoffered.reports r hr).1, tick.symbolId, hoffered.order hr⟩) tick
  refine ⟨new, haccounts, fun s n o ho => ?_⟩
  obtain ⟨-, hexchanges, -, -⟩ := bookTrade_cases c₁ tick (ex.onTrade tick).1 (ex.onTrade tick).2
  have horders : (c₁.exchange s).orders[n]? = some o :=
    (congrArg (·[n]?) (orders_of_exchanges hexchanges s)).symm.trans ho
  dsimp only
  rw [exchange_putExchange] at horders
  rw [hqty]
  split_ifs at horders with hs
  · exact hoffered.weighed n o horders
  · -- the order is at another exchange, so the trade does not report about it
    have hnone : reportsAbout n (ex.onTrade tick).2 = [] := by
      refine List.filter_eq_nil_iff.2 fun r hr hid => ?_
      obtain ⟨o', ho', -⟩ := hoffered.order hr
      rw [of_decide_eq_true hid] at ho'
      exact hs (hhoused _ _ n o' o ho' horders)
    rw [hnone]
    simpa using hw s n o horders

/-- A handler that fills nothing. -/
theorem accounts_of_steady {c₁ : Core Q S L R} (hstart : Accounts filled c [] c₁)
    (hw : c₁.Weighs filled)
    (hs : Steady c₁ c') : ∃ new, Accounts filled c new c' ∧
      c'.Weighs fun n => filled n + filledQty n new := by
  obtain ⟨new, haccounts, hnone⟩ := hstart.steady hs
  refine ⟨new, haccounts, fun s n o ho => ?_⟩
  dsimp only
  rw [filledQty_eq_zero fun f hf => absurd hf (hnone ▸ List.not_mem_nil), add_zero]
  exact hw.steady hs s n o ho

/-- An order reaches the exchange. -/
theorem accounts_onOrder [Strategy S] [LatencyModel L R] (hw : c.Weighs filled) {order : Order}
    (hqty : 0 < order.qty ∧ order.qty ≤ i64Max) (hnone : filled order.orderId = 0) :
    ∃ new, Accounts filled c new (c.onOrder order).1 ∧
      (c.onOrder order).1.Weighs fun n => filled n + filledQty n new := by
  let c₁ := c.putExchange order.symbolId ((c.exchange order.symbolId).submitOrder order)
  have hw₁ : c₁.Weighs filled := by
    intro s n o ho
    rw [exchange_putExchange] at ho
    split_ifs at ho with hs
    · rw [ExchangeSimulator.getElem?_submitOrder] at ho
      split_ifs at ho with hid
      · obtain rfl := Option.some.inj ho
        rw [← hid, hnone]
        exact LiveOrder.weighed_new hqty _
      · exact hw _ n o ho
    · exact hw s n o ho
  have hstart : Accounts filled c [] c₁ :=
    ⟨by simp [c₁, putExchange], rfl, by simp [filledIn], fun _ => rfl, always_nil⟩
  refine accounts_of_steady hstart hw₁ (Steady.pushAfterSat ?_ _ _ _)
  exact (steady_sampleOrderLatency c₁).append [.orderLatency order.orderId _] rfl rfl rfl rfl
    (by simp [Effect.fill, Effect.Vetted])

/-- The fill of a market order. -/
theorem accounts_bookTakerFill (c₀ c : Core Q S L R) (heffects : c.effects = c₀.effects)
    (haccount : c.account = c₀.account) (hguard : c.riskGuard = c₀.riskGuard)
    (hrange : ∀ s, InRange 64 (c₀.account.positionQty s)) {o : LiveOrder (QueueModel.State Q)}
    (ho : (c₀.exchange s).orders[n]? = some o) {r : OrderReport} (hid : r.orderId = n)
    (hsymbol : r.symbolId = o.order.symbolId) (hle : filled n + r.lastFillQty ≤ o.order.qty) :
    ∃ new, Accounts filled c₀ new (c.bookTakerFill (some o.order) r) ∧
      (∀ m, m ≠ n → filledQty m new = 0) ∧ 0 ≤ filledQty n new ∧
      (filledQty n new = 0 ∨ filledQty n new = r.lastFillQty) := by
  unfold bookTakerFill
  dsimp only
  split_ifs with hpos
  · let fill := tradeFill c.nowTsSim true c.config.takerFeeBps o.order r
    have hqty : ∀ m, filledQty m [.filled fill] = if n = m then r.lastFillQty else 0 := fun m => by
      rw [filledQty_singleton]
      exact if_congr (by rw [← hid]; rfl) rfl rfl
    have hfilled : filledIn [.filled fill] = [fill] := rfl
    refine ⟨[.filled fill], ⟨?_, ?_, ?_, fun s' => ?_, ?_⟩, fun m hm => ?_, ?_, ?_⟩
    · rw [← heffects]
      rfl
    · rw [← hguard]
      rfl
    · intro f hf
      obtain rfl := List.mem_singleton.1 hf
      refine ⟨hpos, s, o, ?_, hsymbol.symm, rfl, ?_⟩
      · exact (congrArg (fun m => (c₀.exchange s).orders[m]?) hid).trans ho
      · change filled r.orderId + filledQty r.orderId _ ≤ _
        rw [hid, hqty, if_pos rfl]
        exact hle
    · have hin : InRange 64 (c.account.positionQty s') := by
        rw [haccount]
        exact hrange s'
      have hposition := c.account.positionQty_onFill o.order fill.qty fill.price s' hin
      rw [← haccount, hfilled, List.foldl_cons, List.foldl_nil, positionAfter]
      exact hposition.trans (if_congr (by rw [← hsymbol]; rfl) rfl rfl)
    · intro pre x post hsplit
      have hx : x ∈ [Effect.filled fill] := by
        rw [hsplit]
        exact List.mem_append_right _ List.mem_cons_self
      obtain rfl := List.mem_singleton.1 hx
      trivial
    · rw [hqty, if_neg (Ne.symm hm)]
    · rw [hqty, if_pos rfl]
      exact hpos.le
    · rw [hqty, if_pos rfl]
      exact .inr rfl
  · refine ⟨[], ⟨?_, by rw [hguard], by simp [filledIn], fun s' => by rw [haccount]; rfl,
      always_nil⟩,
      fun _ _ => rfl, le_rfl, .inl rfl⟩
    rw [heffects, List.append_nil]

/-- Cancelling the rest of a market order fills nothing. -/
theorem steady_cancelRest (c : Core Q S L R) (n s : ℕ) : Steady c (c.cancelRest n s) := by
  unfold cancelRest
  split
  · exact .refl c
  · next report ex heq =>
    have hperform : (c.exchange s).perform (.forceCancelPartialFill n) = (ex, [report]) := by
      simp only [ExchangeSimulator.perform, heq]
    exact ((Steady.refl c).perform _ rfl (congrArg Prod.fst hperform)).pushAfterSat _ _ _

/-- What is left of a market order is cancelled. -/
theorem getElem?_cancelRest {o : LiveOrder (QueueModel.State Q)}
    (ho : (c.exchange s).orders[n]? = some o) (s' m : ℕ) :
    ((c.cancelRest n s).exchange s').orders[m]? =
      if s = s' ∧ n = m then some { o with state := .cancelled }
      else (c.exchange s').orders[m]? := by
  have hpush : ∀ (c : Core Q S L R) ts delay kind,
      ((c.pushAfterSat ts delay kind).exchange s').orders = (c.exchange s').orders :=
        fun c ts delay kind => by
    rw [pushAfterSat_eq]
    exact orders_of_exchanges rfl s'
  simp only [cancelRest, ExchangeSimulator.forceCancelPartialFill, ho, Option.map_some]
  rw [hpush, exchange_putExchange]
  by_cases hs : s = s'
  · rw [if_pos hs, ExchangeSimulator.getElem?_putOrder]
    simp only [hs, true_and]
  · simp only [hs, false_and, ↓reduceIte]

/-- A market order after its fill is over. -/
theorem accounts_fillMarket [Strategy S] (hw : c.Weighs filled) (hhoused : c.Housed)
    (hrange : ∀ s, InRange 64 (c.account.positionQty s)) (hkeyed : ∀ s, (c.exchange s).Keyed)
    (hnew : ∀ s o, (c.exchange s).orders[n]? = some o → o.state = .pendingNew) (s : ℕ) :
    ∃ new, Accounts filled c new (c.fillMarket n s) ∧
      (c.fillMarket n s).Weighs fun n => filled n + filledQty n new := by
  simp only [fillMarket]
  cases ho : (c.exchange s).orders[n]? with
  | none =>
    have hnone : ∀ fallbackPrice, (c.exchange s).fillMarketImmediately n fallbackPrice = none :=
      fun _ => by simp [ExchangeSimulator.fillMarketImmediately, ho]
    rw [hnone]
    exact accounts_of_steady (.refl filled c) hw (.refl c)
  | some o =>
    have hweighed := hw s n o ho
    have hzero := hweighed.unfilled (hnew s o ho)
    obtain ⟨r, o', heq, horder, hid, hsymbol, hle, hstatus, hstate⟩ :=
      ExchangeSimulator.fillMarketImmediately_eq ho hweighed.qty.1
        (c.truthLastTradeBySymbol[s]?.map (·.price))
    have hget : (c.exchange s).getOrder n = some o.order := by
      rw [ExchangeSimulator.getOrder, ho]
      rfl
    have hidn : r.orderId = n := hid.trans (hkeyed s n o ho)
    let c₁ := c.putExchange s ((c.exchange s).putOrder n o')
    have hroom : filled n + r.lastFillQty ≤ o.order.qty := by
      rw [hzero, zero_add]
      exact hle
    obtain ⟨new, haccounts, hother, hnonneg, hqty⟩ :=
      accounts_bookTakerFill c c₁ rfl rfl rfl hrange ho hidn hsymbol hroom
    have hmarket : Steady (c₁.bookTakerFill (some o.order) r) (c₁.reportMarket (some o.order) r) :=
      (Steady.refl _).pushAfterSat _ _ _
    have horders : ∀ (s' m : ℕ), ((c₁.reportMarket (some o.order) r).exchange s').orders[m]? =
        if s = s' ∧ n = m then some o' else (c.exchange s').orders[m]? := by
      intro s' m
      rw [orders_of_exchanges (exchanges_reportMarket _ _), exchange_putExchange]
      by_cases hs : s = s'
      · rw [if_pos hs, ExchangeSimulator.getElem?_putOrder]
        simp only [hs, true_and]
      · simp only [hs, false_and, ↓reduceIte]
    have hover : ∀ x : LiveOrder (QueueModel.State Q), x.order = o.order →
      x.state.isTerminal = true →
        x.Weighed (filled n + filledQty n new) := by
      intro x hx hterminal
      refine ⟨hx ▸ hweighed.qty, ⟨by omega, ?_⟩, fun hs => ?_, fun hs => ?_⟩
      · have hpos := hweighed.qty.1
        rw [hx]
        rcases hqty with hqty | hqty <;> omega
      · rw [hs] at hterminal
        cases hterminal
      · rw [hs] at hterminal
        cases hterminal
    have hrest : ∀ (s' m : ℕ) x, ¬(s = s' ∧ n = m) → (c.exchange s').orders[m]? = some x →
        x.Weighed (filled m + filledQty m new) := by
      intro s' m x hne hx
      have hmn : m ≠ n := fun heq => hne ⟨hhoused s s' n o x ho (heq ▸ hx), heq.symm⟩
      rw [hother m hmn, add_zero]
      exact hw s' m x hx
    rw [heq, hget]
    dsimp only
    rcases hstate with hpartly | hterminal
    · rw [if_pos (hstatus.trans hpartly)]
      obtain ⟨new', haccounts', hsame⟩ := haccounts.steady (hmarket.trans (steady_cancelRest _ n s))
      refine ⟨new', haccounts', fun s' m x hx => ?_⟩
      dsimp only
      rw [filledQty_congr hsame]
      have ho' := (horders s n).trans (if_pos ⟨rfl, rfl⟩)
      rw [getElem?_cancelRest ho', horders] at hx
      split_ifs at hx with hsm
      · obtain rfl := Option.some.inj hx
        rw [← hsm.2]
        exact hover _ horder rfl
      · exact hrest s' m x hsm hx
    · have hne : r.status ≠ .partiallyFilled := by
        rw [hstatus]
        rintro heq'
        rw [heq'] at hterminal
        cases hterminal
      rw [if_neg hne]
      obtain ⟨new', haccounts', hsame⟩ := haccounts.steady hmarket
      refine ⟨new', haccounts', fun s' m x hx => ?_⟩
      dsimp only
      rw [filledQty_congr hsame]
      change ((c₁.reportMarket (some o.order) r).exchange s').orders[m]? = some x at hx
      rw [horders] at hx
      split_ifs at hx with hsm
      · obtain rfl := Option.some.inj hx
        rw [← hsm.2]
        exact hover _ horder hterminal
      · exact hrest s' m x hsm hx

/-- An order is acknowledged. -/
theorem accounts_onOrderAck [Strategy S] (hw : c.Weighs filled) (hhoused : c.Housed)
    (hrange : ∀ s, InRange 64 (c.account.positionQty s)) (hkeyed : ∀ s, (c.exchange s).Keyed)
    (hnew : ∀ s o, (c.exchange s).orders[n]? = some o → o.state = .pendingNew) :
    ∃ new, Accounts filled c new (c.onOrderAck n).1 ∧
      (c.onOrderAck n).1.Weighs fun n => filled n + filledQty n new := by
  unfold onOrderAck
  split
  · exact accounts_of_steady (.refl filled c) hw (.refl c)
  · next s _ =>
    have hmut : Steady c (c.exchangeMut s) := (Steady.refl c).exchangeMut s
    dsimp only
    split
    · have hexchange : (c.exchangeMut s).exchange = c.exchange := by
        funext s'
        rw [exchangeMut, exchange_putExchange]
        split_ifs with hs
        · rw [hs]
        · rfl
      obtain ⟨new, haccounts, hweighs⟩ := accounts_fillMarket (c := c.exchangeMut s) (n := n)
        (hw.steady hmut) (by simpa only [Housed, hexchange] using hhoused) hrange
        (by simpa only [hexchange] using hkeyed) (by simpa only [hexchange] using hnew) s
      obtain ⟨heffects, hlimit, hplaced, hposition, hvetted⟩ := haccounts
      rw [hexchange] at hplaced
      exact ⟨new, ⟨heffects, hlimit, hplaced, hposition, hvetted⟩, hweighs⟩
    · split
      · exact accounts_of_steady (.refl filled c) hw hmut
      · next report ex heq =>
        have hperform : ((c.exchangeMut s).exchange s).perform (.ackNew n) = (ex, [report]) := by
          simp only [ExchangeSimulator.perform, heq]
        exact accounts_of_steady (.refl filled c) hw
          ((hmut.perform (.ackNew n) rfl (congrArg Prod.fst hperform)).pushAfterSat _ _ _)

/-- Whatever event a core handles, its fills have room and are settled. -/
theorem accounts_handle [LawfulQueueModel Q] [Strategy S] [LatencyModel L R] (hw : c.Weighs filled)
    (hhoused : c.Housed) (hrange : ∀ s, InRange 64 (c.account.positionQty s))
    (hkeyed : ∀ s, (c.exchange s).Keyed) {kind : EventKind}
    (horder : ∀ o, kind = .order o → (0 < o.qty ∧ o.qty ≤ i64Max) ∧ filled o.orderId = 0)
    (hack : ∀ n, kind = .orderAck n →
      ∀ s o, (c.exchange s).orders[n]? = some o → o.state = .pendingNew) :
    ∃ new, Accounts filled c new (c.handle kind).1 ∧
      (c.handle kind).1.Weighs fun n => filled n + filledQty n new := by
  have hsteady : ∀ {c'}, Steady c c' →
      ∃ new, Accounts filled c new c' ∧ c'.Weighs fun n => filled n + filledQty n new :=
    accounts_of_steady (.refl filled c) hw
  cases kind with
  | tick tick => exact accounts_onTickEvent hw hkeyed hhoused hrange tick
  | tickDelivery tick => exact hsteady (steady_onTickDelivery c tick)
  | l2Update update => exact hsteady (steady_onL2Update c update)
  | l3Update update => exact hsteady (steady_onL3Update c update)
  | order order =>
    obtain ⟨hqty, hnone⟩ := horder order rfl
    exact accounts_onOrder hw hqty hnone
  | orderAck n => exact accounts_onOrderAck hw hhoused hrange hkeyed (hack n rfl)
  | orderCancel n => exact hsteady (steady_onOrderCancel c n)
  | orderCancelAck n => exact hsteady (steady_onOrderCancelAck c n)
  | orderReport report => exact hsteady (steady_onOrderReport c report)
  | funding event => exact hsteady (steady_onFunding c event)
  | timer timerId => exact hsteady (steady_onTimer c timerId)

end Core

end Backtester
