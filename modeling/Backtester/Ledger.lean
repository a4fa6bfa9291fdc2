import Backtester.ExchangeOps
import Backtester.Lifecycle

/-!
# The ledger

The engine without its strategy, its queue and its sources : the exchanges, the registry, the
account, the log, the guard and the market data. What happens to this ledger is a sequence of
entries (`Entry`) : operations on one exchange, booked fills, funding, market data, and orders
put before the risk guard.

A handler first posts entries about the symbol of its event, and then lets the strategy speak; the
commands of the strategy are put before the guard as the first part left it (`Ledger.Turned`). What
is claimed of positions, of PnL, of the kill switch or of depth modes over whole runs is proved
of the entries, and `turned_turn` carries it over to the engine.
-/

open Run StableSort Std

set_option linter.unusedSectionVars false

namespace Backtester

/-- The reason the guard gives once it is killed. -/
def killReason : String := "risk: kill_switch active"

/-- An effect that only a command has. -/
def Effect.isCommanded : Effect → Bool
  | .accepted _ | .refused _ _ => true
  | .scheduled _ (.order _) | .scheduled _ (.orderCancel _) => true
  | .scheduled _ (.orderReport r) => r.reason = some killReason
  | _ => false

/-- What the exchanges, the account, the guard and the log hold between two entries. -/
structure Ledger (Q : Type) [QueueModel Q] where
  queueModel : Q
  exchanges : ExtTreeMap ℕ (ExchangeSimulator Q)
  orderSymbolById : ExtTreeMap ℕ ℕ
  nextOrderId : ℕ
  account : Account
  tradeLog : TradeLog
  market : MarketView
  truthLastTradeBySymbol : ExtTreeMap ℕ Tick
  l2DepthSymbols : Finset ℕ
  l3DepthSymbols : Finset ℕ
  riskGuard : RiskGuard

/-- One thing that a handler does to the ledger. -/
inductive Entry where
  | exchangeMut (symbolId : ℕ)
  | perform (symbolId : ℕ) (op : ExchangeOp)
  /-- Fills of one trade or one market order, with their orders : first logged, then settled. -/
  | book (symbolId : ℕ) (ts : ℤ) (fills : List (Order × TradeFill))
  | fund (event : FundingEvent)
  | observeTrade (tick : Tick)
  | observeDelivery (tick : Tick)
  | markL2Depth (symbolId : ℕ)
  | markL3Depth (symbolId : ℕ)
  | unregister (orderId : ℕ)
  /-- An order of the strategy, put before the risk guard. -/
  | submit (tsLocal : ℤ) (order : Order)
  deriving DecidableEq, Repr

/-- The fills an entry logs. -/
def Entry.fills : Entry → List TradeFill
  | book _ _ fills => fills.map Prod.snd
  | _ => []

/-- The time under which an entry logs PnL. -/
def Entry.time : Entry → Option ℤ
  | book _ ts _ => some ts
  | fund event => some event.tsExchange
  | _ => none

/-- The fill belongs to its order, and was made at `ts` on the exchange of `symbolId`. -/
structure IsFill (symbolId : ℕ) (ts : ℤ) (f : Order × TradeFill) : Prop where
  order : f.1.symbolId = symbolId
  symbol : f.2.symbolId = symbolId
  side : f.2.side = f.1.side
  pos : 0 < f.2.qty
  time : f.2.tsExchange = ts

/-- An entry that an event of kind `kind`, worked on at `t`, may post when its order or its data are
of symbol `symbol`. -/
def Entry.Suits (kind : EventKind) (t : ℤ) (symbol : Option ℕ) : Entry → Prop
  | exchangeMut s => symbol = some s
  | perform s op => symbol = some s ∧ ∀ order, op = .submitOrder order → order.symbolId = s
  | book s ts fills => symbol = some s ∧ ts = t ∧ ∀ f ∈ fills, IsFill s ts f
  | fund event => kind = .funding event
  | observeTrade tick => kind = .tick tick
  | observeDelivery tick => kind = .tickDelivery tick
  | markL2Depth s => ∃ update, kind = .l2Update update ∧ update.symbolId = s
  | markL3Depth s => ∃ update, kind = .l3Update update ∧ update.symbolId = s
  | unregister _ => True
  | submit _ _ => False

/-- The symbol an event is about. The events of an order have its id only. -/
def EventKind.symbolIn (registry : ExtTreeMap ℕ ℕ) : EventKind → Option ℕ
  | tick t | tickDelivery t => some t.symbolId
  | l2Update update => some update.symbolId
  | l3Update update => some update.symbolId
  | order o => some o.symbolId
  | orderAck n | orderCancel n | orderCancelAck n => registry[n]?
  | orderReport r => registry[r.orderId]?
  | funding event => some event.symbolId
  | timer _ => none

/-! ## Posting -/

namespace Ledger

variable {Q : Type} [QueueModel Q]

/-- The exchange of a symbol, a new one if there is none yet. -/
def exchange (L : Ledger Q) (symbolId : ℕ) : ExchangeSimulator Q :=
  L.exchanges[symbolId]?.getD
    (if symbolId ∈ L.l3DepthSymbols then .newL3 L.queueModel else .new L.queueModel)

/-- Stores the exchange of a symbol. -/
def putExchange (L : Ledger Q) (symbolId : ℕ) (ex : ExchangeSimulator Q) : Ledger Q :=
  { L with exchanges := L.exchanges.insert symbolId ex }

/-- The fill goes to the log. -/
def logFill (L : Ledger Q) (f : Order × TradeFill) : Ledger Q :=
  { L with tradeLog := L.tradeLog.pushFill f.2 }

/-- The PnL of a fill, net of its fee. -/
def netPnl (account : Account) (f : Order × TradeFill) : ℤ :=
  satSubI64 (account.onFill f.1 f.2.qty f.2.price).2 f.2.fee

/-- The account takes a fill, and what it realises, less the fee, goes to the log and to the
guard. -/
def settle (ts : ℤ) (L : Ledger Q) (f : Order × TradeFill) : Ledger Q :=
  { L with
    account := (L.account.onFill f.1 f.2.qty f.2.price).1
    tradeLog := L.tradeLog.pushPnlDelta ts (netPnl L.account f)
    riskGuard := L.riskGuard.updatePnl (netPnl L.account f) }

/-- The price at which funding is paid, if there is one. -/
def fundingPrice (L : Ledger Q) (symbolId : ℕ) : Option ℤ :=
  (L.truthLastTradeBySymbol[symbolId]?.map (·.price)).or
    (L.exchanges[symbolId]?.bind (·.markPrice))

/-- The account takes the funding, which goes to the log and to the guard. -/
def fund (L : Ledger Q) (event : FundingEvent) (markPrice : ℤ) : Ledger Q :=
  { L with
    account := (L.account.applyFunding event markPrice).1
    tradeLog := L.tradeLog.pushPnlEvent
      ⟨event.tsExchange, (L.account.applyFunding event markPrice).2⟩
    riskGuard := L.riskGuard.updatePnl (L.account.applyFunding event markPrice).2 }

/-- The order as the engine numbers it. -/
def numbered (L : Ledger Q) (tsLocal : ℤ) (order : Order) : Order :=
  { order with tsSubmit := tsLocal, orderId := L.nextOrderId }

/-- What the risk guard says about an order. -/
def verdict (L : Ledger Q) (order : Order) : Option String :=
  L.riskGuard.checkOrder order L.orderSymbolById.size (L.account.positionQty order.symbolId)

/-- What an entry does to the ledger. -/
def post (L : Ledger Q) : Entry → Ledger Q
  | .exchangeMut s => L.putExchange s (L.exchange s)
  | .perform s op => L.putExchange s ((L.exchange s).perform op).1
  | .book _ ts fills => fills.foldl (settle ts) (fills.foldl logFill L)
  | .fund event =>
    match L.fundingPrice event.symbolId with
    | none => L
    | some markPrice => L.fund event markPrice
  | .observeTrade tick =>
    { L with truthLastTradeBySymbol := L.truthLastTradeBySymbol.insert tick.symbolId tick }
  | .observeDelivery tick => { L with market := L.market.onTickDelivery tick }
  | .markL2Depth s => { L with l2DepthSymbols := insert s L.l2DepthSymbols }
  | .markL3Depth s => { L with l3DepthSymbols := insert s L.l3DepthSymbols }
  | .unregister orderId => { L with orderSymbolById := L.orderSymbolById.erase orderId }
  | .submit tsLocal order =>
    { L with
      nextOrderId := L.nextOrderId + 1
      orderSymbolById :=
        match L.verdict (L.numbered tsLocal order) with
        | none => L.orderSymbolById.insert L.nextOrderId order.symbolId
        | some _ => L.orderSymbolById }

/-- The ledger of a new engine. -/
def new (queueModel : Q) (config : EngineConfig) : Ledger Q where
  queueModel := queueModel
  exchanges := ∅
  orderSymbolById := ∅
  nextOrderId := 1
  account := {}
  tradeLog := .new config.tradeLogMode
  market := {}
  truthLastTradeBySymbol := ∅
  l2DepthSymbols := ∅
  l3DepthSymbols := ∅
  riskGuard := ⟨config.maxOpenOrders, config.maxPosition, config.maxLoss, false, 0⟩

/-- Every stored order is under its id, at the exchange of its symbol. -/
def Filed (L : Ledger Q) : Prop :=
  ∀ s n order, (L.exchange s).getOrder n = some order → order.orderId = n ∧ order.symbolId = s

/-- Entries that satisfy `P` lead from `L` to `L'`, with effects that are no commands. -/
structure Posted (P : Entry → Prop) (L : Ledger Q) (new : List Effect) (L' : Ledger Q) : Prop where
  entries : ∃ entries : List Entry, (∀ entry ∈ entries, P entry) ∧ L' = entries.foldl post L
  effects : ∀ x ∈ new, x.isCommanded = false

/-- The strategy speaks : its commands lead from `L` to `L'`, with the effects `new`. -/
inductive Commanded (L : Ledger Q) : List Effect → Ledger Q → Prop
  | start : Commanded L [] L
  | effect {new : List Effect} {L' : Ledger Q} {x : Effect} :
      Commanded L new L' → x.isCommanded = false → Commanded L (new ++ [x]) L'
  | cancel {new : List Effect} {L' : Ledger Q} (ts : ℤ) (orderId : ℕ) :
      Commanded L new L' → Commanded L (new ++ [.scheduled ts (.orderCancel orderId)]) L'
  | accept {new : List Effect} {L' : Ledger Q} (tsLocal : ℤ) (order : Order) :
      Commanded L new L' → L'.verdict (L'.numbered tsLocal order) = none →
      Commanded L (new ++ [.accepted (L'.numbered tsLocal order),
        .scheduled tsLocal (.order (L'.numbered tsLocal order))]) (L'.post (.submit tsLocal order))
  | refuse {new : List Effect} {L' : Ledger Q} (tsLocal : ℤ) (order : Order) {reason : String}
      (delay pushed : ℤ) :
      Commanded L new L' → L'.verdict (L'.numbered tsLocal order) = some reason →
      Commanded L (new ++ .refused (L'.numbered tsLocal order) reason ::
        Core.pushEffects tsLocal delay pushed (.orderReport
          ((L'.numbered tsLocal order).report .rejected 0 0 0 order.qty (some reason))))
        (L'.post (.submit tsLocal order))

/-- Entries that satisfy `P`, and then the commands of the strategy. -/
def Turned (P : Entry → Prop) (L : Ledger Q) (new : List Effect) (L' : Ledger Q) : Prop :=
  ∃ L₁ before after, new = before ++ after ∧ Posted P L before L₁ ∧ Commanded L₁ after L'

variable {P : Entry → Prop} {L L' L'' : Ledger Q} {new new' : List Effect}

namespace Posted

theorem refl (L : Ledger Q) : Posted P L [] L := ⟨⟨[], by simp, rfl⟩, by simp⟩

theorem trans (h : Posted P L new L') (h' : Posted P L' new' L'') :
    Posted P L (new ++ new') L'' := by
  obtain ⟨entries, hentries, rfl⟩ := h.entries
  obtain ⟨entries', hentries', rfl⟩ := h'.entries
  refine ⟨⟨entries ++ entries', fun entry hmem => ?_, by rw [List.foldl_append]⟩, fun x hx => ?_⟩
  · exact (List.mem_append.1 hmem).elim (hentries entry) (hentries' entry)
  · exact (List.mem_append.1 hx).elim (h.effects x) (h'.effects x)

theorem entry (h : Posted P L new L') {entry : Entry} (hP : P entry) :
    Posted P L new (L'.post entry) := by
  have hpost : Posted P L' [] (L'.post entry) := ⟨⟨[entry], by simpa using hP, rfl⟩, by simp⟩
  simpa using h.trans hpost

theorem append (h : Posted P L new L') (hnew : ∀ x ∈ new', x.isCommanded = false) :
    Posted P L (new ++ new') L' :=
  h.trans ⟨⟨[], by simp, rfl⟩, hnew⟩

end Posted

namespace Commanded

theorem trans (h : Commanded L new L') (h' : Commanded L' new' L'') :
    Commanded L (new ++ new') L'' := by
  induction h' with
  | start => simpa using h
  | effect _ hx ih => exact List.append_assoc _ _ _ ▸ ih.effect hx
  | cancel ts orderId _ ih => exact List.append_assoc _ _ _ ▸ ih.cancel ts orderId
  | accept ts order _ hverdict ih =>
    exact List.append_assoc _ _ _ ▸ ih.accept ts order hverdict
  | refuse ts order delay pushed _ hverdict ih =>
    exact List.append_assoc _ _ _ ▸ ih.refuse ts order delay pushed hverdict

theorem append (h : Commanded L new L') (hnew : ∀ x ∈ new', x.isCommanded = false) :
    Commanded L (new ++ new') L' := by
  induction new' using List.reverseRecOn with
  | nil => simpa using h
  | append_singleton new' x ih =>
    rw [← List.append_assoc]
    exact (ih fun y hy => hnew y (by simp [hy])).effect (hnew x (by simp))

/-- The commands as entries. -/
theorem entries (h : Commanded L new L') : ∃ entries : List Entry,
    (∀ entry ∈ entries, ∃ ts order, entry = .submit ts order) ∧ L' = entries.foldl post L := by
  induction h with
  | start => exact ⟨[], by simp, rfl⟩
  | effect _ _ ih => exact ih
  | cancel _ _ _ ih => exact ih
  | accept ts order _ _ ih =>
    obtain ⟨entries, hentries, rfl⟩ := ih
    refine ⟨entries ++ [.submit ts order], fun entry hmem => ?_, by simp⟩
    rcases List.mem_append.1 hmem with hmem | hmem
    · exact hentries entry hmem
    · exact ⟨ts, order, List.mem_singleton.1 hmem⟩
  | refuse ts order _ _ _ _ ih =>
    obtain ⟨entries, hentries, rfl⟩ := ih
    refine ⟨entries ++ [.submit ts order], fun entry hmem => ?_, by simp⟩
    rcases List.mem_append.1 hmem with hmem | hmem
    · exact hentries entry hmem
    · exact ⟨ts, order, List.mem_singleton.1 hmem⟩

end Commanded

theorem Posted.turned (h : Posted P L new L') : Turned P L new L' :=
  ⟨L', new, [], (List.append_nil _).symm, h, .start⟩

theorem Commanded.turned (h : Commanded L new L') : Turned P L new L' :=
  ⟨L, [], new, rfl, .refl L, h⟩

theorem Turned.trans (h : Turned P L new L') (h' : Commanded L' new' L'') :
    Turned P L (new ++ new') L'' := by
  obtain ⟨L₁, before, after, rfl, hposted, hcommanded⟩ := h
  exact ⟨L₁, before, after ++ new', List.append_assoc _ _ _, hposted, hcommanded.trans h'⟩

end Ledger

end Backtester
