import Backtester.FillOrigin
import Backtester.Library.Replay

/-!
# The books are kept from the trace

The account, the risk guard and the trade log are a function of what happened : of the fills in
their order and of the funding events that were popped, paid at the mark price of what had arrived
at the venue by then. `enter` says what one entry of the trace does to a `Statement` of the three,
and the engine is shown to keep the statement that its trace replays to (`statement_replays_trace`).
-/

open History Run Replay Std

set_option linter.unusedSectionVars false

namespace Backtester

/-! ## Statements -/

/-- What was booked so far. -/
structure Statement where
  account : Account
  guard : RiskGuard
  log : TradeLog

namespace Statement

/-- The statement before anything has happened. -/
def opening (config : EngineConfig) : Statement :=
  ⟨{}, ⟨config.maxOpenOrders, config.maxPosition, config.maxLoss, false, 0⟩,
    .new config.tradeLogMode⟩

/-- A fill is logged. -/
def logFill (b : Statement) (p : Order × TradeFill) : Statement :=
  { b with log := b.log.pushFill p.2 }

/-- The PnL of a fill net of its fee goes to the account, the log and the guard. -/
def settle (b : Statement) (p : Order × TradeFill) : Statement :=
  let (account, pnl) := b.account.onFill p.1 p.2.qty p.2.price
  let netPnl := satSubI64 pnl p.2.fee
  ⟨account, b.guard.updatePnl netPnl, b.log.pushPnlDelta p.2.tsExchange netPnl⟩

/-- A fill is logged and settled. -/
def book (b : Statement) (p : Order × TradeFill) : Statement := (b.logFill p).settle p

/-- Funding is settled at a mark price. -/
def fund (b : Statement) (event : FundingEvent) (markPrice : ℤ) : Statement :=
  let (account, pnl) := b.account.applyFunding event markPrice
  ⟨account, b.guard.updatePnl pnl, b.log.pushPnlEvent ⟨event.tsExchange, pnl⟩⟩

end Statement

/-- Halfway between the best bid and the best ask, or the one that is there. -/
def midPrice : Option (ℤ × ℤ) → Option (ℤ × ℤ) → Option ℤ
  | some (bid, _), some (ask, _) => some ((satAddI64 bid ask).tdiv 2)
  | some (bid, _), none => some bid
  | none, some (ask, _) => some ask
  | none, none => none

/-- The mark price of a venue after these arrivals : the price of the last trade, else the mid price
of its book. -/
def markAfter (kinds : List EventKind) : Option ℤ :=
  let l2 : OrderBookL2 := .follow (l2UpdatesIn kinds)
  let l3 : OrderBookL3 := .follow (l3UpdatesIn kinds)
  ((tradesIn kinds).getLast?.map (·.price)).or
    (if l3UpdatesIn kinds = [] then midPrice l2.bestBid l2.bestAsk else midPrice l3.bestBid
      l3.bestAsk)

/-- The payment of a funding event, if there is a mark price. -/
def Statement.pay (pre : List Effect) (b : Statement) : EventKind → Statement
  | .funding event => (markAfter (arrivalsAt event.symbolId pre)).elim b (b.fund event)
  | _ => b

/-- What one entry of the trace does to the statement. -/
def enter (pre : List Effect) (b : Statement) : Effect → Statement
  | .filled f => ((acceptedIn pre).find? (·.orderId = f.orderId)).elim b fun o => b.book (o, f)
  | .popped event _ => b.pay pre event.kind
  | _ => b

/-- The statement of a trace. -/
def statementOf (config : EngineConfig) (l : List Effect) : Statement :=
  replay enter [] (.opening config) l

namespace IncrementalStats

/-- The statistics that PnL entries keep, beside those that fills keep. -/
def beside (stats fills : IncrementalStats) : IncrementalStats :=
  { stats with
    totalTrades := fills.totalTrades
    totalFeesPaid := fills.totalFeesPaid
    totalHoldingPeriod := fills.totalHoldingPeriod
    closedTrades := fills.closedTrades
    posState := fills.posState }

/-- A fill is counted beside the profits. -/
theorem onFill_beside (stats fills : IncrementalStats) (fill : TradeFill) :
    (stats.beside fills).onFill fill = stats.beside (fills.onFill fill) := by
  unfold onFill
  dsimp only [beside]
  split_ifs <;> rfl

/-- A profit is counted beside the fills. -/
theorem onPnl_beside (stats fills : IncrementalStats) (ts pnl : ℤ) (isTrade : Bool) :
    (stats.beside fills).onPnl ts pnl isTrade = (stats.onPnl ts pnl isTrade).beside fills := by
  have htrack : ∀ stats : IncrementalStats,
      (stats.beside fills).trackEquity ts = (stats.trackEquity ts).beside fills := by
    intro stats
    have hite : ∀ (p : Prop) [Decidable p] (a b : IncrementalStats),
        (if p then a else b).beside fills = if p then a.beside fills else b.beside fills :=
      fun p _ a b => apply_ite (beside · fills) p a b
    unfold trackEquity
    rw [hite, hite, hite]
    rfl
  unfold onPnl
  dsimp only
  rw [← htrack]
  dsimp only [beside]
  split_ifs <;> rfl

end IncrementalStats

/-- What a fill changes in the log, a PnL entry does not. -/
theorem TradeLog.pushFill_pushPnl (log : TradeLog) (ts pnl : ℤ) (isTrade : Bool)
    (fill : TradeFill) :
    (log.pushPnl ts pnl isTrade).pushFill fill = (log.pushFill fill).pushPnl ts pnl isTrade := by
  have hstats : ∀ stats : IncrementalStats,
      (stats.onPnl ts pnl isTrade).onFill fill = (stats.onFill fill).onPnl ts pnl isTrade :=
        fun stats =>
    ((congrArg (·.onFill fill) (stats.onPnl_beside stats ts pnl isTrade)).trans
      (IncrementalStats.onFill_beside ..)).trans
      ((congrArg (·.onPnl ts pnl isTrade) (stats.onFill_beside stats fill)).trans
        (IncrementalStats.onPnl_beside ..)).symm
  unfold pushPnl
  cases hmode : log.mode with
  | none => simp [pushFill, hmode]
  | _ => simp [pushFill, hmode, hstats]

/-- Logging one fill and settling another commute. -/
theorem Statement.logFill_settle (b : Statement) (p p' : Order × TradeFill) :
    (b.settle p).logFill p' = (b.logFill p').settle p :=
  congrArg (Statement.mk _ _) (TradeLog.pushFill_pushPnl ..)

variable {Q S L R : Type} [QueueModel Q] {c c' c'' : Core Q S L R} {P : Order → TradeFill → Prop}

namespace Core

/-- The account, the guard and the log of a core. -/
def statement (c : Core Q S L R) : Statement := ⟨c.account, c.riskGuard, c.tradeLog⟩

/-- Between `c` and `c'` fills are booked that satisfy `P`, and nothing else. -/
def Keeps (P : Order → TradeFill → Prop) (c c' : Core Q S L R) : Prop :=
  ∃ (new : List Effect) (pairs : List (Order × TradeFill)), c'.effects = c.effects ++ new ∧
    filledIn new = pairs.map Prod.snd ∧
    (∀ p ∈ pairs, P p.1 p.2) ∧ c'.statement = pairs.foldl Statement.book c.statement

namespace Keeps

/-- A handler without effects keeps the statement. -/
theorem of_eq (heffects : c'.effects = c.effects) (hsame : c'.statement = c.statement) :
    Keeps P c c' :=
  ⟨[], [], by simp [heffects], rfl, by simp, hsame⟩

/-- Two steps that keep the statement. -/
theorem trans (h : Keeps P c c') (h' : Keeps P c' c'') : Keeps P c c'' := by
  obtain ⟨new, pairs, heq, hfilled, hP, hbooked⟩ := h
  obtain ⟨new', pairs', heq', hfilled', hP', hbooked'⟩ := h'
  refine ⟨new ++ new', pairs ++ pairs', by rw [heq', heq, List.append_assoc], ?_,
    fun p hp => ?_, ?_⟩
  · rw [filledIn_append, hfilled, hfilled', List.map_append]
  · exact (List.mem_append.1 hp).elim (hP p) (hP' p)
  · rw [hbooked', hbooked, List.foldl_append]

/-- Work that fills nothing. -/
theorem of_steady (h : Steady c c') (hsame : c'.statement = c.statement) : Keeps P c c' := by
  obtain ⟨new, heq, hnew⟩ := h.effects
  exact ⟨new, [], heq, filledIn_eq_nil fun x hx => (hnew x hx).1, by simp, hsame⟩

end Keeps

/-- A command books nothing. -/
theorem statement_of_commanded {new : List Effect} (h : Ledger.Commanded c.ledger new c'.ledger) :
    c'.statement = c.statement := by
  obtain ⟨entries, hentries, heq⟩ := h.entries
  let view (T : Ledger Q) : Statement := ⟨T.account, T.riskGuard, T.tradeLog⟩
  have hview : view (entries.foldl Ledger.post c.ledger) = view c.ledger := by
    refine List.foldlRecOn entries Ledger.post (motive := fun T => view T = view c.ledger) rfl
      fun T hT entry hmem => ?_
    obtain ⟨ts, order, rfl⟩ := hentries entry hmem
    exact hT
  exact (congrArg view heq).trans hview

/-- What the strategy says books nothing. -/
theorem statement_of_speaks (h : Speaks c c') : c'.statement = c.statement := by
  obtain ⟨new, -, hcommanded⟩ := h
  exact statement_of_commanded hcommanded

/-- A push with a saturating sum books nothing. -/
theorem statement_pushAfterSat (ts delay : ℤ) (kind : EventKind) :
    (c.pushAfterSat ts delay kind).statement = c.statement := by
  rw [pushAfterSat_eq]
  rfl

/-- A push books nothing. -/
theorem statement_pushAfter (ts delay : ℤ) (kind : EventKind) :
    (c.pushAfter ts delay kind).statement = c.statement := by
  rw [pushAfter_eq]
  rfl

/-! ### Handlers -/

variable [Strategy S]

/-- The delivery of a tick books nothing. -/
theorem statement_onTickDelivery (tick : Tick) :
    (c.onTickDelivery tick).1.statement = c.statement := by
  unfold onTickDelivery
  dsimp only
  split
  · have hwake := statement_of_speaks
      (speaks_wake (c.observeDelivery tick) (.onTick tick) tick.tsLocal false)
    exact hwake
  · split_ifs
    · exact statement_pushAfter ..
    · rfl

/-- A level update books nothing. -/
theorem statement_onL2Update (update : L2Update) :
    (c.onL2Update update).1.statement = c.statement := by
  unfold onL2Update
  split_ifs <;> rfl

/-- An order update books nothing. -/
theorem statement_onL3Update (update : L3Update) :
    (c.onL3Update update).1.statement = c.statement := by
  unfold onL3Update
  split_ifs
  · rfl
  · dsimp only
    split <;> rfl

/-- A cancel that arrives books nothing. -/
theorem statement_onOrderCancel [LatencyModel L R] (n : ℕ) :
    (c.onOrderCancel n).1.statement = c.statement := by
  unfold onOrderCancel
  split
  · rfl
  · dsimp only
    split
    · rfl
    · exact statement_pushAfterSat ..

/-- The answer to a cancel books nothing. -/
theorem statement_onOrderCancelAck (n : ℕ) : (c.onOrderCancelAck n).1.statement = c.statement := by
  unfold onOrderCancelAck
  split
  · rfl
  · dsimp only
    split
    · rfl
    · exact statement_pushAfter ..

/-- A report books nothing. -/
theorem statement_onOrderReport (report : OrderReport) :
    (c.onOrderReport report).1.statement = c.statement := by
  have hforget : (c.forget report).statement = c.statement := by
    unfold forget
    split_ifs
    · split <;> rfl
    · rfl
  unfold onOrderReport
  dsimp only
  split
  · exact (statement_of_speaks (speaks_wake (c.forget report) _ _ _)).trans hforget
  · exact hforget

/-- A timer books nothing. -/
theorem statement_onTimer (timerId : ℕ) : (c.onTimer timerId).1.statement = c.statement := by
  unfold onTimer
  split_ifs <;> rfl

/-- Cancelling the rest of a market order books nothing. -/
theorem statement_cancelRest (n s : ℕ) : (c.cancelRest n s).statement = c.statement := by
  unfold cancelRest
  split
  · rfl
  · exact statement_pushAfterSat ..

/-- A trade is booked fill by fill, although the log takes all its fills first. -/
theorem keeps_onTickEvent (trade : Tick) :
    Keeps (fun o f => ((c.exchange trade.symbolId).getOrder f.orderId = some o)) c
      (c.onTickEvent trade).1 := by
  have horder : ∀ n, ((c.exchange trade.symbolId).onTrade trade).1.getOrder n =
      (c.exchange trade.symbolId).getOrder n := ExchangeSimulator.getOrder_onTrade trade
  unfold onTickEvent
  dsimp only
  have hsame : (c.observeTrade trade).exchange trade.symbolId = c.exchange trade.symbolId := rfl
  rw [hsame]
  generalize ((c.exchange trade.symbolId).onTrade trade).1 = ex at horder ⊢
  generalize ((c.exchange trade.symbolId).onTrade trade).2 = rs
  let c₁ := (c.observeTrade trade).putExchange trade.symbolId ex
  let pairs := makerFills ex trade.tsExchange c₁.config.makerFeeBps rs
  obtain ⟨-, -, -, heffects⟩ := bookTrade_cases c₁ trade ex rs
  refine ⟨_, pairs, heffects.trans (List.append_assoc _ _ _), ?_, fun p hp => ?_, ?_⟩
  · rw [filledIn_append, filledIn_fills, filledIn_eq_nil (l := List.flatMap _ _), List.append_nil]
    intro x hx
    obtain ⟨r, -, hx⟩ := List.mem_flatMap.1 hx
    exact (Steady.pushEffects _ _ _ _ 0 (fun _ => 0) x hx).1
  · obtain ⟨r, -, hsome⟩ := List.mem_filterMap.1 hp
    split_ifs at hsome
    obtain ⟨order, hget, rfl⟩ := Option.map_eq_some_iff.1 hsome
    exact (horder _).symm.trans hget
  · have hledger := ledger_bookTrade c₁ trade ex rs trade.symbolId
    let view (T : Ledger Q) : Statement := ⟨T.account, T.riskGuard, T.tradeLog⟩
    have htime : ∀ p ∈ pairs, p.2.tsExchange = trade.tsExchange := by
      intro p hp
      obtain ⟨r, -, hsome⟩ := List.mem_filterMap.1 hp
      split_ifs at hsome
      obtain ⟨order, -, rfl⟩ := Option.map_eq_some_iff.1 hsome
      rfl
    have hlog : ∀ (l : List (Order × TradeFill)) (T : Ledger Q),
        view (l.foldl Ledger.logFill T) = l.foldl Statement.logFill (view T) := fun l T =>
      (List.foldl_hom view fun _ _ => rfl).symm
    have hsettle : ∀ (l : List (Order × TradeFill)), (∀ p ∈ l, p.2.tsExchange = trade.tsExchange) →
        ∀ T : Ledger Q, view (l.foldl (Ledger.settle trade.tsExchange) T) =
          l.foldl Statement.settle (view T) := by
      intro l
      induction l with
      | nil => exact fun _ _ => rfl
      | cons p l ih =>
        intro h T
        refine (ih (fun p' hp' => h p' (List.mem_cons_of_mem _ hp')) _).trans ?_
        rw [← h p List.mem_cons_self]
        rfl
    calc (c₁.bookTrade trade ex rs).statement
        = view (pairs.foldl (Ledger.settle trade.tsExchange)
          (pairs.foldl Ledger.logFill c₁.ledger)) :=
          congrArg view hledger
      _ = pairs.foldl Statement.settle (pairs.foldl Statement.logFill c.statement) := by
          rw [hsettle pairs htime, hlog]
          rfl
      _ = pairs.foldl Statement.book c.statement := foldl_foldl Statement.logFill_settle pairs _

/-- A market order books its fill. -/
theorem keeps_fillMarket {n s : ℕ} {o : LiveOrder (QueueModel.State Q)}
    (ho : (c.exchange s).orders[n]? = some o)
    (hP : ∀ f : TradeFill, f.orderId = o.order.orderId → P o.order f) :
    Keeps P c (c.fillMarket n s) := by
  have hget : (c.exchange s).getOrder n = some o.order := by
    rw [ExchangeSimulator.getOrder, ho]
    rfl
  unfold fillMarket
  dsimp only
  split
  · exact .of_eq rfl rfl
  · next report ex heq =>
    have hid : report.orderId = o.order.orderId := by
      simp only [ExchangeSimulator.fillMarketImmediately, ho, Option.map_some,
        Option.some.injEq] at heq
      split at heq <;> obtain rfl := (Prod.mk.inj heq).1 <;> rfl
    have hreport : Keeps P c ((c.putExchange s ex).reportMarket (some o.order) report) := by
      refine .trans ?_ (.of_steady ((Steady.refl _).pushAfterSat _ _ _) (statement_pushAfterSat ..))
      unfold bookTakerFill
      dsimp only
      split_ifs
      · let f := tradeFill c.nowTsSim true c.config.takerFeeBps o.order report
        refine ⟨[.filled f], [(o.order, f)], rfl, rfl, fun p hp => ?_, rfl⟩
        obtain rfl := List.mem_singleton.1 hp
        exact hP f hid
      · exact .of_eq rfl rfl
    rw [hget]
    split_ifs
    · exact hreport.trans (.of_steady (steady_cancelRest _ n s) (statement_cancelRest ..))
    · exact hreport

/-- An acknowledgement books the fill of a market order, and nothing else. -/
theorem keeps_onOrderAck (hkeyed : ∀ s, (c.exchange s).Keyed) (n : ℕ) :
    Keeps (fun o f => ∃ s, (c.exchange s).getOrder f.orderId = some o) c (c.onOrderAck n).1 := by
  unfold onOrderAck
  split
  · exact .of_eq rfl rfl
  · next s _ =>
    have hsame : (c.exchangeMut s).exchange s = c.exchange s := exchange_exchangeMut c s
    have hmut : ∀ P, Keeps P c (c.exchangeMut s) := fun P => .of_eq rfl rfl
    dsimp only
    split
    · next htype =>
      obtain ⟨order, hget, -⟩ := Option.map_eq_some_iff.1 htype
      obtain ⟨o, ho, rfl⟩ := Option.map_eq_some_iff.1 hget
      refine (hmut _).trans (keeps_fillMarket ho fun f hf => ⟨s, ?_⟩)
      rw [hsame] at ho
      rw [hf, hkeyed s n o ho, ExchangeSimulator.getOrder, ho]
      rfl
    · split
      · exact hmut _
      · next report ex heq =>
        have hput : Keeps (fun o f => ∃ s, (c.exchange s).getOrder f.orderId = some o) c
            ((c.exchangeMut s).putExchange s ex) := .of_eq rfl rfl
        exact hput.trans (.of_steady ((Steady.refl _).pushAfterSat _ _ _)
          (statement_pushAfterSat ..))

/-- The funding an event brings is paid before anything else is done about it. -/
def funded (c : Core Q S L R) : EventKind → Core Q S L R
  | .funding event => c.applyFunding event
  | _ => c

/-- A handler books the fills on the trace, and the funding payment of its event. -/
theorem keeps_handle [LatencyModel L R] (hkeyed : ∀ s, (c.exchange s).Keyed) (kind : EventKind) :
    Keeps (fun o f => ∃ s, (c.exchange s).getOrder f.orderId = some o) (c.funded kind)
      (c.handle kind).1 := by
  cases kind with
  | tick trade =>
    obtain ⟨new, pairs, heffects, hfilled, hP, hbooked⟩ := keeps_onTickEvent (c := c) trade
    exact ⟨new, pairs, heffects, hfilled, fun p hp => ⟨_, hP p hp⟩, hbooked⟩
  | tickDelivery tick =>
    exact .of_steady (steady_onTickDelivery c tick) (statement_onTickDelivery tick)
  | l2Update update => exact .of_steady (steady_onL2Update c update) (statement_onL2Update update)
  | l3Update update => exact .of_steady (steady_onL3Update c update) (statement_onL3Update update)
  | order order =>
    have hput : Keeps (fun o f => ∃ s, (c.exchange s).getOrder f.orderId = some o) c
        (c.putExchange order.symbolId ((c.exchange order.symbolId).submitOrder order)) :=
          .of_eq rfl rfl
    refine hput.trans (.of_steady (Steady.pushAfterSat ?_ _ _ _) (statement_pushAfterSat ..))
    exact (steady_sampleOrderLatency _).append [.orderLatency order.orderId _] rfl rfl rfl rfl
      (by simp [Effect.fill, Effect.Vetted])
  | orderAck n => exact keeps_onOrderAck hkeyed n
  | orderCancel n => exact .of_steady (steady_onOrderCancel c n) (statement_onOrderCancel n)
  | orderCancelAck n =>
    exact .of_steady (steady_onOrderCancelAck c n) (statement_onOrderCancelAck n)
  | orderReport report =>
    exact .of_steady (steady_onOrderReport c report) (statement_onOrderReport report)
  | funding event =>
    exact .of_steady ((Steady.refl _).wake _ _ _)
      (statement_of_speaks (speaks_wake (c.applyFunding event) _ _ _))
  | timer timerId => exact .of_steady (steady_onTimer c timerId) (statement_onTimer timerId)

end Core

/-! ## Mark prices -/

theorem ExchangeSimulator.isL3_session (ex : ExchangeSimulator Q) (ops : List ExchangeOp) :
    (ex.session ops).1.bookL3.isSome = ex.bookL3.isSome := by
  induction ops using List.reverseRecOn with
  | nil => rfl
  | append_singleton ops op ih => rw [session_snoc, ← ih]; exact isL3_perform _ op

theorem l2UpdatesIn_append (kinds kinds' : List EventKind) :
    l2UpdatesIn (kinds ++ kinds') = l2UpdatesIn kinds ++ l2UpdatesIn kinds' :=
  List.filterMap_append

theorem ExchangeSimulator.markPrice_of_none {ex : ExchangeSimulator Q} (h : ex.bookL3 = none) :
    ex.markPrice = midPrice ex.book.bestBid ex.book.bestAsk := by
  cases ex
  dsimp only at h
  subst h
  rfl

theorem ExchangeSimulator.markPrice_of_some {ex : ExchangeSimulator Q} {book : OrderBookL3}
    (h : ex.bookL3 = some book) : ex.markPrice = midPrice book.bestBid book.bestAsk := by
  cases ex
  dsimp only at h
  subst h
  rfl

/-- The books of a venue that replays its arrivals give the mark price. -/
theorem ExchangeSimulator.markPrice_eq {ex : ExchangeSimulator Q} {kinds : List EventKind}
    (hbook : ex.book = .follow (l2UpdatesIn kinds))
    (hnone : ex.bookL3 = none → l3UpdatesIn kinds = [])
    (hsome : ∀ book, ex.bookL3 = some book → book = .follow (l3UpdatesIn kinds))
    (hunmixed : ex.bookL3.isSome → l2UpdatesIn kinds = []) (last : Option ℤ)
    (hlast : last = (tradesIn kinds).getLast?.map (·.price)) :
    last.or ex.markPrice = markAfter kinds := by
  rw [hlast, markAfter]
  refine congrArg (Option.or _) ?_
  cases hbookL3 : ex.bookL3 with
  | none =>
    rw [if_pos (hnone hbookL3), ← hbook]
    exact markPrice_of_none hbookL3
  | some book =>
    rw [markPrice_of_some hbookL3, hsome book hbookL3]
    split_ifs with hl3
    · rw [hl3, hunmixed (by rw [hbookL3]; rfl), OrderBookL2.best_nil.1, OrderBookL2.best_nil.2]
      rw [OrderBookL3.best_nil.1, OrderBookL3.best_nil.2]
    · rfl

namespace Engine

variable {T U S L R : Type} [Strategy S] [LatencyModel L R] {e e' e₀ : Engine T U Q S L R} {s : ℕ}

/-- A venue with an L3 book has its mark, and no L2 updates are among its arrivals. -/
def Unmixed (s : ℕ) (e : Engine T U Q S L R) (kinds : List EventKind) : Prop :=
  ∀ ex, e.core.exchanges[s]? = some ex → ex.bookL3.isSome →
    s ∈ e.core.l3DepthSymbols ∧ l2UpdatesIn kinds = []

theorem Unmixed.dispatch {kinds : List EventKind} (h : e.Unmixed s kinds)
    (hfirst : e.core.exchanges[s]? = none → kinds = []) (hfiled : e.core.ledger.Filed)
    (event : Event)
    (hok : ∀ err, ((e.core.cleared.atTime event.tsSim).handle event.kind).2 ≠ .fail err) :
    (e.dispatch event).1.Unmixed s (kinds ++ [event.kind].filter (EventKind.arrivesAt s)) := by
  let c := e.core.cleared.atTime event.tsSim
  obtain ⟨hexchanges, hl3, -⟩ := dispatch_aside e event
  have hmarks := (Core.marks_of_ok (c := c) hfiled hok).2 s
  intro ex hex hsome
  rw [hexchanges, (Core.serves_of_ok hok).exchanges] at hex
  rw [hl3, hmarks, l2UpdatesIn_append]
  have hopened : (c.opened event.kind).exchanges[s]? = e.core.exchanges[s]? := by
    cases event.kind <;> rfl
  split_ifs at hex with htouched
  · obtain rfl := Option.some.inj hex
    rw [ExchangeSimulator.isL3_session, Core.isL3_exchange, Core.depthMode, hopened] at hsome
    have hbefore :
      (s ∈ c.l3DepthSymbols ∨ ∃ update, event.kind = .l3Update update ∧ update.symbolId = s) ∧
        l2UpdatesIn kinds = [] := by
      cases hstored : e.core.exchanges[s]? with
      | some ex =>
        rw [hstored] at hsome
        exact ⟨.inl (h ex hstored hsome).1, (h ex hstored hsome).2⟩
      | none =>
        rw [hstored] at hsome
        have hmarked : s ∈ (c.opened event.kind).l3DepthSymbols := of_decide_eq_true hsome
        refine ⟨?_, ?_⟩
        · cases hkind : event.kind with
          | l3Update update =>
            rw [hkind] at hmarked
            rcases Finset.mem_insert.1 hmarked with hs | hs
            · exact .inr ⟨update, rfl, hs.symm⟩
            · exact .inl hs
          | _ =>
            rw [hkind] at hmarked
            exact .inl hmarked
        · rw [hfirst hstored]
          rfl
    refine ⟨hbefore.1, ?_⟩
    rw [hbefore.2, List.nil_append]
    refine List.filterMap_eq_nil_iff.2 fun kind hmem => ?_
    obtain ⟨hkind, harrives⟩ := List.mem_filter.1 hmem
    obtain rfl := List.mem_singleton.1 hkind
    cases hkind : event.kind with
    | l2Update update =>
      rw [hkind] at hok harrives
      obtain rfl : update.symbolId = s := of_decide_eq_true harrives
      obtain hmarked | ⟨update', hkind', -⟩ := hbefore.1
      · exact absurd (by rw [Core.handle, Core.onL2Update_mixed hmarked]) (hok _)
      · rw [hkind] at hkind'
        cases hkind'
    | _ => rfl
  · obtain ⟨hmarked, hnone⟩ := h ex (hopened ▸ hex) hsome
    refine ⟨.inl hmarked, ?_⟩
    cases harrives : event.kind.arrivesAt s with
    | false => rw [hnone, List.filter_singleton, harrives]; rfl
    | true => exact absurd (EventKind.touched_of_arrivesAt _ harrives) htouched

variable [TickSource T] [L3Source U]

theorem Unmixed.turn (h : e.Unmixed s (arrivalsAt s e.trace)) (hreplays : e.Replays s)
    (hfiled : e.core.ledger.Filed) (hst : ∀ err, e.turn.2 ≠ .failed err) :
    e.turn.1.Unmixed s (arrivalsAt s e.turn.1.trace) := by
  rcases pops_cases e with ⟨-, hpopped, new, hcommanded⟩ | ⟨e₁, event, hcore, -, hpopped, hturn⟩
  · obtain ⟨hexchanges, -, hl3⟩ := hcommanded.frame
    have hexchanges : e.turn.1.core.exchanges = e.core.exchanges := hexchanges
    have hl3 : e.turn.1.core.l3DepthSymbols = e.core.l3DepthSymbols := hl3
    intro ex hex hsome
    rw [hexchanges] at hex
    rw [hl3, arrivalsAt, hpopped]
    exact h ex hex hsome
  · have harrivals : arrivalsAt s e.turn.1.trace =
        arrivalsAt s e.trace ++ [event.kind].filter (EventKind.arrivesAt s) := by
      rw [arrivalsAt, hpopped, List.map_append, List.filter_append, arrivalsAt]
      rfl
    have h₁ : e₁.Unmixed s (arrivalsAt s e.trace) := by
      unfold Unmixed
      rw [hcore]
      exact h
    rw [harrivals, hturn]
    refine h₁.dispatch (fun hnone => ?_) (hcore ▸ hfiled) event ?_
    · rcases hreplays.session with ⟨-, hnil⟩ | ⟨ex₀, ops, -, hex, -⟩
      · exact hnil
      · rw [← hcore, hnone] at hex
        cases hex
    · rcases (dispatch_cases e₁ event).2 with ⟨err, -, hfail⟩ | ⟨hok, -⟩
      · exact absurd (by rw [hturn, hfail]; rfl) (hst err)
      · exact hok

variable [SeedableRng R] {allowed : ℤ → EventKind → Prop}
  {st : Status (EngineError (Strategy.Error S))}

theorem unmixed (built : Built allowed e₀) (h : Reaches turn (External allowed) e₀ e st)
    (hst : ∀ err, st ≠ .failed err) (s : ℕ) : e.Unmixed s (arrivalsAt s e.trace) := by
  have hexternal : ∀ {e e' : Engine T U Q S L R}, e.Unmixed s (arrivalsAt s e.trace) →
    External allowed e e' →
      e'.Unmixed s (arrivalsAt s e'.trace) := by
    rintro e e' hunmixed hext ex hex hsome
    cases hext with
    | addTickSource source => exact hunmixed ex hex hsome
    | addL3Source source =>
      exact (hunmixed ex hex hsome).imp_left Finset.mem_insert_of_mem
    | @pushEvent ts kind _ =>
      rw [trace_pushEvent, arrivalsAt_append]
      exact (hunmixed ex hex hsome).imp_right fun h => by rw [l2UpdatesIn_append, h]; rfl
  induction h with
  | start =>
    induction built with
    | new => exact fun ex hex => by simp [Engine.new] at hex
    | external _ hext ih => exact hexternal ih hext
  | turn run ih =>
    refine (ih (by simp)).turn (replays built run (by simp) s) ?_ hst
    exact (ledger_invariant (I := fun _ => True) built run (fun _ _ => trivial) fun _ _ _ _ _ =>
      trivial).1
  | env _ hext ih => exact hexternal (ih hst) hext

/-! ## Runs -/

omit [LatencyModel L R] [TickSource T] [L3Source U] [SeedableRng R] in
/-- The engine pays funding at the mark price of what arrived. -/
theorem mark_eq (hreplays : e.Replays s) (hunmixed : e.Unmixed s (arrivalsAt s e.trace))
    (hlast : e.core.truthLastTradeBySymbol[s]? = (tradesIn (arrivalsAt s e.trace)).getLast?) :
    (e.core.truthLastTradeBySymbol[s]?.map (·.price)).or (e.core.exchanges[s]?.bind (·.markPrice)) =
      markAfter (arrivalsAt s e.trace) := by
  cases hstored : e.core.exchanges[s]? with
  | none =>
    have hnil : arrivalsAt s e.trace = [] := by
      rcases hreplays.session with ⟨-, hnil⟩ | ⟨ex₀, ops, -, hex, -⟩
      · exact hnil
      · rw [hstored] at hex
        cases hex
    have hl3 : l3UpdatesIn [] = [] := rfl
    have hl2 : l2UpdatesIn [] = [] := rfl
    rw [hlast, hnil, markAfter, if_pos hl3, hl2, OrderBookL2.best_nil.1, OrderBookL2.best_nil.2]
    rfl
  | some ex =>
    obtain ⟨hbook, hnone, hsome⟩ := hreplays.books
    have hex : e.core.exchange s = ex := by rw [Core.exchange, hstored]; rfl
    rw [hex] at hbook hnone hsome
    exact ExchangeSimulator.markPrice_eq hbook hnone hsome (fun h => (hunmixed ex hstored h).2) _
      (by rw [hlast])

/-- The account, the guard and the log are those of the statement of the trace. -/
def Kept (e : Engine T U Q S L R) : Prop := e.core.statement = statementOf e.core.config e.trace

omit [Strategy S] [LatencyModel L R] [TickSource T] [L3Source U] [SeedableRng R] in
theorem Kept.frame (h : e.Kept) {new : List Effect} (htrace : e'.trace = e.trace ++ new)
    (hpopped : poppedIn EventKind.any new = []) (hfills : filledIn new = [])
    (hsame : e'.core.statement = e.core.statement)
    (hconfig : e'.core.config = { e.core.config with maxBatchNs := e'.core.config.maxBatchNs }) :
    e'.Kept := by
  have hidle : ∀ pre b, replay enter pre b new = b := by
    intro pre b
    refine replay_of_idle (g := Effect.fill) (h := fun b _ => b)
      (fun pre' x post hsplit b => ?_) hfills
    have hx : x ∈ new := hsplit ▸ List.mem_append_right _ List.mem_cons_self
    have hnofill : x.fill = none := List.filterMap_eq_nil_iff.1 hfills x hx
    rw [hnofill]
    cases x with
    | filled f => cases hnofill
    | popped event timer =>
      have hmem : (event.tsSim, event.kind) ∈ poppedIn EventKind.any new :=
        mem_poppedIn.2 ⟨rfl, event, timer, hx, rfl⟩
      rw [hpopped] at hmem
      cases hmem
    | _ => rfl
  unfold Kept statementOf at h ⊢
  rw [htrace, replay_append, hidle, hsame, h, hconfig]
  rfl

omit [LatencyModel L R] [TickSource T] [L3Source U] [SeedableRng R] in
/-- The order of a fill is found among the accepted ones. -/
theorem find_accepted (hknown : e.Known) {o : Order} {n s : ℕ}
    (ho : (e.core.exchange s).getOrder n = some o)
    (l : List Effect) : (acceptedIn (e.trace ++ l)).find? (·.orderId = n) = some o := by
  obtain ⟨live, hlive, rfl⟩ := Option.map_eq_some_iff.1 ho
  obtain ⟨haccepted, hid⟩ := hknown.stored s n live hlive
  have hmem : live.order ∈ acceptedIn e.trace := mem_acceptedIn.2 haccepted
  have hfound : (acceptedIn e.trace).find? (·.orderId = n) = some live.order := by
    cases hfind : (acceptedIn e.trace).find? (·.orderId = n) with
    | none => exact absurd (List.find?_eq_none.1 hfind _ hmem) (by simp [hid])
    | some o =>
      have hsame : o.orderId = live.order.orderId :=
        (of_decide_eq_true (List.find?_some hfind :)).trans hid.symm
      rw [hknown.unique o live.order (mem_acceptedIn.1 (List.mem_of_find?_eq_some hfind))
        haccepted hsame]
  have happend : acceptedIn (e.trace ++ l) = acceptedIn e.trace ++ acceptedIn l :=
    List.filterMap_append
  rw [happend, List.find?_append, hfound]
  rfl

theorem Kept.dispatch (h : e.Kept) (hknown : e.Known) (hkeyed : ∀ s, (e.core.exchange s).Keyed)
    (hmark : ∀ s : ℕ, (e.core.truthLastTradeBySymbol[s]?.map (·.price)).or
      (e.core.exchanges[s]?.bind (·.markPrice)) = markAfter (arrivalsAt s e.trace)) (event : Event)
    (hconfig : (e.dispatch event).1.core.config =
      { e.core.config with maxBatchNs := (e.dispatch event).1.core.config.maxBatchNs }) :
    (e.dispatch event).1.Kept := by
  let c := e.core.cleared.atTime event.tsSim
  obtain ⟨new, htrace, hpopped, hfilled⟩ := filledIn_dispatch e event
  obtain ⟨booked, pairs, heffects, hpairs, hstored, hbooked⟩ :=
    Core.keeps_handle (c := c) hkeyed event.kind
  obtain ⟨new', hcommanded⟩ := (dispatch_cases e event).1
  have hfunded : ∀ kind, (c.funded kind).statement = e.core.statement.pay e.trace kind ∧
      (c.funded kind).effects = [] := by
    intro kind
    cases kind with
    | funding event =>
      have hprice : (c.truthLastTradeBySymbol[event.symbolId]?.map (·.price)).or
          (c.exchanges[event.symbolId]?.bind (·.markPrice)) = _ := hmark event.symbolId
      simp only [Core.funded, Core.applyFunding, Statement.pay]
      rw [hprice]
      cases markAfter (arrivalsAt event.symbolId e.trace) <;> exact ⟨rfl, rfl⟩
    | _ => exact ⟨rfl, rfl⟩
  have hnew : filledIn new = pairs.map Prod.snd := by
    rw [hfilled, heffects, (hfunded _).2, List.nil_append, hpairs]
  have hfound : ∀ p ∈ pairs, ∀ l, (acceptedIn (e.trace ++ l)).find? (·.orderId = p.2.orderId) =
      some p.1 := by
    intro p hp l
    obtain ⟨s, hget⟩ := hstored p hp
    exact find_accepted hknown hget l
  have hfills : ∀ pre b, replay enter (e.trace ++ pre) b new = pairs.foldl Statement.book b := by
    intro pre b
    let order (f : TradeFill) : Option (Order × TradeFill) :=
      ((acceptedIn e.trace).find? (·.orderId = f.orderId)).map (·, f)
    have horder : ∀ p ∈ pairs, order p.2 = some p := fun p hp => by
      have h := hfound p hp []
      rw [List.append_nil] at h
      exact congrArg (Option.map (·, p.2)) h
    have hread : new.filterMap (fun x => x.fill.bind order) = pairs := by
      rw [← List.filterMap_filterMap]
      change (filledIn new).filterMap order = pairs
      rw [hnew, List.filterMap_map]
      exact (List.filterMap_congr horder).trans List.filterMap_some
    refine (replay_eq_foldl (g := fun x => x.fill.bind order) (h := Statement.book)
      fun pre' x post hsplit b => ?_).trans (congrArg _ hread)
    have hx : x ∈ new := hsplit ▸ List.mem_append_right _ List.mem_cons_self
    cases x with
    | filled f =>
      have hf : f ∈ pairs.map Prod.snd := hnew ▸ mem_filledIn.2 hx
      obtain ⟨p, hp, rfl⟩ := List.mem_map.1 hf
      change Option.elim _ b _ = (order p.2).elim b _
      rw [List.append_assoc, hfound p hp, horder p hp]
      rfl
    | popped event timer =>
      have hmem : (event.tsSim, event.kind) ∈ poppedIn EventKind.any new :=
        mem_poppedIn.2 ⟨rfl, event, timer, hx, rfl⟩
      rw [hpopped] at hmem
      cases hmem
    | _ => rfl
  have hopening : statementOf (e.dispatch event).1.core.config e.trace =
      statementOf e.core.config e.trace := by
    rw [hconfig]
    rfl
  calc (e.dispatch event).1.core.statement
      = pairs.foldl Statement.book (e.core.statement.pay e.trace event.kind) := by
        rw [Core.statement_of_commanded hcommanded, hbooked, (hfunded _).1]
    _ = replay enter (e.trace ++ [.popped event e.core.activeBatchTimerId])
          (enter e.trace (statementOf (e.dispatch event).1.core.config e.trace)
            (.popped event e.core.activeBatchTimerId)) new := by
        rw [hfills, hopening, ← h]
        rfl
    _ = statementOf (e.dispatch event).1.core.config (e.dispatch event).1.trace := by
        rw [htrace]
        exact (replay_append [] _ e.trace (_ :: new)).symm

theorem Kept.turn (h : e.Kept) (htracked : e.Tracked)
    (hmark : ∀ s : ℕ, (e.core.truthLastTradeBySymbol[s]?.map (·.price)).or
      (e.core.exchanges[s]?.bind (·.markPrice)) = markAfter (arrivalsAt s e.trace)) :
        e.turn.1.Kept := by
  have hconfig := e.config_turn
  rcases turn_fills e with ⟨new, htrace, hpopped, hfills, commands, hcommanded⟩ |
    ⟨e₁, intake, event, hcore, htrace, hintake, hfills, hturn⟩
  · exact h.frame htrace hpopped hfills (Core.statement_of_commanded hcommanded) hconfig
  · have hpopped := poppedIn_of_isIntake hintake EventKind.any
    rw [hturn] at hconfig ⊢
    have h₁ : e₁.Kept := h.frame htrace hpopped hfills (congrArg Core.statement hcore)
      (by rw [hcore])
    have hknown : e₁.Known := by
      have hold : ∀ o, .accepted o ∈ e₁.trace → .accepted o ∈ e.trace := fun o ho => by
        rw [htrace] at ho
        exact (List.mem_append.1 ho).resolve_right fun ho => by cases hintake _ ho
      refine ⟨fun s n o ho => ?_, fun o o' ho ho' => htracked.known.unique o o' (hold o ho)
        (hold o' ho')⟩
      rw [htrace]
      exact (htracked.known.stored s n o (hcore ▸ ho)).imp_left (List.mem_append_left _)
    refine h₁.dispatch hknown (hcore ▸ htracked.keyed) (fun s => ?_) event (hcore ▸ hconfig)
    have harrivals : arrivalsAt s intake = [] := by
      rw [arrivalsAt, hpopped]
      rfl
    rw [hcore, htrace, arrivalsAt_append, harrivals, List.append_nil]
    exact hmark s

/-- In every state the statement is that of the trace. -/
theorem kept (built : Built allowed e₀) (h : Reaches turn (External allowed) e₀ e st)
    (outside : ∀ ts kind, allowed ts kind → kind.isOrderEvent = false) : e.Kept := by
  have hexternal : ∀ {e e' : Engine T U Q S L R}, e.Kept → External allowed e e' → e'.Kept := by
    rintro e e' hkept hext
    cases hext with
    | addTickSource source => exact hkept
    | addL3Source source => exact hkept
    | @pushEvent ts kind _ => exact hkept.frame (trace_pushEvent e ts kind) rfl rfl rfl rfl
  induction h with
  | start =>
    induction built with
    | new => rfl
    | external _ hext ih => exact hexternal ih hext
  | turn run ih =>
    refine ih.turn (tracked built run outside) fun s => ?_
    exact mark_eq (replays built run (by simp) s) (unmixed built run (by simp) s)
      ((sourced built run outside).last s)
  | env _ hext ih => exact hexternal ih hext

/-- The account, the risk guard and the trade log of every run are those that its trace replays
to. -/
theorem statement_replays_trace (built : Built allowed e₀)
    (h : Reaches turn (External allowed) e₀ e st)
    (outside : ∀ ts kind, allowed ts kind → kind.isOrderEvent = false) :
    ⟨e.core.account, e.core.riskGuard, e.core.tradeLog⟩ = statementOf e.core.config e.trace :=
  kept built h outside

/-- An order of one is filled at `100`, and funding is paid on it. -/
theorem statement_replays_trace_sample :
    let order : Order := ⟨0, 0, 0, 0, 10000000000, 100000000, 1, .buy, .limit⟩
    let ticks : List Tick := [⟨1000, 0, 0, 10000000000, 1, 1, .buy, 0⟩,
      ⟨1011, 0, 1, 10000000000, 100000000, 1, .sell, 0⟩]
    let funding : FundingEvent := ⟨3000, 10000, 1⟩
    let e₀ := (sample {} 10 [[.submitOrder order]] [ticks]).pushEvent 3000 (.funding funding)
    let e := (runFor turn 14 e₀).1
    e.core.account.totalFundingPnl = -1000000 ∧
      ⟨e.core.account, e.core.riskGuard, e.core.tradeLog⟩ = statementOf e.core.config e.trace := by
  intro order ticks funding e₀ e
  have built : Built (fun _ kind => kind = .funding funding) e₀ :=
    .external (.external (.new _ _ _ _ _) (.addTickSource ticks)) (.pushEvent rfl)
  have run : Reaches turn (External fun _ kind => kind = .funding funding) e₀ e .finished :=
    reaches_of_runFor 14 (by decide +kernel)
  exact ⟨by decide +kernel, statement_replays_trace built run fun _ _ hk => hk ▸ rfl⟩

end Engine

end Backtester
