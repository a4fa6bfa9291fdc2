import Backtester.Clock
import Backtester.Ledger

/-!
# What the handlers post

The ledger of the core (`Core.ledger`), and what each handler does to it : `Core.Posts` for the
exchange side, `Core.Speaks` for the commands of the strategy, `Core.Turns` for one after the
other. `turned_turn` puts a whole turn of the engine together, and `ledger_invariant` is the
invariant rule for runs.
-/

open Run StableSort Std

set_option linter.unusedSectionVars false

namespace Backtester

variable {Q : Type} [QueueModel Q]

/-! ## The reports of an operation -/

namespace ExchangeSimulator

/-- The report tells about a stored order, and not of the risk guard. -/
def Tells (ex : ExchangeSimulator Q) (r : OrderReport) : Prop :=
  r.reason ≠ some killReason ∧ ∃ n order, ex.getOrder n = some order ∧
    r.orderId = order.orderId ∧ r.symbolId = order.symbolId

variable {ex : ExchangeSimulator Q} {op : ExchangeOp} {n : ℕ}

/-- What an operation reports of an order is told of an order that is stored. -/
theorem Change.tells {o o' : LiveOrder (QueueModel.State Q)} {rs : List OrderReport}
    (h : Change ex op o o' rs) (ho : ex.getOrder n = some o.order) : ∀ r ∈ rs, ex.Tells r := by
  have htells : ∀ status a b c d reason, reason ≠ some killReason →
      ex.Tells (o.order.report status a b c d reason) :=
    fun _ _ _ _ _ _ hreason => ⟨hreason, n, o.order, ho, rfl, rfl⟩
  cases h with
  | idle => simp
  | cancel may => simp
  | follow => simp
  | ack state => simpa using htells _ _ _ _ _ _ (by simp)
  | cancelAck state => simpa using htells _ _ _ _ _ _ (by simp)
  | marketFill level fillQty_eq remainingQty_eq state => simpa using htells _ _ _ _ _ _ (by simp)
  | marketReject level => simpa using htells _ _ _ _ _ _ (by decide)
  | forceCancel => simpa using htells _ _ _ _ _ _ (by decide)
  | @offer _ trade =>
    rcases offer_cases ex.queueModel trade o with ⟨-, heq⟩ | ⟨-, heq⟩ | ⟨-, -, -, heq⟩
    · simp [heq]
    · simp [heq]
    · simpa [heq, LiveOrder.fillReport] using htells _ _ _ _ _ _ (by simp)

/-- A trade is offered to stored orders. -/
theorem tells_onTrade (trade : Tick) : ∀ r ∈ (ex.onTrade trade).2, ex.Tells r := by
  suffices h : ∀ (ids : List ℕ) (acc : ExtTreeMap ℕ (LiveOrder (QueueModel.State Q)) ×
      List OrderReport), (∀ n, acc.1[n]?.map LiveOrder.order = ex.getOrder n) →
      (∀ r ∈ acc.2, ex.Tells r) →
      ∀ r ∈ (ids.foldl (offerTo ex.queueModel trade) acc).2, ex.Tells r by
    unfold onTrade
    split
    · simp
    · exact h _ _ (fun _ => rfl) (by simp)
  intro ids
  induction ids with
  | nil => exact fun acc _ hreports => hreports
  | cons m ids ih =>
    intro acc horders hreports
    refine ih _ (fun n => ?_) fun r hr => ?_
    · rw [← horders n]
      exact getOrder_foldl_offerTo n [m] acc
    · rw [reports_offerTo, List.mem_append, Option.mem_toList] at hr
      rcases hr with hr | hr
      · exact hreports r hr
      · obtain ⟨o, ho, hoffer⟩ := Option.bind_eq_some_iff.1 hr
        have hstored : ex.getOrder m = some o.order := by rw [← horders, ho, Option.map_some]
        have hchange : Change ex (.onTrade trade) o _ _ := .offer
        exact hchange.tells hstored r (by simp [hoffer])

/-- The reports of an operation tell about stored orders. -/
theorem tells_perform (ex : ExchangeSimulator Q) (op : ExchangeOp) :
    ∀ r ∈ (ex.perform op).2, ex.Tells r := by
  have htarget : ∀ m, op.target = some m → ∀ r ∈ (ex.perform op).2, ex.Tells r := by
    intro m hm
    rcases ex.perform_target hm with heq | ⟨o, o', rs, ho, hchange, heq⟩
    · simp [heq]
    · rw [heq]
      exact hchange.tells (n := m) (by rw [getOrder, ho, Option.map_some])
  cases op with
  | submitOrder order => simp [perform]
  | removeOrder orderId => simp [perform]
  | applyL2Update update => simp [perform]
  | applyL3Update update => simp [perform]
  | onTrade trade => exact tells_onTrade trade
  | _ => exact htarget _ rfl

end ExchangeSimulator

/-! ## The exchange side -/

namespace Core

variable {S L R : Type}

/-- The part of the engine that the entries change. -/
def ledger (c : Core Q S L R) : Ledger Q where
  queueModel := c.queueModel
  exchanges := c.exchanges
  orderSymbolById := c.orderSymbolById
  nextOrderId := c.nextOrderId
  account := c.account
  tradeLog := c.tradeLog
  market := c.market
  truthLastTradeBySymbol := c.truthLastTradeBySymbol
  l2DepthSymbols := c.l2DepthSymbols
  l3DepthSymbols := c.l3DepthSymbols
  riskGuard := c.riskGuard

/-- `c'` comes from `c` by posting entries that satisfy `P`. -/
def Posts (P : Entry → Prop) (c c' : Core Q S L R) : Prop :=
  ∃ new, c'.effects = c.effects ++ new ∧ Ledger.Posted P c.ledger new c'.ledger

/-- `c'` comes from `c` by commands of the strategy. -/
def Speaks (c c' : Core Q S L R) : Prop :=
  ∃ new, c'.effects = c.effects ++ new ∧ Ledger.Commanded c.ledger new c'.ledger

/-- A handler appends entries that meet `P`, and they lead from its ledger to the next. -/
def Turns (P : Entry → Prop) (c c' : Core Q S L R) : Prop :=
  ∃ new, c'.effects = c.effects ++ new ∧ Ledger.Turned P c.ledger new c'.ledger

variable [Strategy S] {P : Entry → Prop} {c c' c'' : Core Q S L R} {t : ℤ}

/-- Booking a trade posts its fills. -/
theorem ledger_bookTrade (c : Core Q S L R) (tick : Tick) (ex : ExchangeSimulator Q)
    (reports : List OrderReport) (s : ℕ) : (c.bookTrade tick ex reports).ledger =
      c.ledger.post (.book s tick.tsExchange
        (makerFills ex tick.tsExchange c.config.makerFeeBps reports)) := by
  let fills := makerFills ex tick.tsExchange c.config.makerFeeBps reports
  have hlog : (fills.foldl (fun c f => c.logFill f.2) c).ledger =
      fills.foldl Ledger.logFill c.ledger :=
    (List.foldl_hom Core.ledger fun _ _ => rfl).symm
  have hsettle : ∀ c : Core Q S L R,
      (fills.foldl (fun c f => c.settle tick.tsExchange f.1 f.2) c).ledger =
        fills.foldl (Ledger.settle tick.tsExchange) c.ledger :=
    fun c => (List.foldl_hom Core.ledger fun _ _ => rfl).symm
  have hpush : ∀ (reports : List OrderReport) (c : Core Q S L R), (reports.foldl (fun c r =>
      c.pushAfter tick.tsExchange c.config.orderUpdateLatencyNs (.orderReport r)) c).ledger =
        c.ledger := by
    intro reports
    induction reports with
    | nil => exact fun _ => rfl
    | cons r reports ih =>
      intro c
      refine (ih _).trans ?_
      dsimp only
      rw [pushAfter_eq]
      rfl
  unfold Core.bookTrade
  dsimp only
  rw [hpush, hsettle, hlog]
  rfl

namespace Posts

/-- A change of what the ledger does not show. -/
theorem of_eq (hledger : c'.ledger = c.ledger) (heffects : c'.effects = c.effects) : Posts P c c' :=
  ⟨[], by simp [heffects], hledger ▸ .refl _⟩

/-- Posting nothing. -/
theorem refl (c : Core Q S L R) : Posts P c c := of_eq rfl rfl

/-- The entries of one step and then of the next. -/
theorem trans (h : Posts P c c') (h' : Posts P c' c'') : Posts P c c'' := by
  obtain ⟨new, heq, hposted⟩ := h
  obtain ⟨new', heq', hposted'⟩ := h'
  exact ⟨new ++ new', by rw [heq', heq, List.append_assoc], hposted.trans hposted'⟩

/-- One more entry may be posted. -/
theorem entry (h : Posts P c c') {c'' : Core Q S L R} (entry : Entry) (hP : P entry)
    (hledger : c''.ledger = c'.ledger.post entry) (heffects : c''.effects = c'.effects) :
    Posts P c c'' := by
  obtain ⟨new, heq, hposted⟩ := h
  exact ⟨new, heffects.trans heq, hledger ▸ hposted.entry hP⟩

/-- Effects of no command may be added. -/
theorem append (h : Posts P c c') {c'' : Core Q S L R} (new : List Effect)
    (hledger : c''.ledger = c'.ledger) (heffects : c''.effects = c'.effects ++ new)
    (hnew : ∀ x ∈ new, x.isCommanded = false) : Posts P c c'' := by
  obtain ⟨new₀, heq, hposted⟩ := h
  exact ⟨new₀ ++ new, by rw [heffects, heq, List.append_assoc], hledger ▸ hposted.append hnew⟩

end Posts

/-- A push has one event, and perhaps an overflow. -/
theorem isCommanded_pushEffects {ts delay pushed : ℤ} {kind : EventKind}
    (hkind : (Effect.scheduled pushed kind).isCommanded = false) :
    ∀ x ∈ pushEffects ts delay pushed kind, x.isCommanded = false := by
  unfold pushEffects
  split_ifs
  · simpa using hkind
  · simpa [Effect.isCommanded] using hkind

/-- A report that does not tell of the kill switch is none of a command. -/
theorem isCommanded_report {r : OrderReport} (hr : r.reason ≠ some killReason) (ts : ℤ) :
    (Effect.scheduled ts (.orderReport r)).isCommanded = false := by
  simpa [Effect.isCommanded] using hr

namespace Posts

/-- A push after a delay posts nothing. -/
theorem pushAfter (h : Posts P c c') (ts delay : ℤ) (kind : EventKind)
    (hkind : ∀ pushed, (Effect.scheduled pushed kind).isCommanded = false) :
    Posts P c (c'.pushAfter ts delay kind) := by
  rw [pushAfter_eq]
  exact h.append _ rfl rfl (isCommanded_pushEffects (hkind _))

/-- A push with a saturating sum posts nothing. -/
theorem pushAfterSat (h : Posts P c c') (ts delay : ℤ) (kind : EventKind)
    (hkind : ∀ pushed, (Effect.scheduled pushed kind).isCommanded = false) :
    Posts P c (c'.pushAfterSat ts delay kind) := by
  rw [pushAfterSat_eq]
  exact h.append _ rfl rfl (isCommanded_pushEffects (hkind _))

/-- An operation on one exchange. -/
theorem perform (h : Posts P c c') {s : ℕ} (op : ExchangeOp) {ex : ExchangeSimulator Q}
    (hP : P (.perform s op)) (hex : ((c'.exchange s).perform op).1 = ex) :
    Posts P c (c'.putExchange s ex) :=
  h.entry _ hP (hex ▸ rfl) rfl

/-- Making an exchange is an entry. -/
theorem exchangeMut (h : Posts P c c') {s : ℕ} (hP : P (.exchangeMut s)) :
    Posts P c (c'.exchangeMut s) :=
  h.entry _ hP rfl rfl

/-- Booking what a trade fills is one entry, and the reports follow. -/
theorem bookTrade (h : Posts P c c') {tick : Tick} {ex : ExchangeSimulator Q}
    {reports : List OrderReport} {s : ℕ}
    (hP : P (.book s tick.tsExchange
      (makerFills ex tick.tsExchange c'.config.makerFeeBps reports)))
    (hreports : ∀ r ∈ reports, r.reason ≠ some killReason) :
    Posts P c (c'.bookTrade tick ex reports) := by
  obtain ⟨new, heq, hposted⟩ := h
  obtain ⟨-, -, -, heffects⟩ := bookTrade_cases c' tick ex reports
  refine ⟨_, heffects.trans (by rw [heq, List.append_assoc, List.append_assoc]), ?_⟩
  rw [ledger_bookTrade c' tick ex reports s]
  refine (hposted.append fun x hx => ?_).entry hP
  rcases List.mem_append.1 hx with hx | hx
  · obtain ⟨f, -, rfl⟩ := List.mem_map.1 hx
    rfl
  · obtain ⟨r, hr, hx⟩ := List.mem_flatMap.1 hx
    exact isCommanded_pushEffects (isCommanded_report (hreports r hr) _) x hx

end Posts

/-! ## The handlers of the exchange side -/

variable {kind : EventKind} {symbol : Option ℕ} {s n : ℕ}

/-- The fills of a trade are fills of its symbol. -/
theorem isFill_makerFills {ex ex' : ExchangeSimulator Q} {ts feeBps : ℤ}
    {reports : List OrderReport}
    (hfiled : ∀ n order, ex.getOrder n = some order → order.orderId = n ∧ order.symbolId = s)
    (hsame : ∀ n, ex'.getOrder n = ex.getOrder n) (htells : ∀ r ∈ reports, ex.Tells r) :
    ∀ f ∈ makerFills ex' ts feeBps reports, IsFill s ts f := by
  intro f hf
  obtain ⟨r, hr, hsome⟩ := List.mem_filterMap.1 hf
  split_ifs at hsome with hpos
  obtain ⟨order, horder, rfl⟩ := Option.map_eq_some_iff.1 hsome
  obtain ⟨-, m, order', horder', hid, hsymbol⟩ := htells r hr
  obtain ⟨hm, hs⟩ := hfiled m order' horder'
  rw [hsame] at horder
  exact ⟨(hfiled _ order horder).2, hsymbol.trans hs, rfl, hpos, rfl⟩

/-- A trade posts what it does to the exchange of its symbol, and what it fills there. -/
theorem posts_onTickEvent (hfiled : c.ledger.Filed) (tick : Tick) :
    Posts (Entry.Suits (.tick tick) tick.tsExchange (some tick.symbolId)) c
      (c.onTickEvent tick).1 := by
  let ex := c.exchange tick.symbolId
  have hobserve : Posts (Entry.Suits (.tick tick) tick.tsExchange (some tick.symbolId)) c
      (c.observeTrade tick) := (Posts.refl c).entry (.observeTrade tick) rfl rfl rfl
  have htells := ex.tells_perform (.onTrade tick)
  refine (hobserve.perform (.onTrade tick) ⟨rfl, by simp⟩ rfl).bookTrade
    (s := tick.symbolId) ⟨rfl, rfl, ?_⟩ fun r hr => (htells r hr).1
  exact isFill_makerFills (hfiled tick.symbolId)
    (fun n => ExchangeSimulator.getOrder_onTrade tick n) htells

/-- A level update posts to the exchange of its symbol. -/
theorem posts_onL2Update (update : L2Update) :
    Posts (Entry.Suits (.l2Update update) t (some update.symbolId)) c (c.onL2Update update).1 := by
  unfold onL2Update
  split_ifs
  · exact .refl c
  · have hmark : Posts (Entry.Suits (.l2Update update) t (some update.symbolId)) c
        { c with l2DepthSymbols := insert update.symbolId c.l2DepthSymbols } :=
      (Posts.refl c).entry (.markL2Depth update.symbolId) ⟨update, rfl, rfl⟩ rfl rfl
    exact hmark.perform (.applyL2Update update) ⟨rfl, by simp⟩ rfl

/-- An order update posts to the exchange of its symbol. -/
theorem posts_onL3Update (update : L3Update) :
    Posts (Entry.Suits (.l3Update update) t (some update.symbolId)) c (c.onL3Update update).1 := by
  unfold onL3Update
  split_ifs
  · exact .refl c
  · have hmark : Posts (Entry.Suits (.l3Update update) t (some update.symbolId)) c
        { c with l3DepthSymbols := insert update.symbolId c.l3DepthSymbols } :=
      (Posts.refl c).entry (.markL3Depth update.symbolId) ⟨update, rfl, rfl⟩ rfl rfl
    have hput := hmark.perform (.applyL3Update update) ⟨rfl, by simp⟩ rfl
    dsimp only
    split
    · exact hput
    · exact hput

/-- An order that arrives posts to the exchange of its symbol. -/
theorem posts_onOrder [LatencyModel L R] (order : Order) :
    Posts (Entry.Suits (.order order) t (some order.symbolId)) c (c.onOrder order).1 := by
  have hput : Posts (Entry.Suits (.order order) t (some order.symbolId)) c
      (c.putExchange order.symbolId ((c.exchange order.symbolId).submitOrder order)) :=
    (Posts.refl c).perform (.submitOrder order) ⟨rfl, by simp⟩ rfl
  refine Posts.pushAfterSat ?_ _ _ (.orderAck order.orderId) fun _ => rfl
  exact hput.append [.orderLatency order.orderId _] rfl rfl (by simp [Effect.isCommanded])

/-- Booking the fill of a market order posts it. -/
theorem posts_bookTakerFill {order : Order} {report : OrderReport} (hnow : c.nowTsSim = t)
    (hbook : ∀ fills, (∀ f ∈ fills, IsFill s t f) → P (.book s t fills))
    (horder : order.symbolId = s) (hreport : report.symbolId = s) :
    Posts P c (c.bookTakerFill (some order) report) := by
  subst hnow
  unfold bookTakerFill
  dsimp only
  split_ifs with hpos
  · let fill := tradeFill c.nowTsSim true c.config.takerFeeBps order report
    have hfill : Posts P c (c.emit (.filled fill)) :=
      (Posts.refl c).append _ rfl rfl (by simp [Effect.isCommanded])
    refine hfill.entry (.book s c.nowTsSim [(order, fill)]) (hbook _ ?_) rfl rfl
    intro f hf
    obtain rfl := List.mem_singleton.1 hf
    exact ⟨horder, hreport, rfl, hpos, rfl⟩
  · exact .refl c

/-- The report of a market order touches no exchange. -/
theorem exchanges_reportMarket (maybeOrder : Option Order) (report : OrderReport) :
    (c.reportMarket maybeOrder report).exchanges = c.exchanges :=
  (reportMarket_cases c maybeOrder report).2.1

/-- Cancelling the rest of a market order posts to its exchange. -/
theorem posts_cancelRest (hP : ∀ op, op.submitted = none → P (.perform s op)) (n : ℕ) :
    Posts P c (c.cancelRest n s) := by
  unfold cancelRest
  split
  · exact .refl c
  · next report ex heq =>
    have hperform : (c.exchange s).perform (.forceCancelPartialFill n) = (ex, [report]) := by
      simp only [ExchangeSimulator.perform, heq]
    have htells := (c.exchange s).tells_perform (.forceCancelPartialFill n) report
      (by rw [hperform]; exact List.mem_singleton_self _)
    exact ((Posts.refl c).perform _ (hP (.forceCancelPartialFill n) rfl)
      (congrArg Prod.fst hperform)).pushAfterSat _ _ _ (isCommanded_report htells.1)

/-- A market order posts its fill and the cancellation of the rest. -/
theorem posts_fillMarket (hfiled : c.ledger.Filed)
    (hP : ∀ op, op.submitted = none → P (.perform s op))
    (hnow : c.nowTsSim = t)
    (hbook : ∀ fills, (∀ f ∈ fills, IsFill s t f) → P (.book s t fills)) (n : ℕ) :
    Posts P c (c.fillMarket n s) := by
  let op : ExchangeOp :=
    .fillMarketImmediately n (c.truthLastTradeBySymbol[s]?.map (·.price))
  simp only [fillMarket]
  split
  · exact .refl c
  · next report ex heq =>
    have hperform : (c.exchange s).perform op = (ex, [report]) := by
      simp only [op, ExchangeSimulator.perform, heq]
    obtain ⟨hreason, m, order, horder, -, hsymbol⟩ := (c.exchange s).tells_perform op report
      (by rw [hperform]; exact List.mem_singleton_self _)
    have hput : Posts P c (c.putExchange s ex) :=
      (Posts.refl c).perform op (hP op rfl) (congrArg Prod.fst hperform)
    have hfill : ∀ maybeOrder, (∀ order, maybeOrder = some order → order.symbolId = s) →
        Posts P (c.putExchange s ex) ((c.putExchange s ex).bookTakerFill maybeOrder report) := by
      intro maybeOrder hmaybe
      cases maybeOrder with
      | none => exact .refl _
      | some order' =>
        exact posts_bookTakerFill hnow hbook (hmaybe order' rfl)
          (hsymbol.trans (hfiled s m order horder).2)
    have hreport : Posts P c
        ((c.putExchange s ex).reportMarket ((c.exchange s).getOrder n) report) :=
      (hput.trans (hfill _ fun order' horder' => (hfiled s n order' horder').2)).pushAfterSat _ _ _
        (isCommanded_report hreason)
    split_ifs
    · exact hreport.trans (posts_cancelRest hP n)
    · exact hreport

/-- An operation that submits nothing suits every event of its symbol. -/
theorem suits_perform {op : ExchangeOp} (hop : op.submitted = none) :
    Entry.Suits kind t (some s) (.perform s op) := by
  refine ⟨rfl, fun order horder => ?_⟩
  rw [horder] at hop
  cases hop

/-- Making an exchange leaves the orders filed. -/
theorem filed_exchangeMut (hfiled : c.ledger.Filed) (s : ℕ) : (c.exchangeMut s).ledger.Filed := by
  intro s' m order horder
  refine hfiled s' m order ?_
  rw [← horder]
  change _ = ((c.exchangeMut s).exchange s').getOrder m
  rw [exchangeMut, exchange_putExchange]
  split_ifs with heq
  · exact heq ▸ rfl
  · rfl

/-- An acknowledgement posts to the exchange where the order is registered. -/
theorem posts_onOrderAck (hfiled : c.ledger.Filed) (n : ℕ) :
    Posts (Entry.Suits (.orderAck n) c.nowTsSim c.orderSymbolById[n]?) c (c.onOrderAck n).1 := by
  unfold onOrderAck
  split
  · exact .refl c
  · next s hs =>
    rw [hs]
    have hmut : Posts (Entry.Suits (.orderAck n) c.nowTsSim (some s)) c (c.exchangeMut s) :=
      (Posts.refl c).exchangeMut rfl
    dsimp only
    split
    · exact hmut.trans (posts_fillMarket (filed_exchangeMut hfiled s) (fun _ => suits_perform) rfl
        (fun fills hfills => ⟨rfl, rfl, hfills⟩) n)
    · split
      · exact hmut
      · next report ex heq =>
        have hperform : ((c.exchangeMut s).exchange s).perform (.ackNew n) = (ex, [report]) := by
          simp only [ExchangeSimulator.perform, heq]
        have htells := ((c.exchangeMut s).exchange s).tells_perform (.ackNew n) report
          (by rw [hperform]; exact List.mem_singleton_self _)
        exact (hmut.perform _ (suits_perform rfl) (congrArg Prod.fst hperform)).pushAfterSat _ _ _
          (isCommanded_report htells.1)

/-- A cancel posts to the exchange where the order is registered. -/
theorem posts_onOrderCancel [LatencyModel L R] (n : ℕ) :
    Posts (Entry.Suits (.orderCancel n) t c.orderSymbolById[n]?) c (c.onOrderCancel n).1 := by
  unfold onOrderCancel
  split
  · exact .refl c
  · next s hs =>
    rw [hs]
    have hmut : Posts (Entry.Suits (.orderCancel n) t (some s)) c (c.exchangeMut s) :=
      (Posts.refl c).exchangeMut rfl
    dsimp only
    split
    · exact hmut
    · next ex heq =>
      have hperform : ((c.exchangeMut s).exchange s).perform (.cancelOrder n) = (ex, []) := by
        simp only [ExchangeSimulator.perform, heq]
      refine Posts.pushAfterSat ?_ _ _ (.orderCancelAck n) fun _ => rfl
      exact (hmut.perform _ (suits_perform rfl) (congrArg Prod.fst hperform)).append
        [.cancelLatency n _] rfl rfl (by simp [Effect.isCommanded])

/-- The answer to a cancel posts to the exchange where the order is registered. -/
theorem posts_onOrderCancelAck (n : ℕ) :
    Posts (Entry.Suits (.orderCancelAck n) t c.orderSymbolById[n]?) c (c.onOrderCancelAck n).1 := by
  unfold onOrderCancelAck
  split
  · exact .refl c
  · next s hs =>
    rw [hs]
    have hmut : Posts (Entry.Suits (.orderCancelAck n) t (some s)) c (c.exchangeMut s) :=
      (Posts.refl c).exchangeMut rfl
    dsimp only
    split
    · exact hmut
    · next report ex heq =>
      have hperform : ((c.exchangeMut s).exchange s).perform (.ackCancel n) = (ex, [report]) := by
        simp only [ExchangeSimulator.perform, heq]
      have htells := ((c.exchangeMut s).exchange s).tells_perform (.ackCancel n) report
        (by rw [hperform]; exact List.mem_singleton_self _)
      exact (hmut.perform _ (suits_perform rfl) (congrArg Prod.fst hperform)).pushAfter _ _ _
        (isCommanded_report htells.1)

/-- A terminal report posts the end of its registration. -/
theorem posts_forget (report : OrderReport) :
    Posts (Entry.Suits (.orderReport report) t c.orderSymbolById[report.orderId]?) c
      (c.forget report) := by
  unfold forget
  split_ifs
  · split
    · exact .refl c
    · next s hs =>
      rw [hs]
      exact ((Posts.refl c).perform (.removeOrder report.orderId) (suits_perform rfl) rfl).entry
        (.unregister report.orderId) trivial rfl rfl
  · exact .refl c

/-- Funding posts one entry. -/
theorem posts_applyFunding (event : FundingEvent) (symbol : Option ℕ) :
    Posts (Entry.Suits (.funding event) t symbol) c (c.applyFunding event) := by
  have hpost : (c.applyFunding event).ledger = c.ledger.post (.fund event) := by
    have hprice : c.ledger.fundingPrice event.symbolId =
        (c.truthLastTradeBySymbol[event.symbolId]?.map (·.price)).or
          (c.exchanges[event.symbolId]?.bind (·.markPrice)) := rfl
    simp only [Core.applyFunding, Ledger.post]
    rw [← hprice]
    cases c.ledger.fundingPrice event.symbolId <;> rfl
  have heffects : (c.applyFunding event).effects = c.effects := by
    simp only [Core.applyFunding]
    split <;> rfl
  exact (Posts.refl c).entry (.fund event) rfl hpost heffects

/-! ## The commands of the strategy -/

namespace Speaks

/-- Nothing is said when neither ledger nor effects change. -/
theorem of_eq (hledger : c'.ledger = c.ledger) (heffects : c'.effects = c.effects) : Speaks c c' :=
  ⟨[], by simp [heffects], hledger ▸ .start⟩

theorem refl (c : Core Q S L R) : Speaks c c := of_eq rfl rfl

/-- What is said first and what is said next. -/
theorem trans (h : Speaks c c') (h' : Speaks c' c'') : Speaks c c'' := by
  obtain ⟨new, heq, hcommanded⟩ := h
  obtain ⟨new', heq', hcommanded'⟩ := h'
  exact ⟨new ++ new', by rw [heq', heq, List.append_assoc], hcommanded.trans hcommanded'⟩

/-- Effects of no command say nothing. -/
theorem append (h : Speaks c c') {c'' : Core Q S L R} (new : List Effect)
    (hledger : c''.ledger = c'.ledger) (heffects : c''.effects = c'.effects ++ new)
    (hnew : ∀ x ∈ new, x.isCommanded = false) : Speaks c c'' := by
  obtain ⟨new₀, heq, hcommanded⟩ := h
  exact ⟨new₀ ++ new, by rw [heffects, heq, List.append_assoc],
    hledger ▸ hcommanded.append hnew⟩

end Speaks

/-- An order takes the next id, and passes the guard or is refused. -/
theorem speaks_submitOrder (c : Core Q S L R) (t : ℤ) (order : Order) :
    Speaks c (c.handleCommand t (.submitOrder order)) := by
  let order' : Order := c.ledger.numbered t order
  have hverdict : c.ledger.verdict order' = c.claimId.riskGuard.checkOrder order'
      c.claimId.orderSymbolById.size (c.claimId.account.positionQty order'.symbolId) := rfl
  change Speaks c (c.claimId.screenOrder t order')
  unfold screenOrder
  rw [← hverdict]
  split
  · next reason heq =>
    rw [pushAfterSat_eq]
    refine ⟨_, List.append_assoc _ _ _, ?_⟩
    have hrefuse := (Ledger.Commanded.start (L := c.ledger)).refuse t order
      c.config.orderUpdateLatencyNs (satAddI64 t c.config.orderUpdateLatencyNs) heq
    have hledger : (c.claimId.emit (.refused order' reason)).ledger =
        c.ledger.post (.submit t order) := by
      simp only [Ledger.post, heq, order']
      rfl
    rw [← hledger] at hrefuse
    exact hrefuse
  · next heq =>
    refine ⟨_, List.append_assoc _ [_] [_], ?_⟩
    have haccept := (Ledger.Commanded.start (L := c.ledger)).accept t order heq
    have hledger : (((c.claimId.registerOrder order').emit (.accepted order')).pushEvent t
        (.order order')).ledger = c.ledger.post (.submit t order) := by
      simp only [Ledger.post, heq, order']
      rfl
    rw [← hledger] at haccept
    exact haccept

/-- A command speaks. -/
theorem speaks_handleCommand (c : Core Q S L R) (t : ℤ) (command : Command) :
    Speaks c (c.handleCommand t command) := by
  cases command with
  | submitOrder order => exact speaks_submitOrder c t order
  | cancelOrder orderId => exact ⟨_, rfl, Ledger.Commanded.start.cancel t orderId⟩

/-- The commands of an answer speak, one after the other. -/
theorem speaks_handleCommands (c : Core Q S L R) (commands : List Command) (t : ℤ) :
    Speaks c (c.handleCommands commands t) := by
  induction commands generalizing c with
  | nil => exact .refl c
  | cons command commands ih => exact (speaks_handleCommand c t command).trans (ih _)

/-- Waking the strategy lets it speak. -/
theorem speaks_wake (c : Core Q S L R) (call : Call) (t : ℤ) (wakeup : Bool) :
    Speaks c (c.wake call t wakeup).1 := by
  have hcall : ∀ strategy, Speaks c (c.afterCall call t strategy) := fun strategy =>
    (Speaks.refl c).append [.called call t c.market] rfl rfl (by simp [Effect.isCommanded])
  rcases wake_spec c call t wakeup with ⟨err, heq⟩ | ⟨strategy, commands, heq⟩
  · rw [heq]
    exact hcall _
  · rw [heq]
    exact (hcall strategy).trans (speaks_handleCommands _ commands t)

/-- A flush lets the strategy speak. -/
theorem speaks_flushStrategy (c : Core Q S L R) (t : ℤ) : Speaks c (c.flushStrategy t).1 := by
  have hcalls : ∀ strategy (calls : List Call) tickBuffer reportBuffer,
      Speaks c (c.disarmed.handed t strategy calls tickBuffer reportBuffer) :=
    fun strategy calls _ _ => (Speaks.refl c).append (calls.map (Effect.called · t c.market)) rfl
      rfl
      (by simp [Effect.isCommanded])
  have htune : ∀ c : Core Q S L R, Speaks c c.tune := by
    intro c
    unfold tune
    split_ifs
    · exact .of_eq rfl rfl
    · exact .refl c
  rcases flushStrategy_spec c t with
    ⟨-, -, heq⟩ | ⟨strategy, calls, tickBuffer, err, -, heq⟩ | ⟨strategy, commands, heq⟩
  · rw [heq]
    exact .refl c
  · rw [heq]
    exact hcalls _ _ _ _
  · rw [heq]
    exact ((hcalls _ _ _ _).trans (speaks_handleCommands _ commands t)).trans (htune _)

/-! ## All handlers -/

namespace Turns

/-- A handler may post and say nothing. -/
theorem of_posts (h : Posts P c c') : Turns P c c' := by
  obtain ⟨new, heq, hposted⟩ := h
  exact ⟨new, heq, hposted.turned⟩

/-- A handler posts first and lets the strategy speak then. -/
theorem trans (h : Turns P c c') (h' : Speaks c' c'') : Turns P c c'' := by
  obtain ⟨new, heq, hturned⟩ := h
  obtain ⟨new', heq', hcommanded⟩ := h'
  exact ⟨new ++ new', by rw [heq', heq, List.append_assoc], hturned.trans hcommanded⟩

end Turns

/-- The delivery of a tick posts what the market view learns, and lets the strategy speak. -/
theorem turns_onTickDelivery (tick : Tick) :
    Turns (Entry.Suits (.tickDelivery tick) t (some tick.symbolId)) c
      (c.onTickDelivery tick).1 := by
  have hobserve : Posts (Entry.Suits (.tickDelivery tick) t (some tick.symbolId)) c
      (c.observeDelivery tick) :=
    (Posts.refl c).entry (.observeDelivery tick) rfl rfl rfl
  unfold onTickDelivery
  dsimp only
  split
  · exact (Turns.of_posts hobserve).trans (speaks_wake _ _ _ _)
  · have hbuffer := hobserve.trans
      (show Posts _ _ ((c.observeDelivery tick).bufferTick tick) from .of_eq rfl rfl)
    split_ifs
    · refine .of_posts (Posts.pushAfter ?_ _ _ (.timer _) fun _ => rfl)
      exact hbuffer.trans (.of_eq rfl rfl)
    · exact .of_posts hbuffer

/-- A timer posts nothing. -/
theorem turns_onTimer (timerId : ℕ) : Turns P c (c.onTimer timerId).1 := by
  unfold onTimer
  split_ifs
  · exact .of_posts (.of_eq rfl rfl)
  · exact .of_posts (.refl c)

/-- A handler posts entries about the symbol of its event, and then the strategy speaks. -/
theorem turns_handle [LatencyModel L R] (hfiled : c.ledger.Filed) (kind : EventKind) :
    Turns (Entry.Suits kind (workTime kind c.nowTsSim) (kind.symbolIn c.orderSymbolById)) c
      (c.handle kind).1 := by
  cases kind with
  | tick tick => exact .of_posts (posts_onTickEvent hfiled tick)
  | tickDelivery tick => exact turns_onTickDelivery tick
  | l2Update update => exact .of_posts (posts_onL2Update update)
  | l3Update update => exact .of_posts (posts_onL3Update update)
  | order order => exact .of_posts (posts_onOrder order)
  | orderAck n => exact .of_posts (posts_onOrderAck hfiled n)
  | orderCancel n => exact .of_posts (posts_onOrderCancel n)
  | orderCancelAck n => exact .of_posts (posts_onOrderCancelAck n)
  | orderReport report =>
    have hforget := Turns.of_posts (posts_forget (c := c) (t := c.nowTsSim) report)
    simp only [handle, onOrderReport]
    split
    · exact hforget.trans (speaks_wake _ _ _ _)
    · exact hforget.trans (.of_eq rfl rfl)
  | funding event => exact (Turns.of_posts (posts_applyFunding event _)).trans (speaks_wake _ _ _ _)
  | timer timerId => exact turns_onTimer timerId

end Core

/-! ## Entries -/

/-- What every event asks of its entries. -/
def Entry.Sound : Entry → Prop
  | perform s op => ∀ order, op = .submitOrder order → order.symbolId = s
  | book s ts fills => ∀ f ∈ fills, IsFill s ts f
  | _ => True

/-- An entry that suits its event is sound. -/
theorem Entry.Suits.sound {kind : EventKind} {t : ℤ} {symbol : Option ℕ} {entry : Entry}
    (h : entry.Suits kind t symbol) : entry.Sound := by
  cases entry with
  | perform s op => exact h.2
  | book s ts fills => exact h.2.2
  | _ => trivial

namespace Ledger

variable {P : Entry → Prop} {L L' : Ledger Q} {entry : Entry} {new : List Effect} {s s' : ℕ}

/-- The exchange that is stored is the one that is read. -/
theorem exchange_putExchange (L : Ledger Q) (s s' : ℕ) (ex : ExchangeSimulator Q) :
    (L.putExchange s ex).exchange s' = if s = s' then ex else L.exchange s' := by
  simp only [exchange, putExchange, ExtTreeMap.getElem?_insert, Std.compare_eq_iff_eq]
  by_cases hs : s = s'
  · simp [hs]
  · simp only [hs, ↓reduceIte]
    rfl

/-- An exchange that is not there yet has no order. -/
theorem getOrder_of_exchanges (h : L'.exchanges = L.exchanges) (s n : ℕ) :
    (L'.exchange s).getOrder n = (L.exchange s).getOrder n := by
  have hempty : ∀ L : Ledger Q, L.exchanges[s]? = none → (L.exchange s).getOrder n = none := by
    intro L hnone
    simp only [exchange, hnone, Option.getD_none]
    split_ifs <;> simp [ExchangeSimulator.getOrder_eq]
  cases hs : L.exchanges[s]? with
  | none => rw [hempty L hs, hempty L' (h ▸ hs)]
  | some ex => simp [exchange, h, hs]

/-- Fills do not touch the exchanges, the registry or the market data. -/
theorem book_frame (L : Ledger Q) (ts : ℤ) (fills : List (Order × TradeFill)) :
    ∃ account tradeLog riskGuard, fills.foldl (settle ts) (fills.foldl logFill L) =
      { L with account := account, tradeLog := tradeLog, riskGuard := riskGuard } := by
  have hlog : ∀ (fills : List (Order × TradeFill)) (L : Ledger Q),
      ∃ tradeLog, fills.foldl logFill L = { L with tradeLog := tradeLog } := by
    intro fills
    induction fills with
    | nil => exact fun L => ⟨L.tradeLog, rfl⟩
    | cons f fills ih =>
      intro L
      obtain ⟨tradeLog, heq⟩ := ih (L.logFill f)
      exact ⟨tradeLog, heq⟩
  have hsettle : ∀ (fills : List (Order × TradeFill)) (L : Ledger Q),
      ∃ account tradeLog riskGuard, fills.foldl (settle ts) L =
        { L with account := account, tradeLog := tradeLog, riskGuard := riskGuard } := by
    intro fills
    induction fills with
    | nil => exact fun L => ⟨L.account, L.tradeLog, L.riskGuard, rfl⟩
    | cons f fills ih =>
      intro L
      obtain ⟨account, tradeLog, riskGuard, heq⟩ := ih (settle ts L f)
      exact ⟨account, tradeLog, riskGuard, heq⟩
  obtain ⟨tradeLog, heq⟩ := hlog fills L
  obtain ⟨account, tradeLog', riskGuard, heq'⟩ := hsettle fills (fills.foldl logFill L)
  exact ⟨account, tradeLog', riskGuard, by rw [heq', heq]⟩

/-- An entry other than an operation leaves the orders of every exchange as they are. -/
theorem getOrder_post (h : ∀ s op, entry ≠ .perform s op) (s n : ℕ) :
    ((L.post entry).exchange s).getOrder n = (L.exchange s).getOrder n := by
  cases entry with
  | perform s op => exact absurd rfl (h s op)
  | exchangeMut s' =>
    rw [post, exchange_putExchange]
    split_ifs with heq
    · exact heq ▸ rfl
    · rfl
  | book s' ts fills =>
    obtain ⟨account, tradeLog, riskGuard, heq⟩ := L.book_frame ts fills
    rw [post, heq]
    exact getOrder_of_exchanges rfl s n
  | fund event =>
    refine getOrder_of_exchanges ?_ s n
    simp only [post]
    split <;> rfl
  | _ => exact getOrder_of_exchanges (L := L) (by simp only [post]) s n

/-- Sound entries keep every order under its id, at the exchange of its symbol. -/
theorem Filed.post (h : L.Filed) (entry : Entry) (hsound : entry.Sound) : (L.post entry).Filed := by
  intro s n order horder
  by_cases hop : ∃ s op, entry = .perform s op
  · obtain ⟨s', op, rfl⟩ := hop
    rw [Ledger.post, exchange_putExchange] at horder
    split_ifs at horder with heq
    · subst heq
      cases hsub : op.submitted with
      | none =>
        refine h s' n order ?_
        cases hrem : op.removed with
        | none => rwa [((L.exchange s').kept_perform hsub hrem).1] at horder
        | some m =>
          cases op with
          | removeOrder m' =>
            rw [ExchangeSimulator.perform, ExchangeSimulator.getOrder_removeOrder] at horder
            split_ifs at horder
            exact horder
          | _ => cases hrem
      | some m =>
        cases op with
        | submitOrder order' =>
          rw [ExchangeSimulator.perform, ExchangeSimulator.getOrder_submitOrder] at horder
          split_ifs at horder with hid
          · obtain rfl := Option.some.inj horder
            exact ⟨hid, hsound order' rfl⟩
          · exact h s' n order horder
        | _ => cases hsub
    · exact h s n order horder
  · rw [getOrder_post fun s op heq => hop ⟨s, op, heq⟩] at horder
    exact h s n order horder

/-- No entry changes the queue model. -/
theorem queueModel_post (L : Ledger Q) (entry : Entry) :
    (L.post entry).queueModel = L.queueModel := by
  cases entry with
  | book s ts fills =>
    obtain ⟨account, tradeLog, riskGuard, heq⟩ := L.book_frame ts fills
    rw [post, heq]
  | fund event =>
    simp only [post]
    split <;> rfl
  | _ => rfl

/-- What an entry does to the log and the guard : it logs its fills, and pushes PnL to both. -/
theorem post_log {J : TradeLog → RiskGuard → Prop} (L : Ledger Q) (entry : Entry)
    (fill : ∀ log guard f, f ∈ entry.fills → J log guard → J (log.pushFill f) guard)
    (push : ∀ log guard ts pnl isTrade, entry.time = some ts → J log guard →
      J (log.pushPnl ts pnl isTrade) (guard.updatePnl pnl))
    (h : J L.tradeLog L.riskGuard) : J (L.post entry).tradeLog (L.post entry).riskGuard := by
  cases entry with
  | book s ts fills =>
    have hlog : ∀ (part : List (Order × TradeFill)) (L : Ledger Q), (∀ f ∈ part, f ∈ fills) →
        J L.tradeLog L.riskGuard →
          J (part.foldl logFill L).tradeLog (part.foldl logFill L).riskGuard := by
      intro part
      induction part with
      | nil => exact fun _ _ h => h
      | cons f part ih =>
        intro L hpart h
        have hf : f.2 ∈ (Entry.book s ts fills).fills := List.mem_map_of_mem (hpart f (by simp))
        exact ih _ (fun f' hf' => hpart f' (by simp [hf'])) (fill _ _ f.2 hf h)
    have hsettle : ∀ (part : List (Order × TradeFill)) (L : Ledger Q), J L.tradeLog L.riskGuard →
        J (part.foldl (settle ts) L).tradeLog (part.foldl (settle ts) L).riskGuard := by
      intro part
      induction part with
      | nil => exact fun _ h => h
      | cons f part ih => exact fun L h => ih _ (push _ _ ts (netPnl L.account f) true rfl h)
    exact hsettle fills _ (hlog fills L (fun _ hf => hf) h)
  | fund event =>
    simp only [post]
    split
    · exact h
    · exact push _ _ event.tsExchange _ false rfl h
  | _ => exact h

/-- Nothing but the sum and the switch of the guard ever changes. -/
theorem limits_post (L : Ledger Q) (entry : Entry) :
    ∃ killed runningPnl, (L.post entry).riskGuard =
      { L.riskGuard with killed := killed, runningPnl := runningPnl } := by
  refine post_log (J := fun _ guard => ∃ killed runningPnl, guard =
    { L.riskGuard with killed := killed, runningPnl := runningPnl }) L entry ?_ ?_ ⟨_, _, rfl⟩
  · exact fun _ _ _ _ h => h
  · rintro log guard ts pnl isTrade - ⟨killed, runningPnl, rfl⟩
    exact ⟨_, _, rfl⟩

/-- A new ledger has no orders. -/
theorem filed_new (queueModel : Q) (config : EngineConfig) :
    (Ledger.new queueModel config).Filed := by
  intro s n order horder
  have hnone : ((Ledger.new queueModel config).exchange s).getOrder n = none := by
    simp [exchange, Ledger.new, ExchangeSimulator.getOrder_eq]
  rw [hnone] at horder
  cases horder

/-- Only an order that is put before the guard takes an id. -/
theorem nextOrderId_posts {entries : List Entry}
    (hentries : ∀ entry ∈ entries, ∀ ts order, entry ≠ .submit ts order) :
    (entries.foldl post L).nextOrderId = L.nextOrderId := by
  induction entries generalizing L with
  | nil => rfl
  | cons entry entries ih =>
    refine (ih fun x hx => hentries x (by simp [hx])).trans ?_
    cases entry with
    | submit ts order => exact absurd rfl (hentries _ (by simp) ts order)
    | book s ts fills =>
      obtain ⟨account, tradeLog, riskGuard, heq⟩ := L.book_frame ts fills
      rw [post, heq]
    | fund event =>
      simp only [post]
      split <;> rfl
    | _ => rfl

/-- All entries of a turn : its own, and the orders of the strategy. -/
theorem Turned.entries (h : Turned P L new L') : ∃ entries : List Entry,
    (∀ entry ∈ entries, P entry ∨ ∃ ts order, entry = .submit ts order) ∧
      L' = entries.foldl Ledger.post L := by
  obtain ⟨L₁, before, after, -, hposted, hcommanded⟩ := h
  obtain ⟨entries, hentries, rfl⟩ := hposted.entries
  obtain ⟨commands, hcommands, rfl⟩ := hcommanded.entries
  refine ⟨entries ++ commands, fun entry hmem => ?_, (List.foldl_append ..).symm⟩
  exact (List.mem_append.1 hmem).imp (hentries entry) (hcommands entry)

/-- What sound entries keep, a turn keeps. -/
theorem Turned.invariant {I : Ledger Q → Prop} (h : Turned P L new L')
    (hP : ∀ entry, P entry → entry.Sound)
    (post : ∀ L entry, L.Filed → entry.Sound → I L → I (L.post entry)) (hfiled : L.Filed)
    (hI : I L) :
    L'.Filed ∧ I L' := by
  obtain ⟨entries, hentries, rfl⟩ := h.entries
  refine List.foldlRecOn entries Ledger.post (motive := fun L => L.Filed ∧ I L) ⟨hfiled, hI⟩ ?_
  rintro L ⟨hfiled, hI⟩ entry hmem
  have hsound : entry.Sound := by
    rcases hentries entry hmem with h | ⟨ts, order, rfl⟩
    · exact hP entry h
    · trivial
  exact ⟨hfiled.post entry hsound, post L entry hfiled hsound hI⟩

end Ledger

/-! ## Turns of the engine -/

namespace Engine

variable {T U S L R : Type} {e e' : Engine T U Q S L R} {new : List Effect}

/-- The ledger after a core is absorbed. -/
theorem ledger_absorb (e : Engine T U Q S L R) (core : Core Q S L R) :
    (e.absorb core).core.ledger = core.ledger := by
  rw [core_absorb]
  rfl

variable [Strategy S]

/-- A flush changes the ledger by commands only. -/
theorem commanded_flush (e : Engine T U Q S L R) : ∃ new, e.flush.1.trace = e.trace ++ new ∧
    Ledger.Commanded e.core.ledger new e.flush.1.core.ledger := by
  obtain ⟨new, heq, hcommanded⟩ := Core.speaks_flushStrategy e.core.cleared e.core.nowTsSim
  have htrace := trace_absorb e (e.core.cleared.flushStrategy e.core.nowTsSim).1
  rw [heq] at htrace
  refine ⟨new, htrace, ?_⟩
  rw [flush, ledger_absorb]
  exact hcommanded

/-- A flush that may be put off changes the ledger by commands only. -/
theorem commanded_deferredFlush (e : Engine T U Q S L R) (wakeup : Bool) :
    ∃ new, (e.deferredFlush wakeup).1.trace = e.trace ++ new ∧
      Ledger.Commanded e.core.ledger new (e.deferredFlush wakeup).1.core.ledger := by
  obtain ⟨new, htrace, hcommanded⟩ := commanded_flush e
  unfold deferredFlush
  split_ifs
  · split
    · next heq => exact ⟨new, by simpa [heq] using htrace, by simpa [heq] using hcommanded⟩
    · next e' heq =>
      have hledger : Ledger.Commanded e.core.ledger new e'.core.ledger := by
        simpa [heq] using hcommanded
      exact ⟨new, by simpa [heq] using htrace, hledger⟩
  · exact ⟨[], by simp, .start⟩
  · exact ⟨[], by simp, .start⟩

variable [LatencyModel L R]

/-- The entries that the popped event may post. -/
def suits (e : Engine T U Q S L R) (event : Event) : Entry → Prop :=
  Entry.Suits event.kind (Core.workTime event.kind event.tsSim)
    (event.kind.symbolIn e.core.orderSymbolById)

/-- A dispatched event posts entries about its symbol, and then the strategy speaks. -/
theorem turned_dispatch (hfiled : e.core.ledger.Filed) (event : Event) :
    ∃ new, (e.dispatch event).1.trace =
        e.trace ++ .popped event e.core.activeBatchTimerId :: new ∧
      Ledger.Turned (e.suits event) e.core.ledger new (e.dispatch event).1.core.ledger := by
  obtain ⟨new, heq, hturned⟩ :=
    Core.turns_handle (c := e.core.cleared.atTime event.tsSim) hfiled event.kind
  have htrace : (e.handleEvent event).1.trace =
      e.trace ++ .popped event e.core.activeBatchTimerId :: new := by
    have habsorb := trace_absorb (e.log (.popped event e.core.activeBatchTimerId))
      ((e.core.cleared.atTime event.tsSim).handle event.kind).1
    rw [heq, trace_log, List.append_assoc] at habsorb
    exact habsorb
  have hledger : Ledger.Turned (e.suits event) e.core.ledger new
      (e.handleEvent event).1.core.ledger := by
    rw [handleEvent, ledger_absorb]
    exact hturned
  unfold dispatch
  split
  · next heq => exact ⟨new, by simpa [heq] using htrace, by simpa [heq] using hledger⟩
  · next heq => exact ⟨new, by simpa [heq] using htrace, by simpa [heq] using hledger⟩
  · next e' wakeup heq =>
    have htrace' : e'.trace = e.trace ++ .popped event e.core.activeBatchTimerId :: new := by
      simpa [heq] using htrace
    have hledger' : Ledger.Turned (e.suits event) e.core.ledger new e'.core.ledger := by
      simpa [heq] using hledger
    obtain ⟨new', hflush, hcommanded⟩ := commanded_deferredFlush e' wakeup
    refine ⟨new ++ new', ?_, hledger'.trans hcommanded⟩
    rw [hflush, htrace', List.append_assoc, List.cons_append]

variable [TickSource T] [L3Source U]

/-- No command is carried out while records are taken in. -/
theorem isCommanded_of_isIntake {x : Effect} (h : x.isIntake = true) : x.isCommanded = false := by
  cases x with
  | scheduled ts kind => cases kind <;> first | rfl | cases h
  | _ => first | rfl | cases h

/-- A turn that pops an event posts entries about the event's symbol, and in every turn the strategy
speaks last. -/
theorem turned_turn (hfiled : e.core.ledger.Filed) : ∃ new, e.turn.1.trace = e.trace ++ new ∧
    ((poppedIn EventKind.any new = [] ∧
      Ledger.Commanded e.core.ledger new e.turn.1.core.ledger) ∨
    ∃ event : Event, poppedIn EventKind.any new = [(event.tsSim, event.kind)] ∧
      Ledger.Turned (e.suits event) e.core.ledger new e.turn.1.core.ledger) := by
  obtain ⟨e₁, pass, heq, hturn⟩ := turn_cases e
  obtain ⟨hcore, new, htrace, hrecords⟩ := e.ingest_frame (ε := Strategy.Error S)
  have hpopped := poppedIn_of_isIntake hrecords EventKind.any
  have hnew : ∀ x ∈ new, x.isCommanded = false :=
    fun x hx => isCommanded_of_isIntake (hrecords x hx)
  rw [heq] at hcore htrace
  have hintake : Ledger.Commanded e.core.ledger new e₁.core.ledger := by
    rw [hcore]
    exact Ledger.Commanded.start.append hnew
  rcases hturn with ⟨-, hturn, -⟩ | ⟨-, event, queue, -, hturn⟩ | ⟨-, -, hturn⟩ | ⟨-, -, hturn, -⟩
  · rw [hturn]
    exact ⟨new, htrace, .inl ⟨hpopped, hintake⟩⟩
  · obtain ⟨new', htrace', hturned⟩ :=
      turned_dispatch (e := { e₁ with queue := queue }) (by rwa [hcore]) event
    obtain ⟨new'', hworks, -⟩ := dispatch_spec { e₁ with queue := queue } event
    have hnew'' : new'' = new' := by
      have hboth := hworks.trace.symm.trans htrace'
      exact List.append_cancel_left (hboth.trans (List.append_assoc _ [_] _).symm)
    have hsuits : Engine.suits { e₁ with queue := queue } event = e.suits event := by
      unfold suits
      rw [hcore]
    rw [hturn]
    refine ⟨new ++ .popped event e₁.core.activeBatchTimerId :: new', ?_, .inr ⟨event, ?_, ?_⟩⟩
    · rw [htrace', htrace, List.append_assoc]
    · rw [poppedIn_append, hpopped, ← List.singleton_append, poppedIn_append, ← hnew'',
        hworks.poppedIn_eq_nil]
      rfl
    · obtain ⟨L₁, before, after, hsplit, hposted, hcommanded⟩ := hsuits ▸ hturned
      refine ⟨L₁, new ++ .popped event e₁.core.activeBatchTimerId :: before, after, ?_, ?_,
        hcommanded⟩
      · rw [hsplit, List.append_assoc, List.cons_append]
      · have hintake' : Ledger.Posted (e.suits event) e.core.ledger
            (new ++ [.popped event e₁.core.activeBatchTimerId]) e.core.ledger :=
          ((Ledger.Posted.refl _).append hnew).append (by simp [Effect.isCommanded])
        rw [show e₁.core.ledger = e.core.ledger by rw [hcore]] at hposted
        simpa using hintake'.trans hposted
  · obtain ⟨new', htrace', hcommanded⟩ := commanded_flush e₁
    obtain ⟨new'', hworks, -⟩ := flush_spec e₁
    have hnew'' : new'' = new' := List.append_cancel_left (hworks.trace.symm.trans htrace')
    rw [hturn]
    refine ⟨new ++ new', by rw [htrace', htrace, List.append_assoc],
      .inl ⟨?_, hintake.trans hcommanded⟩⟩
    rw [poppedIn_append, hpopped, ← hnew'', hworks.poppedIn_eq_nil, List.append_nil]
  · rw [hturn]
    exact ⟨new, htrace, .inl ⟨hpopped, hintake⟩⟩

/-- A turn changes nothing of the configuration but the batch size. -/
theorem config_turn (e : Engine T U Q S L R) :
    e.turn.1.core.config = { e.core.config with maxBatchNs :=
      e.turn.1.core.config.maxBatchNs } := by
  refine turn_preserves (I := fun e' => e'.core.config =
    { e.core.config with maxBatchNs := e'.core.config.maxBatchNs }) rfl (fun _ _ _ h => h)
    (fun _ _ h => h) (fun _ h => h) (fun _ _ _ _ h => h) ?_ ?_
  · intro e' event queue h _
    obtain ⟨new, hworks, -⟩ := dispatch_spec { e' with queue := queue } event
    have hsame : (Engine.popped { e' with queue := queue } event).core.config = e'.core.config :=
      rfl
    rw [hworks.config, hsame, h]
  · intro e' h _
    obtain ⟨new, hworks, -⟩ := flush_spec e'
    rw [hworks.config, h]

/-- What every sound entry keeps, a turn keeps. -/
theorem ledger_turn {I : Ledger Q → Prop} (hfiled : e.core.ledger.Filed)
    (post : ∀ L entry, L.Filed → entry.Sound → I L → I (L.post entry)) (hI : I e.core.ledger) :
    e.turn.1.core.ledger.Filed ∧ I e.turn.1.core.ledger := by
  obtain ⟨new, -, ⟨-, hcommanded⟩ | ⟨event, -, hturned⟩⟩ := turned_turn hfiled
  · exact hcommanded.turned.invariant (P := fun _ => False) (by simp) post hfiled hI
  · exact hturned.invariant (fun _ => Entry.Suits.sound) post hfiled hI

/-! ## Runs -/

/-- The limits of the guard are those of the configuration. -/
def Limited (e : Engine T U Q S L R) : Prop :=
  e.core.riskGuard.maxOpenOrders = e.core.config.maxOpenOrders ∧
    e.core.riskGuard.maxPosition = e.core.config.maxPosition ∧
    e.core.riskGuard.maxLoss = e.core.config.maxLoss

/-- The invariant rule for ledgers under a configuration : what every sound entry keeps, and does
not depend on the batch size, holds throughout a run. -/
theorem configured_invariant [SeedableRng R] {allowed : ℤ → EventKind → Prop}
    {I : EngineConfig → Ledger Q → Prop} {e₀ : Engine T U Q S L R}
    {st : Status (EngineError (Strategy.Error S))} (built : Built allowed e₀)
    (h : Reaches turn (External allowed) e₀ e st)
    (start : ∀ queueModel config, I config (.new queueModel config))
    (resize : ∀ config L maxBatchNs, I config L → I { config with maxBatchNs := maxBatchNs } L)
    (post : ∀ config L entry, L.Filed → entry.Sound → I config L → I config (L.post entry)) :
    e.core.ledger.Filed ∧ I e.core.config e.core.ledger := by
  refine open_invariant (I := fun e => e.core.ledger.Filed ∧ I e.core.config e.core.ledger)
    built h ?_ ?_ ?_
  · exact fun queueModel _ config _ _ =>
      ⟨Ledger.filed_new queueModel config, start queueModel config⟩
  · rintro e e' ⟨hfiled, hI⟩ hext
    cases hext with
    | addTickSource source => exact ⟨hfiled, hI⟩
    | pushEvent hallowed => exact ⟨hfiled, hI⟩
    | addL3Source source =>
      let entry := Entry.markL3Depth (L3Source.symbolId source)
      exact ⟨hfiled.post entry trivial, post _ _ entry hfiled trivial hI⟩
  · rintro e ⟨hfiled, hI⟩
    obtain ⟨hfiled', hI'⟩ := ledger_turn hfiled (post e.core.config) hI
    rw [config_turn]
    exact ⟨hfiled', resize _ _ _ hI'⟩

/-- The invariant rule for ledgers : what every sound entry keeps holds throughout a run. -/
theorem ledger_invariant [SeedableRng R] {allowed : ℤ → EventKind → Prop} {I : Ledger Q → Prop}
    {e₀ : Engine T U Q S L R} {st : Status (EngineError (Strategy.Error S))}
    (built : Built allowed e₀) (h : Reaches turn (External allowed) e₀ e st)
    (start : ∀ queueModel config, I (.new queueModel config))
    (post : ∀ L entry, L.Filed → entry.Sound → I L → I (L.post entry)) :
    e.core.ledger.Filed ∧ I e.core.ledger :=
  configured_invariant (I := fun _ => I) built h start (fun _ _ _ h => h) fun _ => post

/-- The guard's limits never change. -/
theorem limited [SeedableRng R] {allowed : ℤ → EventKind → Prop} {e₀ : Engine T U Q S L R}
    {st : Status (EngineError (Strategy.Error S))} (built : Built allowed e₀)
    (h : Reaches turn (External allowed) e₀ e st) : e.Limited := by
  let I (config : EngineConfig) (L : Ledger Q) : Prop :=
    L.riskGuard.maxOpenOrders = config.maxOpenOrders ∧
      L.riskGuard.maxPosition = config.maxPosition ∧ L.riskGuard.maxLoss = config.maxLoss
  refine (configured_invariant (I := I) built h ?_ ?_ ?_).2
  · exact fun _ _ => ⟨rfl, rfl, rfl⟩
  · exact fun _ _ _ h => h
  · intro config L entry _ _ hI
    obtain ⟨killed, runningPnl, heq⟩ := L.limits_post entry
    simp only [I, heq]
    exact hI

end Engine

end Backtester
