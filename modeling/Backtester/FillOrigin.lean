import Backtester.PositionLimit
import Backtester.Turns
import Backtester.VenueReplay

/-!
# Where fills come from

A handler that books a fill works on a trade or on the ACK of a market order (`Core.Books`). The
exchanges replay the feed (`VenueReplay`) and the engine keeps the last trade of every symbol, so a
fill can be explained by the trace alone : by the accepted order it belongs to and by what was
popped before it (`fills_explained`).
-/

open History Run Std

set_option linter.unusedSectionVars false

namespace Backtester

/-- The trades among the events, in order. -/
def tradesIn (kinds : List EventKind) : List Tick :=
  kinds.filterMap fun
    | .tick trade => some trade
    | _ => none

/-- What a market order meets at a venue after these arrivals : the best level of the other side in
the L3 book, else in the L2 book, else the price of the last trade, without limit. -/
def quoteAfter (kinds : List EventKind) (side : Side) : Option (ℤ × ℤ) :=
  let l2 : OrderBookL2 := .follow (l2UpdatesIn kinds)
  let l3 : OrderBookL3 := .follow (l3UpdatesIn kinds)
  let best :=
    match side with
    | .buy => l3.bestAsk.or l2.bestAsk
    | .sell => l3.bestBid.or l2.bestBid
    | .none => none
  best.or ((tradesIn kinds).getLast?.map fun trade => (trade.price, i64Max))

/-- What was popped and booked explains a fill of the order : its venue is reached by a trade at its
price against its side, or its ACK as a market order finds a quote. -/
inductive Explained (config : EngineConfig) (pre : List Effect) (o : Order) (f : TradeFill) : Prop
  | maker {trade : Tick} {ts tsAck : ℤ}
      (now : (poppedIn EventKind.any pre).getLast? = some (ts, .tick trade))
      (acked : (tsAck, .orderAck o.orderId) ∈ poppedIn EventKind.any pre)
      (limit : o.orderType = .limit) (symbol : trade.symbolId = o.symbolId)
      (against : ExchangeSimulator.makerSide trade.side = some o.side)
      (price : trade.price = o.price)
      (fill : f = ⟨trade.tsExchange, o.orderId, o.price, f.qty,
        computeFee o.price f.qty config.makerFeeBps,
        o.symbolId, o.side, false⟩)
  | taker {ts price available : ℤ}
      (now : (poppedIn EventKind.any pre).getLast? = some (ts, .orderAck o.orderId))
      (market : o.orderType = .market)
      (quote : quoteAfter (arrivalsAt o.symbolId pre) o.side = some (price, available))
      (fill : f = ⟨ts, o.orderId, price, min o.qty available,
        computeFee price (min o.qty available) config.takerFeeBps, o.symbolId, o.side, true⟩)

/-- A fill has a quantity, and what came before it accepted its order and explains it. -/
def Effect.IsExplained (config : EngineConfig) (pre : List Effect) (x : Effect) : Prop :=
  ∀ f, x = .filled f → 0 < f.qty ∧ ∃ o, .accepted o ∈ pre ∧ Explained config pre o f

theorem Explained.resize {config : EngineConfig} {pre : List Effect} {o : Order} {f : TradeFill}
    (h : Explained config pre o f) (maxBatchNs : ℤ) :
    Explained { config with maxBatchNs := maxBatchNs } pre o f := by
  cases h with
  | maker now acked limit symbol against price fill =>
    exact .maker now acked limit symbol against price fill
  | taker now market quote fill => exact .taker now market quote fill

theorem tradesIn_append (kinds kinds' : List EventKind) :
    tradesIn (kinds ++ kinds') = tradesIn kinds ++ tradesIn kinds' :=
  List.filterMap_append

theorem arrivalsAt_append (s : ℕ) (l l' : List Effect) : arrivalsAt s (l ++ l') = arrivalsAt s l ++
      arrivalsAt s l' := by
  rw [arrivalsAt, poppedIn_append, List.map_append, List.filter_append, arrivalsAt, arrivalsAt]

theorem OrderBookL2.best_nil : (follow []).bestBid = none ∧ (follow []).bestAsk = none :=
  ⟨TreeMap.maxEntry_eq_none_iff.2 fun _ => ExtTreeMap.getElem?_empty,
    TreeMap.minEntry_eq_none_iff.2 fun _ => ExtTreeMap.getElem?_empty⟩

theorem OrderBookL3.best_nil : (follow []).bestBid = none ∧ (follow []).bestAsk = none := by
  have hbids : (follow []).bids.maxEntry? = none :=
    TreeMap.maxEntry_eq_none_iff.2 fun _ => ExtTreeMap.getElem?_empty
  have hasks : (follow []).asks.minEntry? = none :=
    TreeMap.minEntry_eq_none_iff.2 fun _ => ExtTreeMap.getElem?_empty
  exact ⟨by rw [bestBid, hbids]; rfl, by rw [bestAsk, hasks]; rfl⟩

variable {Q S L R : Type} [QueueModel Q]

/-! ## What a handler fills -/

namespace ExchangeSimulator

variable {ex : ExchangeSimulator Q} {ids : List ℕ} {trade : Tick}

/-- A report of a trade is of an order that rests at the price of the trade, against its side. -/
theorem offered_of_report (h : ex.Indexed ids) {r : OrderReport} (hr : r ∈ (ex.onTrade trade).2) :
    ∃ o, ex.orders[r.orderId]? = some o ∧ o.state.isFillable = true ∧
      makerSide trade.side = some o.order.side ∧ trade.price = o.order.price ∧
      r = o.fillReport ex.queueModel trade := by
  cases hside : makerSide trade.side with
  | none =>
    unfold onTrade at hr
    rw [hside] at hr
    cases hr
  | some side =>
    rw [(onTrade_eq h hside).2] at hr
    obtain ⟨n, hn, hreport⟩ := List.mem_filterMap.1 hr
    obtain ⟨o, ho, hoffer⟩ := Option.bind_eq_some_iff.1 hreport
    have hat : o.order.price = trade.price ∧ o.order.side = side := by
      simpa [isAt, getOrder, ho] using (List.mem_filter.1 hn).2
    rcases offer_cases ex.queueModel trade o with ⟨-, heq⟩ | ⟨-, heq⟩ | ⟨-, hstate, -, heq⟩
    · rw [heq] at hoffer
      cases hoffer
    · rw [heq] at hoffer
      cases hoffer
    · rw [heq] at hoffer
      obtain rfl := Option.some.inj hoffer
      have hid : (o.fillReport ex.queueModel trade).orderId = n := h.orderId ho
      exact ⟨o, hid ▸ ho, hstate, congrArg some hat.2.symm, hat.1.symm, rfl⟩

/-- The books of a venue that replays its arrivals, and the last trade among them, give the
quote. -/
theorem marketLevel_eq {kinds : List EventKind} (hbook : ex.book = .follow (l2UpdatesIn kinds))
    (hnone : ex.bookL3 = none → l3UpdatesIn kinds = [])
    (hsome : ∀ book, ex.bookL3 = some book → book = .follow (l3UpdatesIn kinds)) (side : Side) :
    ex.marketLevel side ((tradesIn kinds).getLast?.map (·.price)) = quoteAfter kinds side := by
  have hl3 : ∀ {best : OrderBookL3 → Option (ℤ × ℤ)}, best (.follow []) = none →
      ex.bookL3.bind best = best (.follow (l3UpdatesIn kinds)) := by
    intro best hempty
    cases hbookL3 : ex.bookL3 with
    | none =>
      rw [hnone hbookL3, hempty]
      rfl
    | some book =>
      rw [hsome book hbookL3]
      rfl
  have hbid : ex.bookL3.bind (·.bestBid) = OrderBookL3.bestBid _ := hl3 OrderBookL3.best_nil.1
  have hask : ex.bookL3.bind (·.bestAsk) = OrderBookL3.bestAsk _ := hl3 OrderBookL3.best_nil.2
  unfold marketLevel quoteAfter
  rw [hbid, hask, hbook, Option.map_map]
  rfl

end ExchangeSimulator

namespace Core

variable {c c' c'' : Core Q S L R} {P : TradeFill → Prop}

/-- A fill of a resting order by a trade. -/
structure MakerFill (c : Core Q S L R) (trade : Tick) (o : LiveOrder (QueueModel.State Q))
    (f : TradeFill) :
    Prop where
  stored : (c.exchange trade.symbolId).orders[f.orderId]? = some o
  fillable : o.state.isFillable = true
  against : ExchangeSimulator.makerSide trade.side = some o.order.side
  price : trade.price = o.order.price
  eq : f = ⟨trade.tsExchange, o.order.orderId, trade.price, f.qty,
    computeFee trade.price f.qty c.config.makerFeeBps, o.order.symbolId, o.order.side, false⟩

/-- The fill of market order `n` at the exchange of `s` on its ACK. -/
structure TakerFill (c : Core Q S L R) (n s : ℕ) (o : LiveOrder (QueueModel.State Q))
    (available : ℤ) (f : TradeFill) : Prop where
  stored : (c.exchange s).orders[n]? = some o
  market : o.order.orderType = .market
  quote : (c.exchange s).marketLevel o.order.side (c.truthLastTradeBySymbol[s]?.map (·.price)) =
    some (f.price, available)
  eq : f = ⟨c.nowTsSim, o.order.orderId, f.price, min o.order.qty available,
    computeFee f.price (min o.order.qty available) c.config.takerFeeBps, o.order.symbolId,
      o.order.side, true⟩

/-- What the handler of an event may book. -/
def Books (c : Core Q S L R) : EventKind → TradeFill → Prop
  | .tick trade, f => 0 < f.qty ∧ ∃ o, c.MakerFill trade o f
  | .orderAck n, f => 0 < f.qty ∧ ∃ s o available, c.TakerFill n s o available f
  | _, _ => False

/-- Between `c` and `c'` only fills that satisfy `P` are booked. -/
def FillsOnly (P : TradeFill → Prop) (c c' : Core Q S L R) : Prop :=
  ∃ new, c'.effects = c.effects ++ new ∧ ∀ f ∈ filledIn new, P f

namespace FillsOnly

theorem of_eq (heffects : c'.effects = c.effects) : FillsOnly P c c' :=
  ⟨[], by simp [heffects], by simp [filledIn]⟩

theorem trans (h : FillsOnly P c c') (h' : FillsOnly P c' c'') : FillsOnly P c c'' := by
  obtain ⟨new, heq, hnew⟩ := h
  obtain ⟨new', heq', hnew'⟩ := h'
  refine ⟨new ++ new', by rw [heq', heq, List.append_assoc], fun f hf => ?_⟩
  rw [filledIn_append] at hf
  exact (List.mem_append.1 hf).elim (hnew f) (hnew' f)

theorem of_steady (h : Steady c c') : FillsOnly P c c' := by
  obtain ⟨new, heq, hnew⟩ := h.effects
  refine ⟨new, heq, fun f hf => ?_⟩
  rw [filledIn_eq_nil fun x hx => (hnew x hx).1] at hf
  cases hf

end FillsOnly

theorem fillsOnly_onTickEvent [Strategy S] {trade : Tick} {ids : List ℕ}
    (hindexed : (c.exchange trade.symbolId).Indexed ids) :
    FillsOnly (c.Books (.tick trade)) c (c.onTickEvent trade).1 := by
  have hfills : ∀ f ∈ (makerFills ((c.exchange trade.symbolId).onTrade trade).1 trade.tsExchange
      c.config.makerFeeBps ((c.exchange trade.symbolId).onTrade trade).2).map Prod.snd,
      c.Books (.tick trade) f := by
    intro f hf
    obtain ⟨⟨order, f⟩, hmem, rfl⟩ := List.mem_map.1 hf
    obtain ⟨r, hr, hsome⟩ := List.mem_filterMap.1 hmem
    split_ifs at hsome with hpos
    obtain ⟨order', horder, heq⟩ := Option.map_eq_some_iff.1 hsome
    obtain ⟨rfl, rfl⟩ := Prod.mk.inj heq
    obtain ⟨o, ho, hstate, hside, hprice, hreport⟩ :=
      ExchangeSimulator.offered_of_report hindexed hr
    have hown : order' = o.order := by
      rw [ExchangeSimulator.getOrder_onTrade, ExchangeSimulator.getOrder, ho] at horder
      exact (Option.some.inj horder).symm
    refine ⟨hpos, o, ho, hstate, hside, hprice, ?_⟩
    rw [hown, hreport]
    rfl
  unfold onTickEvent
  dsimp only
  have hsame : (c.observeTrade trade).exchange trade.symbolId = c.exchange trade.symbolId := rfl
  rw [hsame]
  generalize ((c.exchange trade.symbolId).onTrade trade).1 = ex at hfills ⊢
  generalize ((c.exchange trade.symbolId).onTrade trade).2 = rs at hfills ⊢
  obtain ⟨-, -, -, heffects⟩ :=
    bookTrade_cases ((c.observeTrade trade).putExchange trade.symbolId ex) trade ex rs
  refine ⟨_, heffects.trans (List.append_assoc _ _ _), fun f hf => hfills f ?_⟩
  rw [filledIn_append, filledIn_fills, filledIn_eq_nil (l := List.flatMap _ _),
    List.append_nil] at hf
  · exact hf
  · intro x hx
    obtain ⟨r, -, hx⟩ := List.mem_flatMap.1 hx
    exact (Steady.pushEffects _ _ _ _ 0 (fun _ => 0) x hx).1

theorem fillsOnly_fillMarket {n s : ℕ} {o : LiveOrder (QueueModel.State Q)}
    (ho : (c.exchange s).orders[n]? = some o) (hmarket : o.order.orderType = .market)
    (hP : ∀ available f, 0 < f.qty → c.TakerFill n s o available f → P f) :
    FillsOnly P c (c.fillMarket n s) := by
  have hget : (c.exchange s).getOrder n = some o.order := by
    rw [ExchangeSimulator.getOrder, ho]
    rfl
  unfold fillMarket
  dsimp only
  split
  · exact .of_eq rfl
  · next report ex heq =>
    have hfill : 0 < report.lastFillQty →
        P (tradeFill c.nowTsSim true c.config.takerFeeBps o.order report) := by
      intro hpos
      simp only [ExchangeSimulator.fillMarketImmediately, ho, Option.map_some,
        Option.some.injEq] at heq
      split at heq
      · next price available hlevel =>
        obtain rfl := (Prod.mk.inj heq).1
        exact hP available _ hpos ⟨ho, hmarket, hlevel, rfl⟩
      · obtain rfl := (Prod.mk.inj heq).1
        exact absurd hpos (lt_irrefl 0)
    have hreport : FillsOnly P c ((c.putExchange s ex).reportMarket (some o.order) report) := by
      refine .trans ?_ (.of_steady ((Steady.refl _).pushAfterSat _ _ _))
      unfold bookTakerFill
      dsimp only
      split_ifs with hpos
      · refine ⟨[.filled (tradeFill c.nowTsSim true c.config.takerFeeBps o.order report)], rfl,
          fun f hf => ?_⟩
        obtain rfl : f = _ := List.mem_singleton.1 hf
        exact hfill hpos
      · exact .of_eq rfl
    rw [hget]
    split_ifs
    · exact hreport.trans (.of_steady (steady_cancelRest _ n s))
    · exact hreport

theorem fillsOnly_onOrderAck [Strategy S] (n : ℕ) :
    FillsOnly (c.Books (.orderAck n)) c (c.onOrderAck n).1 := by
  unfold onOrderAck
  split
  · exact .of_eq rfl
  · next s hs =>
    have hsame : (c.exchangeMut s).exchange s = c.exchange s := exchange_exchangeMut c s
    dsimp only
    split
    · next htype =>
      obtain ⟨order, hget, hmarket⟩ := Option.map_eq_some_iff.1 htype
      obtain ⟨o, ho, rfl⟩ := Option.map_eq_some_iff.1 hget
      refine .trans (.of_eq rfl) (fillsOnly_fillMarket ho hmarket fun available f hpos h => ?_)
      exact ⟨hpos, s, o, available, hsame ▸ h.stored, h.market, hsame ▸ h.quote, h.eq⟩
    · split
      · exact .of_eq rfl
      · next report ex heq =>
        have hput : FillsOnly (c.Books (.orderAck n)) c ((c.exchangeMut s).putExchange s ex) :=
          .of_eq rfl
        exact hput.trans (.of_steady ((Steady.refl _).pushAfterSat _ _ _))

/-- The handlers of the other events book no fills. -/
theorem fillsOnly_handle [Strategy S] [LatencyModel L R]
    (hindexed : ∀ s, ∃ ids, (c.exchange s).Indexed ids) (kind : EventKind) :
    FillsOnly (c.Books kind) c (c.handle kind).1 := by
  cases kind with
  | tick trade =>
    obtain ⟨ids, hids⟩ := hindexed trade.symbolId
    exact fillsOnly_onTickEvent hids
  | tickDelivery tick => exact .of_steady (steady_onTickDelivery c tick)
  | l2Update update => exact .of_steady (steady_onL2Update c update)
  | l3Update update => exact .of_steady (steady_onL3Update c update)
  | order order =>
    have hput : FillsOnly (c.Books (.order order)) c
        (c.putExchange order.symbolId ((c.exchange order.symbolId).submitOrder order)) := .of_eq rfl
    refine hput.trans (.of_steady (Steady.pushAfterSat ?_ _ _ _))
    exact (steady_sampleOrderLatency _).append [.orderLatency order.orderId _] rfl rfl rfl rfl
      (by simp [Effect.fill, Effect.Vetted])
  | orderAck n => exact fillsOnly_onOrderAck n
  | orderCancel n => exact .of_steady (steady_onOrderCancel c n)
  | orderCancelAck n => exact .of_steady (steady_onOrderCancelAck c n)
  | orderReport report => exact .of_steady (steady_onOrderReport c report)
  | funding event => exact .of_steady (steady_onFunding c event)
  | timer timerId => exact .of_steady (steady_onTimer c timerId)

/-! ### The last trade -/

theorem lastTrade_post {T : Ledger Q} {entry : Entry} (h : ∀ tick, entry ≠ .observeTrade tick) :
    (T.post entry).truthLastTradeBySymbol = T.truthLastTradeBySymbol := by
  cases entry with
  | observeTrade tick => exact absurd rfl (h tick)
  | book s ts fills =>
    obtain ⟨account, tradeLog, riskGuard, heq⟩ := T.book_frame ts fills
    simp only [Ledger.post, heq]
  | fund event =>
    simp only [Ledger.post]
    split <;> rfl
  | _ => rfl

theorem lastTrade_of_commanded {T T' : Ledger Q} {new : List Effect}
    (h : Ledger.Commanded T new T') :
    T'.truthLastTradeBySymbol = T.truthLastTradeBySymbol := by
  obtain ⟨entries, hentries, rfl⟩ := h.entries
  refine List.foldlRecOn entries Ledger.post
    (motive := fun T' : Ledger Q => T'.truthLastTradeBySymbol = T.truthLastTradeBySymbol) rfl
      fun T' hT' entry hmem => ?_
  obtain ⟨ts, order, rfl⟩ := hentries entry hmem
  exact hT'

/-- The last trade of a symbol is the last one that was worked on. -/
theorem lastTrade_handle [Strategy S] [LatencyModel L R] (hfiled : c.ledger.Filed)
    (kind : EventKind) (s : ℕ) :
    (c.handle kind).1.truthLastTradeBySymbol[s]? =
      (tradesIn ([kind].filter (EventKind.arrivesAt s))).getLast?.or
        c.truthLastTradeBySymbol[s]? := by
  have hother : (∀ trade, kind ≠ .tick trade) → (c.handle kind).1.truthLastTradeBySymbol[s]? =
      (tradesIn ([kind].filter (EventKind.arrivesAt s))).getLast?.or
        c.truthLastTradeBySymbol[s]? := by
    intro hkind
    have hnone : tradesIn ([kind].filter (EventKind.arrivesAt s)) = [] := by
      refine List.filterMap_eq_nil_iff.2 fun kind' hmem => ?_
      obtain rfl := List.mem_singleton.1 (List.mem_of_mem_filter hmem)
      cases kind' <;> first | rfl | exact absurd rfl (hkind _)
    rw [hnone]
    obtain ⟨new, -, hturned⟩ := turns_handle hfiled kind
    obtain ⟨entries, hentries, heq⟩ := hturned.entries
    have hsame : (c.handle kind).1.ledger.truthLastTradeBySymbol =
        c.ledger.truthLastTradeBySymbol := by
      rw [heq]
      refine List.foldlRecOn entries Ledger.post
        (motive := fun T : Ledger Q => T.truthLastTradeBySymbol = c.ledger.truthLastTradeBySymbol)
          rfl
        fun T hT entry hmem => (lastTrade_post fun tick htick => ?_).trans hT
      rcases hentries entry hmem with hsuits | ⟨ts, order, rfl⟩
      · rw [htick] at hsuits
        exact hkind tick hsuits
      · cases htick
    exact congrArg (fun m => m[s]?) hsame
  cases kind with
  | tick trade =>
    have hledger : (c.handle (.tick trade)).1.ledger.truthLastTradeBySymbol =
        (c.observeTrade trade).truthLastTradeBySymbol := by
      simp only [handle, onTickEvent]
      rw [ledger_bookTrade _ _ _ _ trade.symbolId]
      exact lastTrade_post (by simp)
    change (c.handle (.tick trade)).1.ledger.truthLastTradeBySymbol[s]? = _
    rw [hledger, observeTrade, ExtTreeMap.getElem?_insert, List.filter_singleton]
    by_cases hs : trade.symbolId = s
    · simp [EventKind.arrivesAt, tradesIn, hs]
    · simp [EventKind.arrivesAt, tradesIn, hs]
  | _ => exact hother (by simp)

end Core

/-! ## Runs -/

namespace Engine

variable {T U : Type} {e e' e₀ : Engine T U Q S L R}

theorem filledIn_flush [Strategy S] (e : Engine T U Q S L R) :
    ∃ new, e.flush.1.trace = e.trace ++ new ∧ filledIn new = [] := by
  have hsteady : Core.Steady e.core.cleared (e.core.cleared.flushStrategy e.core.nowTsSim).1 :=
    (Core.Steady.refl _).flushStrategy _
  obtain ⟨new, heq, hnew⟩ := hsteady.effects
  refine ⟨new, ?_, filledIn_eq_nil fun x hx => (hnew x hx).1⟩
  rw [← List.nil_append new]
  exact heq ▸ trace_absorb e _

/-- A turn fills what its handler fills. -/
theorem filledIn_dispatch [Strategy S] [LatencyModel L R] (e : Engine T U Q S L R) (event : Event) :
    ∃ new, (e.dispatch event).1.trace = e.trace ++ .popped event e.core.activeBatchTimerId :: new ∧
      poppedIn EventKind.any new = [] ∧
      filledIn new = filledIn
        ((e.core.cleared.atTime event.tsSim).handle event.kind).1.effects := by
  let r := (e.core.cleared.atTime event.tsSim).handle event.kind
  have hfills : ∃ new, (e.dispatch event).1.trace =
    e.trace ++ .popped event e.core.activeBatchTimerId :: new ∧
      filledIn new = filledIn r.1.effects := by
    have htrace : (e.handleEvent event).1.trace =
        e.trace ++ .popped event e.core.activeBatchTimerId :: r.1.effects := by
      have habsorb := trace_absorb (e.log (.popped event e.core.activeBatchTimerId)) r.1
      rw [trace_log, List.append_assoc] at habsorb
      exact habsorb
    have hflush := filledIn_flush (e.handleEvent event).1
    unfold Engine.dispatch
    generalize e.handleEvent event = handled at htrace hflush
    obtain ⟨e', err | _ | wakeup⟩ := handled
    · exact ⟨_, htrace, rfl⟩
    · exact ⟨_, htrace, rfl⟩
    · obtain ⟨new, hflush, hnone⟩ := hflush
      have hboth : ∃ new, e'.flush.1.trace = e.trace ++ .popped event e.core.activeBatchTimerId ::
        new ∧
          filledIn new = filledIn r.1.effects := by
        refine ⟨r.1.effects ++ new, hflush.trans ?_, ?_⟩
        · exact htrace ▸ List.append_assoc _ (_ :: _) _
        · rw [filledIn_append, hnone, List.append_nil]
      change ∃ new, (e'.deferredFlush wakeup).1.trace = _ ∧ _
      unfold deferredFlush
      split_ifs
      · split
        · next heq => rwa [heq] at hboth
        · next heq => rwa [heq] at hboth
      · exact ⟨_, htrace, rfl⟩
      · exact ⟨_, htrace, rfl⟩
  obtain ⟨new, htrace, hnew⟩ := hfills
  obtain ⟨new', hworks, -⟩ := dispatch_spec e event
  have heq : new' = new := by
    have hsame : e.trace ++ [.popped event e.core.activeBatchTimerId] ++ new' =
        e.trace ++ [.popped event e.core.activeBatchTimerId] ++ new := by
      rw [List.append_assoc, List.append_assoc]
      exact (List.append_assoc _ _ _).symm.trans (hworks.trace.symm.trans htrace)
    exact List.append_cancel_left hsame
  exact ⟨new, htrace, heq ▸ hworks.poppedIn_eq_nil _, hnew⟩

/-- The engine knows the last trade of every symbol, and every fill so far is explained. -/
structure Sourced (e : Engine T U Q S L R) : Prop where
  last : ∀ s : ℕ, e.core.truthLastTradeBySymbol[s]? = (tradesIn (arrivalsAt s e.trace)).getLast?
  explained : Always (Effect.IsExplained e.core.config) e.trace

/-- Work that pops nothing and fills nothing. -/
theorem Sourced.frame (h : e.Sourced) {new : List Effect} (htrace : e'.trace = e.trace ++ new)
    (hpopped : poppedIn EventKind.any new = []) (hfills : filledIn new = [])
    (hlast : e'.core.truthLastTradeBySymbol = e.core.truthLastTradeBySymbol)
    (hconfig : e'.core.config = { e.core.config with maxBatchNs := e'.core.config.maxBatchNs }) :
    e'.Sourced := by
  have harrivals : ∀ s, arrivalsAt s new = [] := fun s => by
    rw [arrivalsAt, hpopped]
    rfl
  refine ⟨fun s => ?_, ?_⟩
  · rw [hlast, htrace, arrivalsAt_append, harrivals, List.append_nil]
    exact h.last s
  · rw [htrace]
    refine always_append (fun pre x post hsplit f hf => ?_) fun pre x post hsplit f hf => ?_
    · obtain ⟨hpos, o, haccepted, hexplained⟩ := h.explained pre x post hsplit f hf
      rw [hconfig]
      exact ⟨hpos, o, haccepted, hexplained.resize _⟩
    · have hmem : f ∈ filledIn new := by
        rw [mem_filledIn, hsplit, ← hf]
        exact List.mem_append_right _ List.mem_cons_self
      rw [hfills] at hmem
      cases hmem

theorem Phase.symbol_of_face {ph : Phase} {o : Order} {st : OrderState}
    (h : ph.face = some (o, st)) :
    ph.symbol = some o.symbolId := by
  cases ph <;> cases h <;> rfl

/-- The trace explains what the handler of an event books. -/
theorem explained_of_books [Strategy S] (h : e.Sourced) (htracked : e.Tracked)
    (hreplays : ∀ s, e.Replays s) {event : Event}
    {f : TradeFill} (hbooks : (e.core.cleared.atTime event.tsSim).Books event.kind f)
    {pre : List Effect}
    (hpre : poppedIn EventKind.any pre = poppedIn EventKind.any e.trace ++
      [(event.tsSim, event.kind)])
    (hgrows : e.trace <+: pre) : 0 < f.qty ∧ ∃ o, .accepted o ∈ pre ∧
      Explained e.core.config pre o f := by
  have hnow : (poppedIn EventKind.any pre).getLast? = some (event.tsSim, event.kind) := by
    rw [hpre, List.getLast?_append]
    rfl
  cases hkind : event.kind with
  | tick trade =>
    rw [hkind] at hbooks hnow
    obtain ⟨hpos, o, ho, hfillable, hagainst, hprice, heq⟩ := hbooks
    obtain ⟨ph, hin⟩ := htracked.inPhase f.orderId
    obtain ⟨haccepted, hid, hsymbol, hface⟩ := hin.accepted_of_stored ho
    obtain ⟨dt, rfl⟩ : ∃ dt, ph = .resting o.order dt o.state := by
      refine Core.resting_of_face hin.life hin.settled hface ?_ ?_
      · generalize o.state = st at hfillable
        cases st <;> first | rfl | cases hfillable
      · rintro hstate
        rw [hstate] at hfillable
        cases hfillable
    have hacked : ∃ tsAck, (tsAck, .orderAck o.order.orderId) ∈ poppedIn EventKind.any pre := by
      have hack : satAddI64 o.order.tsSubmit dt ∈ e.trace.filterMap (Life.ackOf f.orderId) := by
        rw [hin.life.ack_eq]
        exact List.mem_singleton_self _
      obtain ⟨x, hx, hsome⟩ := List.mem_filterMap.1 hack
      cases x with
      | popped acked activeTimer =>
        simp only [Life.ackOf] at hsome
        split_ifs at hsome with hk
        refine ⟨acked.tsSim, mem_poppedIn.2 ⟨rfl, acked, activeTimer, hgrows.subset hx, ?_⟩⟩
        rw [hk, hid]
      | _ => cases hsome
    obtain ⟨tsAck, hacked⟩ := hacked
    refine ⟨hpos, o.order, hgrows.subset haccepted,
      .maker hnow hacked hin.life.statuses.1 (Option.some.inj hsymbol).symm hagainst hprice ?_⟩
    rw [← hprice]
    exact heq
  | orderAck n =>
    rw [hkind] at hbooks hnow
    obtain ⟨hpos, s, o, available, ho, hmarket, hquote, heq⟩ := hbooks
    obtain ⟨ph, hin⟩ := htracked.inPhase n
    obtain ⟨haccepted, hid, hsymbol, hface⟩ := hin.accepted_of_stored ho
    obtain rfl : s = o.order.symbolId :=
      Option.some.inj (hsymbol.symm.trans (Phase.symbol_of_face hface))
    have harrivals : arrivalsAt o.order.symbolId pre = arrivalsAt o.order.symbolId e.trace := by
      rw [arrivalsAt, hpre, List.map_append, List.filter_append, arrivalsAt, hkind]
      exact List.append_nil _
    obtain ⟨hbook, hnone, hbookL3⟩ := (hreplays o.order.symbolId).books
    refine ⟨hpos, o.order, hgrows.subset haccepted, .taker (hid.symm ▸ hnow) hmarket ?_ heq⟩
    rw [harrivals, ← ExchangeSimulator.marketLevel_eq hbook hnone hbookL3, ← h.last]
    exact hquote
  | _ =>
    rw [hkind] at hbooks
    exact hbooks.elim

variable [TickSource T] [L3Source U] [Strategy S] [LatencyModel L R]

omit [TickSource T] [L3Source U] in
/-- An event is worked on. -/
theorem Sourced.dispatch (h : e.Sourced) (hfiled : e.core.ledger.Filed)
    (hindexed : ∀ s, ∃ ids, (e.core.exchange s).Indexed ids) (event : Event)
    (hbooked : ∀ f pre, (e.core.cleared.atTime event.tsSim).Books event.kind f →
      poppedIn EventKind.any pre = poppedIn EventKind.any e.trace ++ [(event.tsSim, event.kind)] →
      e.trace <+: pre → 0 < f.qty ∧ ∃ o, .accepted o ∈ pre ∧ Explained e.core.config pre o f)
    (hconfig : (e.dispatch event).1.core.config =
      { e.core.config with maxBatchNs := (e.dispatch event).1.core.config.maxBatchNs }) :
    (e.dispatch event).1.Sourced := by
  let c := e.core.cleared.atTime event.tsSim
  obtain ⟨new, hnew, hnone, hfilled⟩ := filledIn_dispatch e event
  have hnow : ∀ {pre : List Effect}, poppedIn EventKind.any pre = [] →
      poppedIn EventKind.any (e.trace ++ .popped event e.core.activeBatchTimerId :: pre) =
        poppedIn EventKind.any e.trace ++ [(event.tsSim, event.kind)] := by
    intro pre hpre
    rw [poppedIn_append]
    exact congrArg (poppedIn EventKind.any e.trace ++ (event.tsSim, event.kind) :: ·) hpre
  refine ⟨fun s => ?_, ?_⟩
  · obtain ⟨new', hcommanded⟩ := (dispatch_cases e event).1
    refine (congrArg (·[s]?) (Core.lastTrade_of_commanded hcommanded)).trans ?_
    refine (Core.lastTrade_handle (c := c) hfiled event.kind s).trans ?_
    rw [hnew, arrivalsAt, hnow hnone, List.map_append, List.filter_append, tradesIn_append,
      List.getLast?_append]
    exact congrArg (Option.or _) (h.last s)
  · rw [hnew]
    refine always_append ?_ fun pre x post hsplit f hf => ?_
    · rw [hconfig]
      exact h.explained.mono fun pre x hx f hf => (hx f hf).imp_right
        (Exists.imp fun o ho => ⟨ho.1, ho.2.resize _⟩)
    · obtain ⟨pre, rfl⟩ : ∃ pre', pre = .popped event e.core.activeBatchTimerId :: pre' := by
        cases pre with
        | nil => cases hf ▸ (List.cons.inj hsplit).1
        | cons y pre => exact ⟨pre, by rw [(List.cons.inj hsplit).1]⟩
      obtain rfl : new = pre ++ x :: post := (List.cons.inj hsplit).2
      have hbooks : c.Books event.kind f := by
        obtain ⟨booked, heffects, hbooks⟩ := Core.fillsOnly_handle (c := c) hindexed event.kind
        refine hbooks f ?_
        have hown : filledIn (pre ++ x :: post) = filledIn booked := by
          rw [hfilled, heffects]
          rfl
        rw [← hown, mem_filledIn, ← hf]
        exact List.mem_append_right _ List.mem_cons_self
      rw [poppedIn_append] at hnone
      obtain ⟨hpos, o, haccepted, hexplained⟩ := hbooked f _ hbooks
        (hnow (List.append_eq_nil_iff.1 hnone).1) (List.prefix_append _ _)
      rw [hconfig]
      exact ⟨hpos, o, haccepted, hexplained.resize _⟩

/-- A turn that works on no event fills nothing. -/
theorem turn_fills (e : Engine T U Q S L R) :
    (∃ new, e.turn.1.trace = e.trace ++ new ∧ poppedIn EventKind.any new = [] ∧ filledIn new = [] ∧
      ∃ commands, Ledger.Commanded e.core.ledger commands e.turn.1.core.ledger) ∨
    ∃ (e₁ : Engine T U Q S L R) (intake : List Effect) (event : Event), e₁.core = e.core ∧
      e₁.trace = e.trace ++ intake ∧ (∀ x ∈ intake, x.isIntake = true) ∧ filledIn intake = [] ∧
      e.turn = ((e₁.dispatch event).1, statusOf (e₁.dispatch event).2) := by
  obtain ⟨hcore, intake, htrace, hintake⟩ := e.ingest_frame (ε := Strategy.Error S)
  have hpopped := poppedIn_of_isIntake hintake EventKind.any
  have hfills : filledIn intake = [] := filledIn_eq_nil fun x hx => by
    have hx := hintake x hx
    cases x <;> first | rfl | cases hx
  obtain ⟨e₁, rfl, ⟨-, -, hturn | hturn⟩ | ⟨event, queue, -, -, -, hturn⟩⟩ := turn_pops e
  · rw [hturn, hcore]
    exact .inl ⟨intake, htrace, hpopped, hfills, [], .start⟩
  · obtain ⟨new, hnew, hnone⟩ := filledIn_flush (e.ingest (ε := Strategy.Error S)).1
    obtain ⟨new', hworks, -⟩ := flush_spec (e.ingest (ε := Strategy.Error S)).1
    obtain rfl : new' = new := List.append_cancel_left (hworks.trace.symm.trans hnew)
    obtain ⟨commands, -, hcommanded⟩ := commanded_flush (e.ingest (ε := Strategy.Error S)).1
    rw [hcore] at hcommanded
    refine .inl ⟨intake ++ new', by rw [hturn, hnew, htrace, List.append_assoc], ?_, ?_, commands,
      hturn ▸ hcommanded⟩
    · rw [poppedIn_append, hpopped, hworks.poppedIn_eq_nil]
      rfl
    · rw [filledIn_append, hfills, hnone]
      rfl
  · exact .inr ⟨(e.ingest (ε := Strategy.Error S)).1.withQueue queue, intake, event, hcore, htrace,
      hintake, hfills,
      hturn⟩

theorem Sourced.turn (h : e.Sourced) (htracked : e.Tracked) (hfiled : e.core.ledger.Filed)
    (hindexed : ∀ s, ∃ ids, (e.core.exchange s).Indexed ids) (hreplays : ∀ s, e.Replays s) :
    e.turn.1.Sourced := by
  have hconfig := e.config_turn
  rcases turn_fills e with ⟨new, htrace, hpopped, hfills, commands, hcommanded⟩ |
    ⟨e₁, intake, event, hcore, htrace, hintake, hfills, hturn⟩
  · exact h.frame htrace hpopped hfills (Core.lastTrade_of_commanded hcommanded) hconfig
  · have hpopped := poppedIn_of_isIntake hintake EventKind.any
    rw [hturn] at hconfig ⊢
    have h₁ : e₁.Sourced :=
      h.frame htrace hpopped hfills (congrArg Core.truthLastTradeBySymbol hcore) (by rw [hcore])
    refine h₁.dispatch (hcore ▸ hfiled) (hcore ▸ hindexed) event
      (fun f pre hbooks hpre hgrows => ?_)
      (hcore ▸ hconfig)
    rw [hcore] at hbooks ⊢
    rw [htrace, poppedIn_append, hpopped, List.append_nil] at hpre
    exact explained_of_books h htracked hreplays hbooks hpre
      ((htrace ▸ List.prefix_append _ _ : e.trace <+: e₁.trace).trans hgrows)

variable [SeedableRng R] {allowed : ℤ → EventKind → Prop}
  {st : Status (EngineError (Strategy.Error S))}

theorem Sourced.external (h : e.Sourced) (hext : External allowed e e') : e'.Sourced := by
  cases hext with
  | addTickSource source => exact h.frame (List.append_nil _).symm rfl rfl rfl rfl
  | addL3Source source => exact h.frame (List.append_nil _).symm rfl rfl rfl rfl
  | @pushEvent ts kind _ => exact h.frame (trace_pushEvent e ts kind) rfl rfl rfl rfl

theorem sourced (built : Built allowed e₀) (h : Reaches turn (External allowed) e₀ e st)
    (outside : ∀ ts kind, allowed ts kind → kind.isOrderEvent = false) : e.Sourced := by
  induction h with
  | start =>
    induction built with
    | new => exact ⟨fun s => by simp [Engine.new, arrivalsAt, tradesIn], always_nil⟩
    | external _ hext ih => exact ih.external hext
  | turn run ih =>
    refine ih.turn (tracked built run outside) ?_ (fun s => ?_) fun s => replays built run
      (by simp) s
    · exact (ledger_invariant (I := fun _ => True) built run (fun _ _ => trivial) fun _ _ _ _ _ =>
        trivial).1
    · obtain ⟨ex₀, ops, hnew, hmay, hex, -⟩ := (hosted built run outside s).session
      rw [hex]
      exact ⟨_, ExchangeSimulator.indexed_session hnew (hmay.mono fun _ _ h => h.1)⟩
  | env _ hext ih => exact ih.external hext

/-- Every fill of a run is explained by what came before it. -/
theorem fills_explained (built : Built allowed e₀) (h : Reaches turn (External allowed) e₀ e st)
    (outside : ∀ ts kind, allowed ts kind → kind.isOrderEvent = false) :
    Always (Effect.IsExplained e.core.config) e.trace :=
  (sourced built h outside).explained

/-- A limit order of two, filled by a trade of one. -/
theorem fills_explained_sample :
    let order : Order := ⟨0, 0, 0, 0, 100, 2, 1, .buy, .limit⟩
    let ticks : List Tick := [⟨1000, 0, 0, 100, 1, 1, .buy, 0⟩, ⟨1011, 0, 1, 100, 1, 1, .sell, 0⟩]
    let e₀ := sample { makerFeeBps := 10 } 10 [[.submitOrder order]] [ticks]
    let e := (runFor turn 12 e₀).1
    (filledIn e.trace).map TradeFill.tsExchange = [1011] ∧
      Always (Effect.IsExplained e.core.config) e.trace := by
  intro order ticks e₀ e
  have built : Built (fun _ _ => False) e₀ := .external (.new _ _ _ _ _) (.addTickSource ticks)
  have run : Reaches turn (External fun _ _ => False) e₀ e .finished :=
    reaches_of_runFor 12 (by decide +kernel)
  exact ⟨by decide +kernel, fills_explained built run fun _ _ h => h.elim⟩

end Engine

end Backtester
