import Backtester.Posting
import Backtester.Tracking

/-!
# Venues do not leak into each other

A turn posts entries about the symbol of its event only, and such an entry leaves the ledger of
every other symbol as it is (`Ledger.SameAt`). The events of an order have its id only; the registry
knows its symbol, and what it knows is the symbol that was accepted under the id, since every order
is in some phase of its life.
-/

open Run Std

set_option linter.unusedSectionVars false

namespace Backtester

/-- The symbol of the order that was accepted under the id `n`. -/
def acceptedSymbol (l : List Effect) (n : ℕ) : Option ℕ :=
  (l.filterMap (Life.acceptedAs n)).head?.map (·.symbolId)

/-- The symbol an event is about, given what was accepted before it. -/
def EventKind.about (l : List Effect) : EventKind → Option ℕ
  | tick t | tickDelivery t => some t.symbolId
  | l2Update update => some update.symbolId
  | l3Update update => some update.symbolId
  | order o => some o.symbolId
  | orderAck n | orderCancel n | orderCancelAck n => acceptedSymbol l n
  | orderReport r => acceptedSymbol l r.orderId
  | funding event => some event.symbolId
  | timer _ => none

namespace Account

/-- A fill changes the position of its symbol only. -/
theorem positions_onFill {account : Account} {order : Order} {a : ℕ} (ha : order.symbolId ≠ a)
    (fillQty fillPrice : ℤ) :
    (account.onFill order fillQty fillPrice).1.positions[a]? = account.positions[a]? := by
  simp only [onFill]
  split_ifs <;> simp [ExtTreeMap.getElem?_insert, ha]

theorem positions_applyFunding {account : Account} {event : FundingEvent} {a : ℕ}
    (ha : event.symbolId ≠ a) (markPrice : ℤ) :
    (account.applyFunding event markPrice).1.positions[a]? = account.positions[a]? := by
  unfold applyFunding
  split
  · rfl
  · split_ifs
    · rfl
    · simp [ExtTreeMap.getElem?_insert, ha]

end Account

namespace Ledger

variable {Q : Type} [QueueModel Q] {L L' L'' : Ledger Q} {new : List Effect}
  {kind : EventKind} {t : ℤ} {registry : ExtTreeMap ℕ ℕ} {a : ℕ}

/-- Nothing of the symbol `a` has changed. -/
structure SameAt (a : ℕ) (L L' : Ledger Q) : Prop where
  exchange : L'.exchanges[a]? = L.exchanges[a]?
  position : L'.account.positions[a]? = L.account.positions[a]?
  truthLastTrade : L'.truthLastTradeBySymbol[a]? = L.truthLastTradeBySymbol[a]?
  lastTrade : L'.market.lastTrade a = L.market.lastTrade a

namespace SameAt

theorem refl (L : Ledger Q) : SameAt a L L := ⟨rfl, rfl, rfl, rfl⟩

theorem trans (h : SameAt a L L') (h' : SameAt a L' L'') : SameAt a L L'' :=
  ⟨h'.exchange.trans h.exchange, h'.position.trans h.position,
    h'.truthLastTrade.trans h.truthLastTrade, h'.lastTrade.trans h.lastTrade⟩

theorem putExchange {s : ℕ} (hs : s ≠ a) (L : Ledger Q) (ex : ExchangeSimulator Q) :
    SameAt a L (L.putExchange s ex) :=
  ⟨by simp [Ledger.putExchange, ExtTreeMap.getElem?_insert, hs], rfl, rfl, rfl⟩

/-- Booking fills of another symbol. -/
theorem book {s : ℕ} {ts : ℤ} {fills : List (Order × TradeFill)} (hs : s ≠ a)
    (hfills : ∀ f ∈ fills, IsFill s ts f) (L : Ledger Q) :
    SameAt a L (L.post (.book s ts fills)) := by
  have hlog : SameAt a L (fills.foldl logFill L) :=
    List.foldlRecOn fills logFill (motive := SameAt a L) (refl L) fun L' h f _ =>
      h.trans ⟨rfl, rfl, rfl, rfl⟩
  refine List.foldlRecOn fills (settle ts) (motive := SameAt a L) hlog fun L' h f hf => h.trans ?_
  have hsymbol : f.1.symbolId ≠ a := (hfills f hf).order ▸ hs
  exact ⟨rfl, Account.positions_onFill hsymbol _ _, rfl, rfl⟩

/-- An entry of an event about another symbol. -/
theorem post (ha : kind.symbolIn registry ≠ some a) {entry : Entry}
    (hsuits : entry.Suits kind t (kind.symbolIn registry)) (L : Ledger Q) :
    SameAt a L (L.post entry) := by
  have hne : ∀ s, kind.symbolIn registry = some s → s ≠ a := fun s hs heq => ha (heq ▸ hs)
  cases entry with
  | exchangeMut s => exact putExchange (hne s hsuits) L _
  | perform s op => exact putExchange (hne s hsuits.1) L _
  | book s ts fills => exact book (hne s hsuits.1) hsuits.2.2 L
  | fund event =>
    have hs : event.symbolId ≠ a := hne _ (by rw [show kind = .funding event from hsuits]; rfl)
    simp only [Ledger.post]
    split
    · exact refl L
    · exact ⟨rfl, Account.positions_applyFunding hs _, rfl, rfl⟩
  | observeTrade tick =>
    have hs : tick.symbolId ≠ a := hne _ (by rw [show kind = .tick tick from hsuits]; rfl)
    exact ⟨rfl, rfl, by simp [Ledger.post, ExtTreeMap.getElem?_insert, hs], rfl⟩
  | observeDelivery tick =>
    have hs : tick.symbolId ≠ a := hne _ (by rw [show kind = .tickDelivery tick from hsuits]; rfl)
    exact ⟨rfl, rfl, rfl, by simp [Ledger.post, MarketView.lastTrade_onTickDelivery, hs]⟩
  | submit ts order => exact hsuits.elim
  | _ => exact ⟨rfl, rfl, rfl, rfl⟩

end SameAt

/-- A turn of an event about another symbol. -/
theorem Turned.sameAt (h : Turned (Entry.Suits kind t (kind.symbolIn registry)) L new L')
    (ha : kind.symbolIn registry ≠ some a) : SameAt a L L' := by
  obtain ⟨entries, hentries, rfl⟩ := h.entries
  refine List.foldlRecOn entries Ledger.post (motive := SameAt a L) (.refl L) fun L' h entry hmem =>
    h.trans ?_
  rcases hentries entry hmem with hsuits | ⟨ts, order, rfl⟩
  · exact .post ha hsuits L'
  · exact ⟨rfl, rfl, rfl, rfl⟩

end Ledger

namespace Engine

variable {T U Q S L R : Type} [QueueModel Q] [TickSource T] [L3Source U] [Strategy S]
  [LatencyModel L R] {e e₀ : Engine T U Q S L R} {st : Status (EngineError (Strategy.Error S))}
  {allowed : ℤ → EventKind → Prop} {a : ℕ}

/-- The registry knows the symbols of accepted orders only. -/
theorem Tracked.symbol_of_registry (h : e.Tracked) {n s : ℕ}
    (hs : e.core.orderSymbolById[n]? = some s) :
    acceptedSymbol e.trace n = some s := by
  obtain ⟨ph, hin⟩ := h.inPhase n
  have hsymbol := hin.stage.registry.symm.trans hs
  rw [acceptedSymbol, hin.life.accepted_eq]
  cases ph <;> simp_all [Phase.symbol, Phase.accepted]

theorem Tracked.symbolIn_ne (h : e.Tracked) {kind : EventKind} (ha : kind.about e.trace ≠ some a) :
    kind.symbolIn e.core.orderSymbolById ≠ some a := by
  intro hs
  refine ha ?_
  cases kind with
  | orderAck n | orderCancel n | orderCancelAck n => exact h.symbol_of_registry hs
  | orderReport r => exact h.symbol_of_registry hs
  | _ => exact hs

/-- A turn leaves the exchange, the position, the last trade and the last delivered trade of a
symbol as they are, unless it pops an event about that symbol. -/
theorem venues_isolated [SeedableRng R] (built : Built allowed e₀)
    (h : Reaches turn (External allowed) e₀ e st)
    (outside : ∀ ts kind, allowed ts kind → kind.isOrderEvent = false) {new : List Effect}
    (turned : e.turn.1.trace = e.trace ++ new)
    (other : ∀ x ∈ poppedIn EventKind.any new, x.2.about e.trace ≠ some a) :
    e.turn.1.core.exchanges[a]? = e.core.exchanges[a]? ∧
      e.turn.1.core.account.positions[a]? = e.core.account.positions[a]? ∧
      e.turn.1.core.truthLastTradeBySymbol[a]? = e.core.truthLastTradeBySymbol[a]? ∧
      e.turn.1.core.market.lastTrade a = e.core.market.lastTrade a := by
  have htracked := tracked built h outside
  obtain ⟨hfiled, -⟩ := ledger_invariant (I := fun _ => True) built h (fun _ _ => trivial)
    fun _ _ _ _ _ => trivial
  have hsame : Ledger.SameAt a e.core.ledger e.turn.1.core.ledger := by
    obtain ⟨new', htrace, hcases⟩ := turned_turn hfiled
    obtain rfl := List.append_cancel_left (turned.symm.trans htrace)
    rcases hcases with ⟨-, hcommanded⟩ | ⟨event, hpopped, hturned⟩
    · -- the strategy alone, as after a timer
      exact (hcommanded.turned : Ledger.Turned (Entry.Suits (.timer 0) 0
        ((EventKind.timer 0).symbolIn ∅)) _ _ _).sameAt (by simp [EventKind.symbolIn])
    · have hother := other (event.tsSim, event.kind)
        (by rw [hpopped]; exact List.mem_singleton_self _)
      exact hturned.sameAt (htracked.symbolIn_ne hother)
  exact ⟨hsame.exchange, hsame.position, hsame.truthLastTrade, hsame.lastTrade⟩

/-- A trade of symbol 1 fills the order that rests there, and leaves alone the order, the last trade
and the position of symbol 2. -/
theorem venues_isolated_sample :
    let here : Order := ⟨0, 0, 0, 0, 200, 1, 1, .buy, .limit⟩
    let there : Order := ⟨0, 0, 0, 0, 100, 1, 2, .buy, .limit⟩
    let first : Tick := ⟨1000, 0, 0, 100, 1, 2, .buy, 0⟩
    let second : Tick := ⟨2000, 0, 1, 200, 1, 1, .sell, 0⟩
    let e := (runFor turn 10 (sample {} 10 [[.submitOrder here, .submitOrder there]]
      [[first, second]])).1
    e.queue.peek.map (fun event => (event.tsSim, event.kind)) = some (2000, .tick second) ∧
      e.core.account.positionQty 1 = 0 ∧ e.turn.1.core.account.positionQty 1 = 1 ∧
      ((e.turn.1.core.exchange 2).orders[2]?).map LiveOrder.state = some .open ∧
      e.turn.1.core.exchanges[2]? = e.core.exchanges[2]? ∧
      e.turn.1.core.account.positions[2]? = e.core.account.positions[2]? ∧
      e.turn.1.core.truthLastTradeBySymbol[2]? = some first := by
  intro here there first second e
  let e₀ : Sample := sample {} 10 [[.submitOrder here, .submitOrder there]] [[first, second]]
  have built : Built (fun _ kind => kind.isOrderEvent = false) e₀ :=
    .external (.new _ _ _ _ _) (.addTickSource [first, second])
  have run : Reaches turn (External fun _ kind => kind.isOrderEvent = false) e₀ e
      (runFor turn 10 e₀).2 := reaches_runFor e₀ 10
  obtain ⟨hfiled, -⟩ := ledger_invariant (I := fun _ => True) built run (fun _ _ => trivial)
    fun _ _ _ _ _ => trivial
  obtain ⟨new, turned, -⟩ := turned_turn hfiled
  have hpopped : poppedIn EventKind.any new = [(2000, .tick second)] := by
    have happend : poppedIn EventKind.any e.turn.1.trace =
        poppedIn EventKind.any e.trace ++ [(2000, .tick second)] := by decide +kernel
    rw [turned, poppedIn_append] at happend
    exact List.append_cancel_left happend
  have hlast : e.core.truthLastTradeBySymbol[2]? = some first := by decide +kernel
  obtain ⟨hexchange, hposition, htruth, -⟩ :=
    venues_isolated (a := 2) built run (fun _ _ h => h) turned
      (by rw [hpopped]; simp [EventKind.about, second])
  exact ⟨by decide +kernel, by decide +kernel, by decide +kernel, by decide +kernel, hexchange,
    hposition,
    htruth.trans hlast⟩

end Engine

end Backtester
