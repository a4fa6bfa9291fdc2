import Backtester.Turns
import Backtester.VenueQueue

/-!
# Depth modes

An exchange is made in L2 or in L3 mode by the first event that touches it, and keeps its mode
(`Core.Touches`). It is made in L3 mode when its symbol is marked by then, and only the symbols of
L3 updates and of L3 sources are marked. So an L3 update finds an L3 book if and only if no other
event touched the exchange before the mark (`Engine.OpensMarked`). Mixed updates find the mark of
the other kind, which is never taken back.
-/

open Run Std

set_option linter.unusedSectionVars false

namespace Backtester

/-- The symbol whose exchange an event touches : there the exchange is made if it is not there
yet. -/
def EventKind.touched (registry : ExtTreeMap ℕ ℕ) : EventKind → Option ℕ
  | tick t => some t.symbolId
  | l2Update update => some update.symbolId
  | l3Update update => some update.symbolId
  | order o => some o.symbolId
  | orderAck n | orderCancel n | orderCancelAck n => registry[n]?
  | orderReport r => if r.status.isTerminal then registry[r.orderId]? else none
  | tickDelivery _ | funding _ | timer _ => none

variable {Q : Type} [QueueModel Q]

namespace ExchangeSimulator

/-- No call changes the mode of an exchange. -/
theorem isL3_perform (ex : ExchangeSimulator Q) (op : ExchangeOp) :
    (ex.perform op).1.bookL3.isSome = ex.bookL3.isSome := by
  have htarget : ∀ m, op.target = some m → (ex.perform op).1.bookL3.isSome = ex.bookL3.isSome := by
    intro m hm
    rcases ex.perform_target hm with heq | ⟨o, o', rs, -, -, heq⟩
    · rw [heq]
    · rw [heq]
      rfl
  cases op with
  | applyL3Update update =>
    simp only [perform, applyL3Update]
    split
    · rfl
    · split <;> simp_all
  | removeOrder n =>
    simp only [perform, removeOrder]
    split <;> rfl
  | onTrade trade =>
    simp only [perform, onTrade]
    split <;> rfl
  | submitOrder order => rfl
  | applyL2Update update => rfl
  | _ => exact htarget _ rfl

theorem applyL3Update_of_book {ex : ExchangeSimulator Q} {update : L3Update}
    {book book' : OrderBookL3}
    (hbook : ex.bookL3 = some book) (happly : book.applyL3 update = .ok book') :
    (ex.applyL3Update update).1.bookL3 = some book' ∧ (ex.applyL3Update update).2 = .ok () := by
  simp only [applyL3Update, hbook, happly, and_self]

theorem applyL3Update_of_none {ex : ExchangeSimulator Q} {update : L3Update}
    (hbook : ex.bookL3 = none) :
    (ex.applyL3Update update).2 = .error "exchange is not in L3 depth mode" := by
  simp only [applyL3Update, hbook]

end ExchangeSimulator

namespace Core

variable {S L R : Type} {c c' c'' : Core Q S L R} {s : ℕ} {symbol : Option ℕ}

/-- Whether the exchange of a symbol is in L3 mode, if it is there. -/
def depthMode (c : Core Q S L R) (s : ℕ) : Option Bool := c.exchanges[s]?.map (·.bookL3.isSome)

theorem isL3_exchange (c : Core Q S L R) (s : ℕ) :
    (c.exchange s).bookL3.isSome = (c.depthMode s).getD (decide (s ∈ c.l3DepthSymbols)) := by
  unfold exchange depthMode
  cases c.exchanges[s]? with
  | some ex => rfl
  | none =>
    by_cases hs : s ∈ c.l3DepthSymbols
    · simp [hs, ExchangeSimulator.newL3]
    · simp [hs, ExchangeSimulator.new]

/-- `c'` comes from `c` by work that touches at most one exchange. It is there afterwards, in the
mode it had or was to be made in. -/
structure Touches (symbol : Option ℕ) (c c' : Core Q S L R) : Prop where
  touched : ∀ s, symbol = some s → c'.depthMode s = some (c.exchange s).bookL3.isSome
  aside : ∀ s, symbol ≠ some s → c'.depthMode s = c.depthMode s

theorem depthMode_putExchange (c : Core Q S L R) (s s' : ℕ) (ex : ExchangeSimulator Q) :
    (c.putExchange s ex).depthMode s' =
      if s = s' then some ex.bookL3.isSome else c.depthMode s' := by
  simp only [depthMode, putExchange, ExtTreeMap.getElem?_insert, Std.compare_eq_iff_eq]
  split_ifs <;> rfl

namespace Touches

theorem refl (c : Core Q S L R) : Touches none c c := ⟨by simp, fun _ _ => rfl⟩

/-- Work that leaves the exchanges as they are. -/
theorem frame (h : Touches symbol c c') (hex : c''.exchanges = c'.exchanges) :
    Touches symbol c c'' := by
  have hmode : c''.depthMode = c'.depthMode := by
    unfold depthMode
    rw [hex]
  exact ⟨fun s hs => hmode ▸ h.touched s hs, fun s hs => hmode ▸ h.aside s hs⟩

theorem aside_none (h : Touches none c c') : c'.depthMode = c.depthMode :=
  funext fun s => h.aside s (by simp)

/-- The exchange of `s` is put back. -/
theorem put (h : Touches none c c') {ex : ExchangeSimulator Q}
    (hmode : ex.bookL3.isSome = (c.exchange s).bookL3.isSome) :
    Touches (some s) c (c'.putExchange s ex) := by
  refine ⟨fun s' hs => ?_, fun s' hs => ?_⟩
  · rw [depthMode_putExchange, if_pos (Option.some.inj hs), hmode, Option.some.inj hs]
  · rw [depthMode_putExchange, if_neg fun heq => hs (congrArg some heq), h.aside s' (by simp)]

theorem isL3 (h : Touches (some s) c c') :
    (c'.exchange s).bookL3.isSome = (c.exchange s).bookL3.isSome := by
  rw [isL3_exchange, h.touched s rfl, Option.getD_some]

/-- An operation on the exchange that was touched before. -/
theorem perform (h : Touches (some s) c c') {op : ExchangeOp} {ex : ExchangeSimulator Q}
    (hex : ((c'.exchange s).perform op).1 = ex) : Touches (some s) c (c'.putExchange s ex) := by
  have hmode : ex.bookL3.isSome = (c.exchange s).bookL3.isSome := by
    rw [← hex, ExchangeSimulator.isL3_perform, h.isL3]
  refine ⟨fun s' hs => ?_, fun s' hs => ?_⟩
  · rw [depthMode_putExchange, if_pos (Option.some.inj hs), hmode, Option.some.inj hs]
  · rw [depthMode_putExchange, if_neg fun heq => hs (congrArg some heq), h.aside s' hs]

theorem exchangeMut (c : Core Q S L R) (s : ℕ) : Touches (some s) c (c.exchangeMut s) :=
  (Touches.refl c).put rfl

end Touches

/-! ## The handlers -/

variable [Strategy S]

theorem touches_onTickEvent (tick : Tick) :
    Touches (some tick.symbolId) c (c.onTickEvent tick).1 := by
  have hobserve : Touches none c (c.observeTrade tick) := (Touches.refl c).frame rfl
  refine (hobserve.put ?_).frame (bookTrade_cases _ _ _ _).2.1
  exact (c.exchange tick.symbolId).isL3_perform (.onTrade tick)

theorem touches_onOrder [LatencyModel L R] (order : Order) :
    Touches (some order.symbolId) c (c.onOrder order).1 :=
  have hput : Touches (some order.symbolId) c
      (c.putExchange order.symbolId ((c.exchange order.symbolId).submitOrder order)) :=
    (Touches.refl c).put rfl
  hput.frame (exchanges_pushAfterSat ..)

theorem touches_cancelRest (h : Touches (some s) c c') (n : ℕ) :
    Touches (some s) c (c'.cancelRest n s) := by
  unfold cancelRest
  split
  · exact h
  · next report ex heq =>
    have hperform : ((c'.exchange s).perform (.forceCancelPartialFill n)).1 = ex := by
      simp only [ExchangeSimulator.perform, heq]
    exact (h.perform hperform).frame (exchanges_pushAfterSat ..)

theorem touches_fillMarket (h : Touches (some s) c c') (n : ℕ) :
    Touches (some s) c (c'.fillMarket n s) := by
  unfold fillMarket
  dsimp only
  split
  · exact h
  · next report ex heq =>
    have hperform : ((c'.exchange s).perform (.fillMarketImmediately n
        (c'.truthLastTradeBySymbol[s]?.map (·.price)))).1 = ex := by
      simp only [ExchangeSimulator.perform, heq]
    have hreport := (h.perform hperform).frame
      (exchanges_reportMarket ((c'.exchange s).getOrder n) report)
    split_ifs
    · exact touches_cancelRest hreport n
    · exact hreport

theorem touches_onOrderAck (n : ℕ) : Touches c.orderSymbolById[n]? c (c.onOrderAck n).1 := by
  unfold onOrderAck
  split
  · next hs => exact hs ▸ .refl c
  · next s hs =>
    rw [hs]
    have hmut := Touches.exchangeMut c s
    dsimp only
    split
    · exact touches_fillMarket hmut n
    · split
      · exact hmut
      · next report ex heq =>
        have hperform : (((c.exchangeMut s).exchange s).perform (.ackNew n)).1 = ex := by
          simp only [ExchangeSimulator.perform, heq]
        exact (hmut.perform hperform).frame (exchanges_pushAfterSat ..)

theorem touches_onOrderCancel [LatencyModel L R] (n : ℕ) :
    Touches c.orderSymbolById[n]? c (c.onOrderCancel n).1 := by
  unfold onOrderCancel
  split
  · next hs => exact hs ▸ .refl c
  · next s hs =>
    rw [hs]
    have hmut := Touches.exchangeMut c s
    dsimp only
    split
    · exact hmut
    · next ex heq =>
      have hperform : (((c.exchangeMut s).exchange s).perform (.cancelOrder n)).1 = ex := by
        simp only [ExchangeSimulator.perform, heq]
      exact (hmut.perform hperform).frame (exchanges_pushAfterSat ..)

theorem touches_onOrderCancelAck (n : ℕ) :
    Touches c.orderSymbolById[n]? c (c.onOrderCancelAck n).1 := by
  unfold onOrderCancelAck
  split
  · next hs => exact hs ▸ .refl c
  · next s hs =>
    rw [hs]
    have hmut := Touches.exchangeMut c s
    dsimp only
    split
    · exact hmut
    · next report ex heq =>
      have hperform : (((c.exchangeMut s).exchange s).perform (.ackCancel n)).1 = ex := by
        simp only [ExchangeSimulator.perform, heq]
      exact (hmut.perform hperform).frame (exchanges_pushAfter ..)

theorem touches_forget (report : OrderReport) :
    Touches ((EventKind.orderReport report).touched c.orderSymbolById) c (c.forget report) := by
  change Touches (if report.status.isTerminal then _ else _) c _
  unfold forget
  split_ifs
  · split
    · next hs => exact hs ▸ .refl c
    · next s hs =>
      rw [hs]
      have hput : Touches (some s) c
          (c.putExchange s ((c.exchange s).removeOrder report.orderId)) :=
        (Touches.refl c).put ((c.exchange s).isL3_perform (.removeOrder report.orderId))
      exact hput.frame rfl
  · exact .refl c

/-- An event other than a depth update touches one exchange at most. -/
theorem touches_handle [LatencyModel L R] (c : Core Q S L R) {kind : EventKind}
    (hl2 : ∀ update, kind ≠ .l2Update update) (hl3 : ∀ update, kind ≠ .l3Update update) :
    Touches (kind.touched c.orderSymbolById) c (c.handle kind).1 := by
  cases kind with
  | tick tick => exact touches_onTickEvent tick
  | tickDelivery tick =>
    refine (Touches.refl c).frame ?_
    simp only [handle, onTickDelivery]
    split
    · exact exchanges_speaks (c := c.observeDelivery tick) (speaks_wake ..)
    · split_ifs
      · exact exchanges_pushAfter ..
      · rfl
  | l2Update update => exact absurd rfl (hl2 update)
  | l3Update update => exact absurd rfl (hl3 update)
  | order order => exact touches_onOrder order
  | orderAck n => exact touches_onOrderAck n
  | orderCancel n => exact touches_onOrderCancel n
  | orderCancelAck n => exact touches_onOrderCancelAck n
  | orderReport report =>
    refine (touches_forget report).frame ?_
    simp only [handle, onOrderReport]
    split
    · exact exchanges_speaks (speaks_wake ..)
    · rfl
  | funding event =>
    refine (Touches.refl c).frame ((exchanges_speaks (speaks_wake ..)).trans ?_)
    unfold applyFunding
    dsimp only
    split <;> rfl
  | timer timerId =>
    refine (Touches.refl c).frame ?_
    simp only [handle, onTimer]
    split_ifs <;> rfl

/-- The exchange stays out of L2 mode if and only if it was not in it, and is marked when it is
made. -/
theorem Touches.isL3_iff (h : Touches symbol c c') (s : ℕ) :
    c'.depthMode s ≠ some false ↔ c.depthMode s ≠ some false ∧
      (symbol = some s → c.depthMode s = none → s ∈ c.l3DepthSymbols) := by
  by_cases hs : symbol = some s
  · rw [h.touched s hs, isL3_exchange]
    cases hmode : c.depthMode s with
    | none => simp [hs]
    | some b => simp
  · rw [h.aside s hs]
    simp [hs]

/-- Only depth updates mark symbols. -/
theorem marks_handle [LatencyModel L R] (hfiled : c.ledger.Filed) {kind : EventKind}
    (hl2 : ∀ update, kind ≠ .l2Update update) (hl3 : ∀ update, kind ≠ .l3Update update) :
    (c.handle kind).1.l2DepthSymbols = c.l2DepthSymbols ∧
      (c.handle kind).1.l3DepthSymbols = c.l3DepthSymbols := by
  obtain ⟨new, -, hturned⟩ := turns_handle hfiled kind
  obtain ⟨entries, hentries, heq⟩ := hturned.entries
  have hmarks : (entries.foldl Ledger.post c.ledger).l2DepthSymbols = c.ledger.l2DepthSymbols ∧
      (entries.foldl Ledger.post c.ledger).l3DepthSymbols = c.ledger.l3DepthSymbols := by
    refine List.foldlRecOn entries Ledger.post (motive := fun (L : Ledger Q) =>
      L.l2DepthSymbols = c.ledger.l2DepthSymbols ∧ L.l3DepthSymbols = c.ledger.l3DepthSymbols)
      ⟨rfl, rfl⟩ ?_
    intro L h entry hmem
    cases entry with
    | markL2Depth s =>
      rcases hentries _ hmem with ⟨update, hkind, -⟩ | ⟨ts, order, hsubmit⟩
      · exact absurd hkind (hl2 update)
      · cases hsubmit
    | markL3Depth s =>
      rcases hentries _ hmem with ⟨update, hkind, -⟩ | ⟨ts, order, hsubmit⟩
      · exact absurd hkind (hl3 update)
      · cases hsubmit
    | book s ts fills =>
      obtain ⟨account, tradeLog, riskGuard, heq⟩ := L.book_frame ts fills
      rw [Ledger.post, heq]
      exact h
    | fund event =>
      simp only [Ledger.post]
      split
      · exact h
      · exact h
    | _ => exact h
  rw [← heq] at hmarks
  exact hmarks

/-- What an L2 update leaves : an error, or the symbol marked and its exchange touched. -/
theorem touches_onL2Update {update : L2Update} (hl3 : update.symbolId ∉ c.l3DepthSymbols) :
    Touches (some update.symbolId) c (c.onL2Update update).1 := by
  rw [onL2Update_eq hl3]
  exact ((Touches.refl c).frame (rfl : (c.markL2Depth update.symbolId).exchanges = _)).put rfl

/-- An L3 update makes the exchange in L3 mode if it is not there yet. -/
theorem depthMode_onL3Update {update : L3Update} (hl2 : update.symbolId ∉ c.l2DepthSymbols)
    (s : ℕ) :
    (c.onL3Update update).1.depthMode s =
      if update.symbolId = s then some ((c.depthMode s).getD true) else c.depthMode s := by
  have hmode := ((c.markL3Depth update.symbolId).exchange update.symbolId).isL3_perform
    (.applyL3Update update)
  have hmarked : update.symbolId ∈ (c.markL3Depth update.symbolId).l3DepthSymbols :=
    Finset.mem_insert_self ..
  rw [isL3_exchange, decide_eq_true hmarked] at hmode
  rw [onL3Update_eq hl2, depthMode_putExchange]
  split_ifs with hs
  · exact hs ▸ congrArg some hmode
  · rfl

/-- The book that a well-formed L3 update meets takes it, an empty one if there is none yet. -/
theorem onL3Update_of_l3 {update : L3Update} (hl2 : update.symbolId ∉ c.l2DepthSymbols)
    (hwell : update.WellFormed) (hmode : c.depthMode update.symbolId ≠ some false) :
    ∃ book, ((c.exchanges[update.symbolId]?.bind (·.bookL3)).getD {}).applyL3 update = .ok book ∧
      (c.onL3Update update).1.exchanges[update.symbolId]?.bind (·.bookL3) = some book ∧
      (c.onL3Update update).2 = .next false := by
  let before := (c.exchanges[update.symbolId]?.bind (·.bookL3)).getD {}
  have hmarked : update.symbolId ∈ (c.markL3Depth update.symbolId).l3DepthSymbols :=
    Finset.mem_insert_self ..
  have hbefore : ((c.markL3Depth update.symbolId).exchange update.symbolId).bookL3 =
      some before := by
    unfold exchange
    rw [if_pos hmarked]
    change (c.exchanges[update.symbolId]?.getD _).bookL3 = some before
    unfold depthMode at hmode
    cases hex : c.exchanges[update.symbolId]? with
    | none => simp [before, hex, ExchangeSimulator.newL3]
    | some ex =>
      cases hbook : ex.bookL3 with
      | none => simp [hex, hbook] at hmode
      | some book => simp [before, hex, hbook]
  obtain ⟨book, happly⟩ := hwell.applies before
  obtain ⟨hbook, hok⟩ := ExchangeSimulator.applyL3Update_of_book hbefore happly
  refine ⟨book, happly, ?_, ?_⟩
  · rw [onL3Update_eq hl2]
    simpa [putExchange] using hbook
  · rw [onL3Update_eq hl2, hok]
    rfl

/-- An exchange in L2 mode rejects the update. -/
theorem onL3Update_of_l2 {update : L3Update} (hl2 : update.symbolId ∉ c.l2DepthSymbols)
    (hmode : c.depthMode update.symbolId = some false) : (c.onL3Update update).2 =
      .fail (.internal (.l3Rejected "exchange is not in L3 depth mode")) := by
  have hnone : ((c.markL3Depth update.symbolId).exchange update.symbolId).bookL3 = none := by
    have hL3 := (c.markL3Depth update.symbolId).isL3_exchange update.symbolId
    rw [show (c.markL3Depth update.symbolId).depthMode = c.depthMode from rfl, hmode] at hL3
    simpa using hL3
  rw [onL3Update_eq hl2, ExchangeSimulator.applyL3Update_of_none hnone]
  rfl

/-- A handler that does not fail marks the symbol of a depth update. -/
theorem marks_of_ok [LatencyModel L R] (hfiled : c.ledger.Filed) {kind : EventKind}
    (hok : ∀ err, (c.handle kind).2 ≠ .fail err) :
    (∀ s, s ∈ (c.handle kind).1.l2DepthSymbols ↔
      s ∈ c.l2DepthSymbols ∨ ∃ update, kind = .l2Update update ∧ update.symbolId = s) ∧
    ∀ s, s ∈ (c.handle kind).1.l3DepthSymbols ↔
      s ∈ c.l3DepthSymbols ∨ ∃ update, kind = .l3Update update ∧ update.symbolId = s := by
  have hinsert : ∀ (marks : Finset ℕ) (a s : ℕ), s ∈ insert a marks ↔ s ∈ marks ∨ a = s := by
    simp [or_comm, eq_comm]
  by_cases hkind₂ : ∃ update, kind = .l2Update update
  · obtain ⟨update, rfl⟩ := hkind₂
    have hmixed : update.symbolId ∉ c.l3DepthSymbols := fun hmem =>
      hok _ (by rw [Core.handle, Core.onL2Update_mixed hmem])
    rw [Core.handle, Core.onL2Update_eq hmixed]
    refine ⟨fun s => (hinsert _ _ _).trans ?_, fun s => ?_⟩
    · simp
    · change s ∈ c.l3DepthSymbols ↔ _
      simp
  · by_cases hkind₃ : ∃ update, kind = .l3Update update
    · obtain ⟨update, rfl⟩ := hkind₃
      have hmixed : update.symbolId ∉ c.l2DepthSymbols := fun hmem =>
        hok _ (by rw [Core.handle, Core.onL3Update_mixed hmem])
      rw [Core.handle, Core.onL3Update_eq hmixed]
      refine ⟨fun s => ?_, fun s => (hinsert _ _ _).trans ?_⟩
      · change s ∈ c.l2DepthSymbols ↔ _
        simp
      · simp
    · obtain ⟨heq₂, heq₃⟩ := marks_handle hfiled (not_exists.1 hkind₂) (not_exists.1 hkind₃)
      rw [heq₂, heq₃]
      refine ⟨fun s => ?_, fun s => ?_⟩
      · simp [not_exists.1 hkind₂]
      · simp [not_exists.1 hkind₃]

end Core

/-! ## Turns -/

namespace Engine

variable {T U S L R : Type} [Strategy S] [LatencyModel L R] {e e₀ e₁ : Engine T U Q S L R} {a : ℕ}
  {ts : ℤ} {kind : EventKind}

variable [TickSource T] [L3Source U]

/-- A turn that touches the exchange of `a` for the first time finds `a` marked, or marks it. -/
def OpensMarked (a : ℕ) (e : Engine T U Q S L R) : Prop :=
  ∀ ts kind, e.Pops ts kind → kind.touched e.core.orderSymbolById = some a →
    e.core.exchanges[a]? = none → a ∈ e.core.l3DepthSymbols ∨ ∃ update, kind = .l3Update update

/-- A turn leaves the exchange of `a` out of L2 mode if and only if it was not in it and was opened
marked. -/
theorem isL3_turn (e : Engine T U Q S L R) (a : ℕ) : e.turn.1.core.depthMode a ≠ some false ↔
    e.core.depthMode a ≠ some false ∧ OpensMarked a e := by
  rcases pops_cases e with ⟨hnone, -, new, hcommanded⟩ | ⟨e₁, event, hcore, hpops, -, hturn⟩
  · have hmode : e.turn.1.core.depthMode = e.core.depthMode :=
      ((Core.Touches.refl e.core).frame hcommanded.frame.1).aside_none
    rw [hmode]
    exact (and_iff_left fun ts kind hpop => absurd hpop (hnone ts kind)).symm
  · let c := e₁.core.cleared.atTime event.tsSim
    have hmode : e.turn.1.core.depthMode = (c.handle event.kind).1.depthMode := by
      obtain ⟨⟨new, hcommanded⟩, -⟩ := dispatch_cases e₁ event
      rw [hturn]
      exact ((Core.Touches.refl (c.handle event.kind).1).frame hcommanded.frame.1).aside_none
    have hmode₀ : c.depthMode = e.core.depthMode := by rw [← hcore]; rfl
    have hl3₀ : c.l3DepthSymbols = e.core.l3DepthSymbols := by rw [← hcore]; rfl
    have hopens : OpensMarked a e ↔ (event.kind.touched c.orderSymbolById = some a →
        c.depthMode a = none → a ∈ c.l3DepthSymbols ∨ ∃ update, event.kind = .l3Update update) := by
      rw [hmode₀, hl3₀, Core.depthMode, Option.map_eq_none_iff]
      have hregistry : c.orderSymbolById = e.core.orderSymbolById := by rw [← hcore]; rfl
      rw [hregistry]
      constructor
      · exact fun h => h _ _ ((hpops _ _).2 rfl)
      · intro h ts kind hpop
        obtain ⟨rfl, rfl⟩ := Prod.mk.inj ((hpops ts kind).1 hpop)
        exact h
    rw [hmode, hopens, ← hmode₀]
    clear hopens hmode hmode₀ hl3₀
    by_cases hl2 : ∃ update, event.kind = .l2Update update
    · obtain ⟨update, hkind⟩ := hl2
      rw [hkind]
      by_cases hl3 : update.symbolId ∈ c.l3DepthSymbols
      · rw [Core.handle, Core.onL2Update_mixed hl3]
        refine (and_iff_left fun htouched _ => .inl ?_).symm
        exact Option.some.inj htouched ▸ hl3
      · refine ((Core.touches_onL2Update hl3).isL3_iff a).trans ?_
        simp [EventKind.touched]
    · by_cases hl3 : ∃ update, event.kind = .l3Update update
      · obtain ⟨update, hkind⟩ := hl3
        rw [hkind, and_iff_left fun _ _ => .inr ⟨update, rfl⟩, Core.handle]
        by_cases hl2 : update.symbolId ∈ c.l2DepthSymbols
        · rw [Core.onL3Update_mixed hl2]
        · rw [Core.depthMode_onL3Update hl2]
          split_ifs
          · cases c.depthMode a <;> simp
          · rfl
      · refine ((Core.touches_handle c (not_exists.1 hl2) (not_exists.1 hl3)).isL3_iff a).trans ?_
        simp [not_exists.1 hl3]

/-! ## Marks -/

/-- The L2 marks are the symbols of the L2 updates so far, and the symbols of the L3 updates have L3
marks. -/
structure Marked (e : Engine T U Q S L R) : Prop where
  l2 : ∀ s, s ∈ e.core.l2DepthSymbols ↔
    ∃ ts update, (ts, .l2Update update) ∈ poppedIn EventKind.any e.trace ∧ update.symbolId = s
  l3 : ∀ ts update, (ts, .l3Update update) ∈ poppedIn EventKind.any e.trace →
    update.symbolId ∈ e.core.l3DepthSymbols

/-- A turn that does not fail marks the symbol of the update it pops. -/
theorem Marked.turn (h : e.Marked) (hfiled : e.core.ledger.Filed) (hrunning : e.turn.2 = .running) :
    e.turn.1.Marked := by
  rcases pops_cases e with ⟨-, hpopped, new, hcommanded⟩ | ⟨e₁, event, hcore, -, hpopped, hturn⟩
  · have hl2 : e.turn.1.core.l2DepthSymbols = e.core.l2DepthSymbols := hcommanded.frame.2.1
    have hl3 : e.turn.1.core.l3DepthSymbols = e.core.l3DepthSymbols := hcommanded.frame.2.2
    refine ⟨fun s => ?_, fun ts update hmem => ?_⟩
    · rw [hpopped, hl2]
      exact h.l2 s
    · rw [hpopped] at hmem
      rw [hl3]
      exact h.l3 ts update hmem
  · let c := e₁.core.cleared.atTime event.tsSim
    obtain ⟨⟨new, hcommanded⟩, hflow⟩ := dispatch_cases e₁ event
    have hok : ∀ err, (c.handle event.kind).2 ≠ .fail err := by
      rcases hflow with ⟨err, -, hfail⟩ | ⟨hok, -⟩
      · rw [hturn, hfail] at hrunning
        cases hrunning
      · exact hok
    obtain ⟨hmarks₂, hmarks₃⟩ := Core.marks_of_ok (c := c)
      (show e₁.core.ledger.Filed from hcore ▸ hfiled) hok
    have hl2 : ∀ s, s ∈ e.turn.1.core.l2DepthSymbols ↔ s ∈ e.core.l2DepthSymbols ∨
        ∃ update, event.kind = .l2Update update ∧ update.symbolId = s := by
      have heq : (e₁.dispatch event).1.core.l2DepthSymbols =
          (c.handle event.kind).1.l2DepthSymbols :=
        hcommanded.frame.2.1
      intro s
      rw [hturn, ← hcore, heq]
      exact hmarks₂ s
    have hl3 : ∀ s, s ∈ e.turn.1.core.l3DepthSymbols ↔ s ∈ e.core.l3DepthSymbols ∨
        ∃ update, event.kind = .l3Update update ∧ update.symbolId = s := by
      have heq : (e₁.dispatch event).1.core.l3DepthSymbols =
          (c.handle event.kind).1.l3DepthSymbols :=
        hcommanded.frame.2.2
      intro s
      rw [hturn, ← hcore, heq]
      exact hmarks₃ s
    refine ⟨fun s => ?_, fun ts update hmem => ?_⟩
    · rw [hl2, h.l2, hpopped]
      simp only [List.mem_append, List.mem_singleton, Prod.mk.injEq]
      constructor
      · rintro (⟨ts, update, hmem, hs⟩ | ⟨update, hkind, hs⟩)
        · exact ⟨ts, update, .inl hmem, hs⟩
        · exact ⟨event.tsSim, update, .inr ⟨rfl, hkind.symm⟩, hs⟩
      · rintro ⟨ts, update, hmem | ⟨-, hkind⟩, hs⟩
        · exact .inl ⟨ts, update, hmem, hs⟩
        · exact .inr ⟨update, hkind.symm, hs⟩
    · rw [hpopped] at hmem
      rw [hl3]
      rcases List.mem_append.1 hmem with hmem | hmem
      · exact .inl (h.l3 ts update hmem)
      · obtain ⟨-, hkind⟩ := Prod.mk.inj (List.mem_singleton.1 hmem)
        exact .inr ⟨update, hkind.symm, rfl⟩

/-- In every state from which a run goes on the marks are those of its updates. -/
theorem marked [SeedableRng R] {allowed : ℤ → EventKind → Prop} (built : Built allowed e₀)
    (h : Reaches turn (External allowed) e₀ e .running) : e.Marked := by
  have hexternal : ∀ e e' : Engine T U Q S L R, e.Marked → External allowed e e' → e'.Marked := by
    rintro e e' ⟨hl2, hl3⟩ hext
    have hpush : ∀ ts kind, poppedIn EventKind.any (e.pushEvent ts kind).trace =
        poppedIn EventKind.any e.trace := by
      intro ts kind
      rw [trace_pushEvent, poppedIn_append]
      exact List.append_nil _
    cases hext with
    | addTickSource source => exact ⟨hl2, hl3⟩
    | addL3Source source =>
      exact ⟨hl2, fun ts update hmem => Finset.mem_insert_of_mem (hl3 ts update hmem)⟩
    | pushEvent hallowed =>
      refine ⟨fun s => ?_, fun ts update hmem => ?_⟩
      · rw [hpush]
        exact hl2 s
      · rw [hpush] at hmem
        exact hl3 ts update hmem
  refine h.running rfl ?_ (fun e ht hmarked hrunning => ?_) hexternal
  · clear h
    induction built with
    | new => exact ⟨by simp [Engine.new], by simp [Engine.new]⟩
    | external _ hext ih => exact hexternal _ _ ih hext
  · obtain ⟨hfiled, -⟩ := ledger_invariant (I := fun _ => True) built ht (fun _ _ => trivial)
      fun _ _ _ _ _ => trivial
    exact hmarked.turn hfiled hrunning

/-! ## L3 updates -/

/-- The next turn applies an L3 update to the book of its symbol, an empty one if there is none yet,
and does not fail. -/
structure AppliesL3 (e : Engine T U Q S L R) (update : L3Update) : Prop where
  book : ∃ book, ((e.core.exchanges[update.symbolId]?.bind (·.bookL3)).getD {}).applyL3 update =
    .ok book ∧
    e.turn.1.core.exchanges[update.symbolId]?.bind (·.bookL3) = some book
  ok : ∀ fault, e.turn.2 ≠ .failed (.internal fault)

/-- A well-formed L3 update without L2 updates is applied unless it finds an exchange in L2 mode. -/
theorem appliesL3_iff {update : L3Update} (hpops : e.Pops ts (.l3Update update))
    (hwell : update.WellFormed) (hl2 : update.symbolId ∉ e.core.l2DepthSymbols) :
    e.AppliesL3 update ↔ e.core.depthMode update.symbolId ≠ some false := by
  rcases pops_cases e with ⟨hnone, -⟩ | ⟨e₁, event, hcore, hpopsIff, -, hturn⟩
  · exact absurd hpops (hnone _ _)
  obtain ⟨-, hkind⟩ := Prod.mk.inj ((hpopsIff _ _).1 hpops)
  let c := e₁.core.cleared.atTime event.tsSim
  have hl2 : update.symbolId ∉ c.l2DepthSymbols := by
    change update.symbolId ∉ e₁.core.l2DepthSymbols
    rwa [hcore]
  have hmode : c.depthMode = e.core.depthMode := by rw [← hcore]; rfl
  have hexchanges : c.exchanges = e.core.exchanges := by rw [← hcore]; rfl
  obtain ⟨⟨new, hcommanded⟩, hflow⟩ := dispatch_cases e₁ event
  rw [← hkind] at hcommanded hflow
  have hafter : e.turn.1.core.exchanges = (c.onL3Update update).1.exchanges := by
    rw [hturn]
    exact hcommanded.frame.1
  constructor
  · rintro ⟨-, hok⟩ hl2mode
    have hfail := Core.onL3Update_of_l2 hl2 (hmode ▸ hl2mode)
    rcases hflow with ⟨err, herr, hdispatch⟩ | ⟨hnext, -⟩
    · obtain rfl := Flow.fail.inj (hfail.symm.trans herr)
      exact hok _ (by rw [hturn, hdispatch]; rfl)
    · exact hnext _ hfail
  · intro hl3mode
    obtain ⟨book, happly, hbook, hnext⟩ := Core.onL3Update_of_l3 hl2 hwell (hmode ▸ hl3mode)
    refine ⟨⟨book, hexchanges ▸ happly, hafter ▸ hbook⟩, fun fault hfault => ?_⟩
    rcases hflow with ⟨err, herr, -⟩ | ⟨-, hstrategy⟩
    · cases hnext.symm.trans herr
    · rw [hturn] at hfault
      obtain ⟨err', herr'⟩ := hstrategy _ (statusOf_eq_failed.1 hfault)
      cases herr'

variable [SeedableRng R] {allowed : ℤ → EventKind → Prop}

/-- Depth modes. A well-formed L3 update of a symbol without L2 updates is applied to its L3 book
without error if and only if the run got there by turns that opened the exchange of the symbol
marked. And an update that comes after one of the other kind of the same symbol always fails. -/
theorem depth_modes (built : Built allowed e₀) (h : Reaches turn (External allowed) e₀ e .running) :
    (∀ ts update, e.Pops ts (.l3Update update) → update.WellFormed →
      (∀ ts' update', (ts', .l2Update update') ∈ poppedIn EventKind.any e.trace →
        update'.symbolId ≠ update.symbolId) →
      (e.AppliesL3 update ↔
        ReachesWhile (OpensMarked update.symbolId) turn (External allowed) e₀ e .running)) ∧
    (∀ ts update ts' update', e.Pops ts (.l2Update update) →
      (ts', .l3Update update') ∈ poppedIn EventKind.any e.trace →
        update'.symbolId = update.symbolId →
      e.turn.2 = .failed (.internal (.mixedDepth update.symbolId))) ∧
    ∀ ts update ts' update', e.Pops ts (.l3Update update) →
      (ts', .l2Update update') ∈ poppedIn EventKind.any e.trace →
        update'.symbolId = update.symbolId →
      e.turn.2 = .failed (.internal (.mixedDepth update.symbolId)) := by
  have hmarked := marked built h
  have hfails : ∀ ts kind fault, e.Pops ts kind → (∀ c : Core Q S L R,
      c.l2DepthSymbols = e.core.l2DepthSymbols → c.l3DepthSymbols = e.core.l3DepthSymbols →
        (c.handle kind).2 = .fail (.internal fault)) → e.turn.2 = .failed (.internal fault) := by
    intro ts kind fault hpops hfail
    rcases pops_cases e with ⟨hnone, -⟩ | ⟨e₁, event, hcore, hpopsIff, -, hturn⟩
    · exact absurd hpops (hnone _ _)
    obtain ⟨-, rfl⟩ := Prod.mk.inj ((hpopsIff _ _).1 hpops)
    obtain ⟨-, ⟨err, herr, hdispatch⟩ | ⟨hnext, -⟩⟩ := dispatch_cases e₁ event
    · have hcause := hfail (e₁.core.cleared.atTime event.tsSim) (by rw [← hcore]; rfl)
        (by rw [← hcore]; rfl)
      obtain rfl := Flow.fail.inj (hcause.symm.trans herr)
      rw [hturn, hdispatch]
      rfl
    · exact absurd (hfail _ (by rw [← hcore]; rfl) (by rw [← hcore]; rfl)) (hnext _)
  refine ⟨?_, ?_, ?_⟩
  · intro ts update hpops hwell hno
    have hl2 : update.symbolId ∉ e.core.l2DepthSymbols := by
      rintro hmem
      obtain ⟨ts', update', hmem', hs⟩ := (hmarked.l2 _).1 hmem
      exact hno ts' update' hmem' hs
    rw [appliesL3_iff hpops hwell hl2]
    refine (h.while_iff (I := fun e => e.core.depthMode update.symbolId ≠ some false) ?_
      (fun e _ => isL3_turn e _) ?_).symm
    · clear h hpops hl2 hno hmarked hfails
      induction built with
      | new => simp [Engine.new, Core.depthMode]
      | external _ hext ih =>
        cases hext <;> exact ih
    · intro e e' hext
      cases hext <;> exact Iff.rfl
  · intro ts update ts' update' hpops hmem hs
    refine hfails ts _ _ hpops fun c _ hl3 => ?_
    rw [Core.handle, Core.onL2Update_mixed (hl3 ▸ hs ▸ hmarked.l3 ts' update' hmem)]
  · intro ts update ts' update' hpops hmem hs
    refine hfails ts _ _ hpops fun c hl2 _ => ?_
    rw [Core.handle, Core.onL3Update_mixed (hl2 ▸ (hmarked.l2 _).2 ⟨ts', update', hmem, hs⟩)]

/-- A trade between two L3 updates. -/
theorem depth_modes_sample :
    let first : L3Update := ⟨1000, 0, 1, 7, 100, 2, .buy, l3Add⟩
    let tick : Tick := ⟨1500, 1500, 0, 100, 1, 1, .sell, 0⟩
    let second : L3Update := ⟨2000, 1, 1, 8, 100, 3, .buy, l3Add⟩
    let e₀ : Sample := (((sample {} 0 [] []).pushEvent 1000 (.l3Update first)).pushEvent 1500
      (.tick tick)).pushEvent 2000 (.l3Update second)
    e₀.turn.1.turn.1.AppliesL3 second := by
  intro first tick second e₀
  have built : Built (fun _ _ => True) e₀ :=
    .external (.external (.external (.new _ _ _ _ _) (.pushEvent trivial)) (.pushEvent trivial))
      (.pushEvent trivial)
  have hfirst : OpensMarked 1 e₀ := by
    intro ts kind hpops _ _
    have hpopped : poppedIn EventKind.any e₀.turn.1.trace = [(1000, .l3Update first)] := by
      decide +kernel
    have hkind := pops_iff.1 hpops
    rw [hpopped] at hkind
    exact .inr ⟨first, (Prod.mk.inj (List.singleton_inj.1 hkind)).2.symm⟩
  have hopen : OpensMarked 1 e₀.turn.1 := by
    intro ts kind _ _ hnone
    have hsome : (e₀.turn.1.core.exchanges[1]?).isSome = true := by decide +kernel
    rw [hnone] at hsome
    cases hsome
  have hrun : ReachesWhile (OpensMarked 1) turn (External fun _ _ => True) e₀ e₀.turn.1
      e₀.turn.2 := ReachesWhile.start.turn hfirst
  have hrun' : ReachesWhile (OpensMarked 1) turn (External fun _ _ => True) e₀ e₀.turn.1.turn.1
      e₀.turn.1.turn.2 := by
    rw [show e₀.turn.2 = .running by decide +kernel] at hrun
    exact hrun.turn hopen
  rw [show e₀.turn.1.turn.2 = .running by decide +kernel] at hrun'
  refine ((depth_modes built hrun'.reaches).1 2000 second (pops_iff.2 (by decide +kernel))
    ⟨.inl rfl, .inl ⟨rfl, by decide⟩⟩ ?_).2 hrun'
  intro ts update hmem
  have hpopped : poppedIn EventKind.any e₀.turn.1.turn.1.trace =
      [(1000, .l3Update first), (1500, .tick tick)] := by decide +kernel
  rw [hpopped] at hmem
  simp at hmem

/-- After a trade the first L3 update of a symbol is rejected, though no L2 update came. -/
theorem depth_mode_fixed_by_trade :
    let tick : Tick := ⟨1000, 1000, 0, 100, 1, 1, .sell, 0⟩
    let update : L3Update := ⟨2000, 0, 1, 7, 100, 2, .buy, l3Add⟩
    let e₀ : Sample :=
      ((sample {} 0 [] []).pushEvent 1000 (.tick tick)).pushEvent 2000 (.l3Update update)
    Built (fun _ _ => True) e₀ ∧ e₀.turn.2 = .running ∧ e₀.turn.1.Pops 2000 (.l3Update update) ∧
      update.WellFormed ∧ poppedIn EventKind.any e₀.turn.1.trace = [(1000, .tick tick)] ∧
      e₀.turn.1.turn.2 = .failed (.internal (.l3Rejected "exchange is not in L3 depth mode")) ∧
      ¬e₀.turn.1.AppliesL3 update := by
  intro tick update e₀
  have hfailed : e₀.turn.1.turn.2 =
      .failed (.internal (.l3Rejected "exchange is not in L3 depth mode")) := by decide +kernel
  exact ⟨.external (.external (.new _ _ _ _ _) (.pushEvent trivial)) (.pushEvent trivial),
    by decide +kernel, pops_iff.2 (by decide +kernel), ⟨.inl rfl, .inl ⟨rfl, by decide⟩⟩,
    by decide +kernel, hfailed, fun h => h.ok _ hfailed⟩

end Engine

end Backtester
