import Backtester.BookLevels
import Backtester.Quantities
import Backtester.Sessions

/-!
# The venues replay the feed

The exchange of a symbol gets the trades, the depth updates and the orders of the symbol, in the
order in which they are popped, and no others (`Engine.Replays`). So its books are functions of the
updates popped so far, whatever the strategy does : an L2 level has the quantity of the last update
of the level, an L3 level the orders that rest there according to the updates of the level
(`venue_replays_feed`).
-/

open History Run Std

set_option linter.unusedSectionVars false

namespace Backtester

/-! ## L2 books -/

namespace OrderBookL2

/-- The quantity of the last update of a level, zero if there is none. -/
def lastQty (updates : List L2Update) (side : Side) (price : ℤ) : ℤ :=
  ((updates.filter fun update => update.side = side ∧ update.price = price).getLast?.map
    (·.qty)).getD 0

/-- A side stores the quantities that are not zero. -/
def Stores (levels : ExtTreeMap ℤ ℤ) (qty : ℤ → ℤ) : Prop :=
  ∀ price : ℤ, levels[price]? = if qty price = 0 then none else some (qty price)

/-- `best` is the end of the prices whose quantity is not zero. -/
structure EndsAt (best : Option (ℤ × ℤ)) (extreme : Set ℤ → ℤ → Prop) (qty : ℤ → ℤ) : Prop where
  none_iff : best = none ↔ ∀ price, qty price = 0
  extreme : ∀ e, best = some e → extreme {price | qty price ≠ 0} e.1
  qty : ∀ e, best = some e → e.2 = qty e.1

theorem lastQty_snoc (updates : List L2Update) (update : L2Update) (side : Side) (price : ℤ) :
    lastQty (updates ++ [update]) side price =
      if update.side = side ∧ update.price = price then update.qty else lastQty updates side
        price := by
  unfold lastQty
  rw [List.filter_append]
  split_ifs with hlevel
  · rw [List.filter_singleton, decide_eq_true hlevel, List.getLast?_append]
    rfl
  · rw [List.filter_singleton, decide_eq_false hlevel, cond_false, List.append_nil]

theorem Stores.applyLevel {levels : ExtTreeMap ℤ ℤ} {qty qty' : ℤ → ℤ} (h : Stores levels qty)
    (price v : ℤ)
    (hqty : ∀ p, qty' p = if price = p then v else qty p) :
    Stores (applyLevel levels price v) qty' := by
  intro p
  rw [hqty]
  by_cases hp : price = p
  · rw [if_pos hp, hp]
    unfold OrderBookL2.applyLevel
    split_ifs
    · exact ExtTreeMap.getElem?_erase_self
    · exact ExtTreeMap.getElem?_insert_self
  · have hne : ¬compare price p = .eq := by simpa using hp
    have hother : (OrderBookL2.applyLevel levels price v)[p]? = levels[p]? := by
      unfold OrderBookL2.applyLevel
      split_ifs
      · rw [ExtTreeMap.getElem?_erase, if_neg hne]
      · rw [ExtTreeMap.getElem?_insert, if_neg hne]
    rw [hother, if_neg hp]
    exact h p

/-- The last update of a level decides. -/
theorem stores_follow (updates : List L2Update) :
    Stores (follow updates).bids (lastQty updates .buy) ∧
    Stores (follow updates).asks (lastQty updates .sell) := by
  induction updates using List.reverseRecOn with
  | nil => exact ⟨fun p => by simp [follow, lastQty], fun p => by simp [follow, lastQty]⟩
  | append_singleton updates update ih =>
    have hsnoc : follow (updates ++ [update]) = (follow updates).applyL2 update := by simp [follow]
    rw [hsnoc, applyL2]
    have hqty : ∀ side p, lastQty (updates ++ [update]) side p =
        if update.side = side ∧ update.price = p then update.qty else lastQty updates side p :=
      lastQty_snoc updates update
    have hsame : ∀ side, update.side ≠ side →
        lastQty (updates ++ [update]) side = lastQty updates side :=
      fun side hside => funext fun p => (hqty side p).trans (if_neg fun h => hside h.1)
    cases hside : update.side with
    | buy =>
      refine ⟨ih.1.applyLevel _ _ fun p => ?_, ?_⟩
      · simp [hqty, hside]
      · rw [hsame .sell (by simp [hside])]
        exact ih.2
    | sell =>
      refine ⟨?_, ih.2.applyLevel _ _ fun p => ?_⟩
      · rw [hsame .buy (by simp [hside])]
        exact ih.1
      · simp [hqty, hside]
    | none =>
      rw [hsame .buy (by simp [hside]), hsame .sell (by simp [hside])]
      exact ih

theorem levelQty_follow (updates : List L2Update) {side : Side} (hside : side ≠ .none) (price : ℤ) :
    (follow updates).levelQty side price = lastQty updates side price := by
  obtain ⟨hbids, hasks⟩ := stores_follow updates
  have hget : ∀ {levels : ExtTreeMap ℤ ℤ} {qty : ℤ → ℤ}, Stores levels qty →
      levels[price]?.getD 0 = qty price := by
    intro levels qty h
    rw [h price]
    split_ifs with hzero
    · exact hzero.symm
    · rfl
  cases side with
  | buy => exact hget hbids
  | sell => exact hget hasks
  | none => exact absurd rfl hside

theorem Stores.endsAt {levels : ExtTreeMap ℤ ℤ} {qty : ℤ → ℤ} (h : Stores levels qty)
    {best : Option (ℤ × ℤ)}
    {extreme : Set ℤ → ℤ → Prop} (hnone : best = none ↔ ∀ price : ℤ, levels[price]? = none)
    (hsome : ∀ e, best = some e → levels[e.1]? = some e.2)
    (hextreme : ∀ e, best = some e → qty e.1 ≠ 0 → extreme {price | qty price ≠ 0} e.1) :
    EndsAt best extreme qty := by
  have hstored : ∀ e, best = some e → qty e.1 ≠ 0 ∧ qty e.1 = e.2 := by
    intro e he
    have hentry := hsome e he
    rw [h] at hentry
    split_ifs at hentry with hzero
    exact ⟨hzero, Option.some.inj hentry⟩
  refine ⟨hnone.trans (forall_congr' fun price => ?_), fun e he => hextreme e he (hstored e he).1,
    fun e he => (hstored e he).2.symm⟩
  rw [h price]
  split_ifs with hzero <;> simp [hzero]

theorem Stores.isSome {levels : ExtTreeMap ℤ ℤ} {qty : ℤ → ℤ} (h : Stores levels qty) {price : ℤ}
    (hne : qty price ≠ 0) : (levels[price]?).isSome := by
  rw [h price, if_neg hne]
  rfl

theorem bestBid_follow (updates : List L2Update) :
    EndsAt (follow updates).bestBid IsGreatest (lastQty updates .buy) := by
  have hbids := (stores_follow updates).1
  refine hbids.endsAt TreeMap.maxEntry_eq_none_iff (fun e he => TreeMap.getElem?_of_max_eq he)
    fun e he hne => ⟨hne, fun p hp => ?_⟩
  exact isLE_compare.1 (TreeMap.isLE_of_max_eq he (hbids.isSome hp))

theorem bestAsk_follow (updates : List L2Update) :
    EndsAt (follow updates).bestAsk IsLeast (lastQty updates .sell) := by
  have hasks := (stores_follow updates).2
  refine hasks.endsAt TreeMap.minEntry_eq_none_iff (fun e he => TreeMap.getElem?_of_min_eq he)
    fun e he hne => ⟨hne, fun p hp => ?_⟩
  exact isLE_compare.1 (TreeMap.isLE_of_min_eq he (hasks.isSome hp))

end OrderBookL2

/-! ## What a venue gets -/

/-- A trade, a depth update or an order of the symbol. -/
def EventKind.arrivesAt (s : ℕ) : EventKind → Bool
  | tick t => t.symbolId = s
  | l2Update update => update.symbolId = s
  | l3Update update => update.symbolId = s
  | order o => o.symbolId = s
  | _ => false

/-- The event that a call brings to the exchange. -/
def ExchangeOp.arrival : ExchangeOp → Option EventKind
  | onTrade trade => some (.tick trade)
  | applyL2Update update => some (.l2Update update)
  | applyL3Update update => some (.l3Update update)
  | submitOrder o => some (.order o)
  | _ => none

/-- The events that brought the operations of a session, in order. -/
def arrivalsIn (ops : List ExchangeOp) : List EventKind := ops.filterMap ExchangeOp.arrival

/-- What was popped for the exchange of a symbol, in order. -/
def arrivalsAt (s : ℕ) (l : List Effect) : List EventKind :=
  ((poppedIn EventKind.any l).map Prod.snd).filter (EventKind.arrivesAt s)

/-- The updates of levels among the events, in order. -/
def l2UpdatesIn (kinds : List EventKind) : List L2Update :=
  kinds.filterMap fun
    | .l2Update update => some update
    | _ => none

/-- The updates of orders among the events, in order. -/
def l3UpdatesIn (kinds : List EventKind) : List L3Update :=
  kinds.filterMap fun
    | .l3Update update => some update
    | _ => none

variable {Q : Type} [QueueModel Q]

namespace ExchangeSimulator

/-- A call hands its depth update, if it has one, to the book of its kind. -/
theorem books_follow (ex : ExchangeSimulator Q) (op : ExchangeOp) :
    (ex.perform op).1.book = (l2UpdatesIn op.arrival.toList).foldl OrderBookL2.applyL2 ex.book ∧
    (ex.perform op).1.bookL3 = ex.bookL3.map fun book => (l3UpdatesIn op.arrival.toList).foldl
      (fun book update => (book.applyL3 update).toOption.getD book) book := by
  have hother : (∀ update, op ≠ .applyL2Update update) → (∀ update, op ≠ .applyL3Update update) →
      l2UpdatesIn op.arrival.toList = [] ∧ l3UpdatesIn op.arrival.toList = [] →
      (ex.perform op).1.book = (l2UpdatesIn op.arrival.toList).foldl OrderBookL2.applyL2 ex.book ∧
      (ex.perform op).1.bookL3 = ex.bookL3.map fun book => (l3UpdatesIn op.arrival.toList).foldl
        (fun book update => (book.applyL3 update).toOption.getD book) book := by
    rintro h2 h3 ⟨hl2, hl3⟩
    rw [hl2, hl3]
    obtain ⟨hbook, hbookL3⟩ := ex.books_perform h2 h3
    exact ⟨hbook, hbookL3.trans (congrFun Option.map_id _).symm⟩
  cases op with
  | applyL2Update update => exact ⟨rfl, (congrFun Option.map_id _).symm⟩
  | applyL3Update update =>
    simp only [perform, applyL3Update]
    cases hbook : ex.bookL3 with
    | none => exact ⟨rfl, rfl⟩
    | some book =>
      cases happly : book.applyL3 update with
      | error err => simp [happly, l2UpdatesIn, l3UpdatesIn, ExchangeOp.arrival, Except.toOption]
      | ok book' => simp [happly, l2UpdatesIn, l3UpdatesIn, ExchangeOp.arrival, Except.toOption]
  | _ => exact hother (by simp) (by simp) ⟨rfl, rfl⟩

/-- The books of a session replay its depth updates. -/
theorem books_session {ex₀ : ExchangeSimulator Q} (hnew : ex₀.IsNew) (ops : List ExchangeOp) :
    (ex₀.session ops).1.book = .follow (l2UpdatesIn (arrivalsIn ops)) ∧
    (ex₀.session ops).1.bookL3 = ex₀.bookL3.map fun _ => .follow
      (l3UpdatesIn (arrivalsIn ops)) := by
  induction ops using List.reverseRecOn with
  | nil => obtain ⟨q, rfl | rfl⟩ := hnew <;> exact ⟨rfl, rfl⟩
  | append_singleton ops op ih =>
    have hops : arrivalsIn (ops ++ [op]) = arrivalsIn ops ++ op.arrival.toList := by
      rw [arrivalsIn, List.filterMap_append, arrivalsIn]
      cases op <;> rfl
    have hl2 : l2UpdatesIn (arrivalsIn (ops ++ [op])) =
        l2UpdatesIn (arrivalsIn ops) ++ l2UpdatesIn op.arrival.toList := by
      rw [hops, l2UpdatesIn, List.filterMap_append]
      rfl
    have hl3 : l3UpdatesIn (arrivalsIn (ops ++ [op])) =
        l3UpdatesIn (arrivalsIn ops) ++ l3UpdatesIn op.arrival.toList := by
      rw [hops, l3UpdatesIn, List.filterMap_append]
      rfl
    obtain ⟨hbook, hbookL3⟩ := (ex₀.session ops).1.books_follow op
    rw [session_snoc, hl2, hl3]
    constructor
    · exact hbook.trans (ih.1 ▸ List.foldl_append.symm)
    · refine hbookL3.trans ?_
      rw [ih.2, Option.map_map]
      exact congrArg (fun f => Option.map f ex₀.bookL3) (funext fun _ => List.foldl_append.symm)

end ExchangeSimulator

theorem EventKind.touched_of_arrivesAt {kind : EventKind} {s : ℕ} (registry : ExtTreeMap ℕ ℕ)
    (h : kind.arrivesAt s = true) : kind.touched registry = some s := by
  cases kind <;> first | exact congrArg some (of_decide_eq_true h) | cases h

namespace Core

variable {S L R : Type} {c : Core Q S L R} {kind : EventKind} {s : ℕ}

/-- Of the calls of an event at most one brings something to the exchange, and that is the event. -/
theorem arrivalsIn_calls (htouched : kind.touched c.orderSymbolById = some s) :
    arrivalsIn (c.calls kind) = [kind].filter (EventKind.arrivesAt s) := by
  have hplain : (∀ n, kind ≠ .orderAck n) → kind.arrivesAt s = false →
      arrivalsIn (c.calls kind) = [kind].filter (EventKind.arrivesAt s) := by
    intro hack harrives
    rw [List.filter_singleton, harrives]
    cases kind with
    | orderAck n => exact absurd rfl (hack n)
    | tick tick => exact absurd (Option.some.inj htouched) (of_decide_eq_false harrives)
    | l2Update update => exact absurd (Option.some.inj htouched) (of_decide_eq_false harrives)
    | l3Update update => exact absurd (Option.some.inj htouched) (of_decide_eq_false harrives)
    | order o => exact absurd (Option.some.inj htouched) (of_decide_eq_false harrives)
    | _ => rfl
  cases harrives : kind.arrivesAt s with
  | true =>
    rw [List.filter_singleton, harrives]
    cases kind <;> first | rfl | cases harrives
  | false =>
    cases kind with
    | orderAck n =>
      rw [List.filter_singleton, harrives]
      simp only [calls]
      split
      · rfl
      · split
        · unfold ExchangeSimulator.marketCalls
          rw [arrivalsIn, List.filterMap_cons_none rfl]
          split
          · split_ifs <;> rfl
          · rfl
        · rfl
    | _ => exact hplain (by simp) harrives

variable [Strategy S] [LatencyModel L R]

/-- A handler that does not fail makes the calls of its event. -/
theorem serves_of_ok (hok : ∀ err, (c.handle kind).2 ≠ .fail err) :
    Serves (kind.touched c.orderSymbolById) (c.calls kind) (c.acceptedCancels kind) (c.opened kind)
      (c.handle kind).1 := by
  rcases serves_handle c kind with ⟨hdepth, -⟩ | hserves
  · cases kind with
    | l2Update update =>
      have hl3 : update.symbolId ∉ c.l3DepthSymbols :=
        fun hl3 => hok _ (by rw [handle, onL2Update_mixed hl3])
      rw [handle, onL2Update_eq hl3]
      exact (Serves.put c rfl).frame rfl rfl
    | l3Update update =>
      have hl2 : update.symbolId ∉ c.l2DepthSymbols :=
        fun hl2 => hok _ (by rw [handle, onL3Update_mixed hl2])
      rw [handle, onL3Update_eq hl2]
      exact .put _ rfl
    | _ => cases hdepth
  · exact hserves

/-- An L3 update that does not fail is well formed and meets an L3 book. -/
theorem accepts_of_ok {update : L3Update}
    (hok : ∀ err, (c.handle (.l3Update update)).2 ≠ .fail err) :
    update.WellFormed ∧ ((c.opened (.l3Update update)).exchange update.symbolId).bookL3.isSome := by
  have hl2 : update.symbolId ∉ c.l2DepthSymbols :=
    fun hl2 => hok _ (by rw [handle, onL3Update_mixed hl2])
  rw [handle, onL3Update_eq hl2] at hok
  change _ ∧ ((c.markL3Depth update.symbolId).exchange update.symbolId).bookL3.isSome
  generalize (c.markL3Depth update.symbolId).exchange update.symbolId = ex at hok ⊢
  cases hbook : ex.bookL3 with
  | none => exact absurd (by rw [ExchangeSimulator.applyL3Update_of_none hbook, l3Flow]) (hok _)
  | some book =>
    cases happly : book.applyL3 update with
    | ok book' => exact ⟨wellFormed_of_ok happly, rfl⟩
    | error err =>
      have herr : (ex.applyL3Update update).2 = .error err := by
        simp only [ExchangeSimulator.applyL3Update, hbook, happly]
      exact absurd (by rw [herr, l3Flow]) (hok _)

end Core

namespace Engine

open ExchangeSimulator

variable {T U S L R : Type} [Strategy S] {e e' e₀ : Engine T U Q S L R} {s : ℕ}

/-- The exchange of `s` got what was popped for it, in order, and every L3 update among it was
accepted. -/
structure Replays (s : ℕ) (e : Engine T U Q S L R) : Prop where
  session : e.core.exchanges[s]? = none ∧ arrivalsAt s e.trace = [] ∨
    ∃ (ex₀ : ExchangeSimulator Q) (ops : List ExchangeOp), ex₀.IsNew ∧
      e.core.exchanges[s]? = some (ex₀.session ops).1 ∧ arrivalsIn ops = arrivalsAt s e.trace
  l3 : ∀ update ∈ l3UpdatesIn (arrivalsAt s e.trace), update.WellFormed ∧
    ∃ ex, e.core.exchanges[s]? = some ex ∧ ex.bookL3.isSome

omit [Strategy S] in
/-- Work elsewhere. -/
theorem Replays.frame (h : e.Replays s) (hexchanges : e'.core.exchanges[s]? = e.core.exchanges[s]?)
    (harrivals : arrivalsAt s e'.trace = arrivalsAt s e.trace) : e'.Replays s := by
  refine ⟨?_, ?_⟩ <;> rw [harrivals, hexchanges]
  · exact h.session
  · exact h.l3

theorem Replays.of_new (h : e.Replays s) : ∃ (ex₀ : ExchangeSimulator Q) (ops : List ExchangeOp),
    ex₀.IsNew ∧
    e.core.exchange s = (ex₀.session ops).1 ∧ arrivalsIn ops = arrivalsAt s e.trace := by
  rcases h.session with ⟨habsent, hnil⟩ | ⟨ex₀, ops, hnew, hex, hops⟩
  · exact ⟨_, [], isNew_of_absent _ habsent, rfl, hnil.symm⟩
  · exact ⟨ex₀, ops, hnew, by simp only [Core.exchange, hex, Option.getD_some], hops⟩

/-- The books are those of the depth updates, and there are none without an L3 book to take them. -/
theorem Replays.books (h : e.Replays s) :
    (e.core.exchange s).book = .follow (l2UpdatesIn (arrivalsAt s e.trace)) ∧
    ((e.core.exchange s).bookL3 = none → l3UpdatesIn (arrivalsAt s e.trace) = []) ∧
    ∀ book, (e.core.exchange s).bookL3 = some book →
      book = .follow (l3UpdatesIn (arrivalsAt s e.trace)) := by
  obtain ⟨ex₀, ops, hnew, hex, hops⟩ := h.of_new
  obtain ⟨hl2, hl3⟩ := books_session hnew ops
  rw [hops] at hl2 hl3
  refine ⟨hex ▸ hl2, fun hnone => ?_, fun book hsome => ?_⟩
  · refine List.eq_nil_iff_forall_not_mem.2 fun update hmem => ?_
    obtain ⟨-, ex, hstored, hsome⟩ := h.l3 update hmem
    have hstored' : e.core.exchange s =
      ex := by simp only [Core.exchange, hstored, Option.getD_some]
    rw [← hstored', hnone] at hsome
    cases hsome
  · rw [hex, hl3] at hsome
    obtain ⟨-, -, heq⟩ := Option.map_eq_some_iff.1 hsome
    exact heq.symm

variable [LatencyModel L R]

/-- An event that is worked on without failing is one more arrival at the exchange it is about. -/
theorem Replays.dispatch (h : e.Replays s) (event : Event)
    (hok : ∀ err, ((e.core.cleared.atTime event.tsSim).handle event.kind).2 ≠ .fail err)
    (harrivals : arrivalsAt s (e.dispatch event).1.trace =
      arrivalsAt s e.trace ++ [event.kind].filter (EventKind.arrivesAt s)) :
    (e.dispatch event).1.Replays s := by
  let c := e.core.cleared.atTime event.tsSim
  have hserves := Core.serves_of_ok hok
  have hexchanges : (e.dispatch event).1.core.exchanges[s]? = _ :=
    (congrArg (fun m => m[s]?) (dispatch_aside e event).1).trans (hserves.exchanges s)
  have hopened : (c.opened event.kind).exchanges = e.core.exchanges := by
    cases event.kind <;> rfl
  by_cases htouched : event.kind.touched c.orderSymbolById = some s
  · rw [if_pos htouched] at hexchanges
    have hcalls : arrivalsIn (c.calls event.kind) = [event.kind].filter (EventKind.arrivesAt s) :=
      Core.arrivalsIn_calls htouched
    have hsession : ∃ (ex₀ : ExchangeSimulator Q) (ops : List ExchangeOp), ex₀.IsNew ∧
        (c.opened event.kind).exchange s = (ex₀.session ops).1 ∧
          arrivalsIn ops = arrivalsAt s e.trace := by
      rcases h.session with ⟨habsent, hnil⟩ | ⟨ex₀, ops, hnew, hex, hops⟩
      · exact ⟨_, [], isNew_of_absent _ (hopened ▸ habsent), rfl, hnil.symm⟩
      · refine ⟨ex₀, ops, hnew, ?_, hops⟩
        rw [Core.exchange, hopened, hex]
        rfl
    obtain ⟨ex₀, ops, hnew, hex, hops⟩ := hsession
    rw [hex, ← session_append] at hexchanges
    have hall : arrivalsIn (ops ++ c.calls event.kind) =
        arrivalsAt s (e.dispatch event).1.trace := by
      rw [harrivals, ← hops, ← hcalls]
      exact List.filterMap_append
    refine ⟨.inr ⟨ex₀, _, hnew, hexchanges, hall⟩, fun update hmem => ?_⟩
    rw [harrivals, l3UpdatesIn, List.filterMap_append] at hmem
    have hmode : ((c.opened event.kind).exchange s).bookL3.isSome →
        ∃ ex, (e.dispatch event).1.core.exchanges[s]? = some ex ∧ ex.bookL3.isSome := by
      intro hsome
      refine ⟨_, hexchanges, ?_⟩
      rw [hex, (books_session hnew _).2, Option.isSome_map] at hsome
      rwa [(books_session hnew _).2, Option.isSome_map]
    rcases List.mem_append.1 hmem with hmem | hmem
    · obtain ⟨hwell, ex, hstored, hsome⟩ := h.l3 update hmem
      refine ⟨hwell, hmode ?_⟩
      rwa [Core.exchange, hopened, hstored]
    · obtain ⟨kind, hkind, heq⟩ := List.mem_filterMap.1 hmem
      have hevent : event.kind = .l3Update update := by
        rw [← List.mem_singleton.1 (List.mem_of_mem_filter hkind)]
        cases kind <;> cases heq
        rfl
      rw [hevent] at hok htouched hmode
      obtain ⟨hwell, hsome⟩ := Core.accepts_of_ok hok
      rw [Option.some.inj htouched] at hsome
      exact ⟨hwell, hmode hsome⟩
  · have harrives : event.kind.arrivesAt s = false := by
      cases harrives : event.kind.arrivesAt s with
      | false => rfl
      | true => exact absurd (EventKind.touched_of_arrivesAt _ harrives) htouched
    rw [if_neg htouched] at hexchanges
    refine h.frame (hexchanges.trans (congrArg (fun m => m[s]?) hopened)) ?_
    rw [harrivals, List.filter_singleton, harrives, cond_false, List.append_nil]

variable [TickSource T] [L3Source U]

theorem Replays.turn (h : e.Replays s) (hst : ∀ err, e.turn.2 ≠ .failed err) :
    e.turn.1.Replays s := by
  have hcore := (e.ingest_frame (ε := Strategy.Error S)).1
  have harrivals : arrivalsAt s (e.ingest (ε := Strategy.Error S)).1.trace =
      arrivalsAt s e.trace := by
    obtain ⟨-, new, htrace, hintake⟩ := e.ingest_frame (ε := Strategy.Error S)
    rw [arrivalsAt, htrace, poppedIn_append, poppedIn_of_isIntake hintake, List.append_nil,
      arrivalsAt]
  obtain ⟨e₁, rfl, ⟨-, hpopped, hturn⟩ | ⟨event, queue, -, -, hpopped, hturn⟩⟩ := turn_pops e
  · refine h.frame ?_ (by rw [arrivalsAt, hpopped, arrivalsAt])
    rcases hturn with hturn | hturn
    · rw [hturn, hcore]
    · rw [hturn, (flush_aside _).1, hcore]
  · have htaken : Engine.Replays s ((e.ingest (ε := Strategy.Error S)).1.withQueue queue) :=
      h.frame (congrArg (fun c : Core Q S L R => c.exchanges[s]?) hcore) harrivals
    rw [hturn] at hst hpopped ⊢
    refine htaken.dispatch event (fun err herr => ?_) ?_
    · rcases (dispatch_cases ((e.ingest (ε := Strategy.Error S)).1.withQueue queue)
        event).2 with ⟨err', -, hfail⟩ | ⟨hok, -⟩
      · exact hst err' (by rw [hfail]; rfl)
      · exact hok err herr
    · refine Eq.trans ?_ (congrArg (· ++ _) harrivals.symm)
      rw [arrivalsAt, hpopped, List.map_append, List.filter_append, arrivalsAt]
      rfl

variable [SeedableRng R] {allowed : ℤ → EventKind → Prop}
  {st : Status (EngineError (Strategy.Error S))}

omit [Strategy S] [LatencyModel L R] in
theorem Replays.external (h : e.Replays s) (hext : External allowed e e') : e'.Replays s := by
  cases hext with
  | addTickSource source => exact h.frame rfl rfl
  | addL3Source source => exact h.frame rfl rfl
  | @pushEvent ts kind _ =>
    refine h.frame rfl ?_
    rw [arrivalsAt, trace_pushEvent, poppedIn_append, arrivalsAt]
    exact congrArg (fun l => (List.map Prod.snd l).filter _) (List.append_nil _)

/-- In every state of a run that has not failed the exchanges have replayed what was popped for
them. -/
theorem replays (built : Built allowed e₀) (h : Reaches turn (External allowed) e₀ e st)
    (hst : ∀ err, st ≠ .failed err) (s : ℕ) : e.Replays s := by
  induction h with
  | start =>
    induction built with
    | new => exact ⟨.inl ⟨by simp [Engine.new], rfl⟩, by simp [Engine.new, arrivalsAt, l3UpdatesIn]⟩
    | external _ hext ih => exact ih.external hext
  | turn _ ih => exact (ih (by simp)).turn hst
  | env _ hext ih => exact (ih hst).external hext

/-- Every exchange is a new one that got the trades, the depth updates and the orders popped for it,
in order, and no others. Its L2 book has the last quantity of every level, and the best prices among
those that are not zero. Its L3 book, if it has one, holds at every level the orders that rest there
according to the updates. -/
theorem venue_replays_feed (built : Built allowed e₀) (h : Reaches turn (External allowed) e₀ e st)
    (hst : ∀ err, st ≠ .failed err) (s : ℕ) :
    let ex := e.core.exchange s
    let l2 := l2UpdatesIn (arrivalsAt s e.trace)
    let l3 := l3UpdatesIn (arrivalsAt s e.trace)
    (∃ (ex₀ : ExchangeSimulator Q) (ops : List ExchangeOp), ex₀.IsNew ∧ ex = (ex₀.session ops).1 ∧
      arrivalsIn ops = arrivalsAt s e.trace) ∧
    (∀ side, side ≠ .none → ∀ price, ex.book.levelQty side price =
      OrderBookL2.lastQty l2 side price) ∧
    OrderBookL2.EndsAt ex.book.bestBid IsGreatest (OrderBookL2.lastQty l2 .buy) ∧
    OrderBookL2.EndsAt ex.book.bestAsk IsLeast (OrderBookL2.lastQty l2 .sell) ∧
    (ex.bookL3 = none → l3 = []) ∧
    (∀ update ∈ l3, update.WellFormed) ∧
    ∀ book, ex.bookL3 = some book → ∀ side price,
      book.queue side price = OrderBookL3.resting l3 side price := by
  intro ex l2 l3
  have hreplays := replays built h hst s
  obtain ⟨hbook, hnone, hbookL3⟩ := hreplays.books
  refine ⟨hreplays.of_new, fun side hside price => ?_, ?_, ?_, hnone, fun update hmem =>
    (hreplays.l3 update hmem).1, fun book hsome side price => ?_⟩
  · rw [hbook]
    exact OrderBookL2.levelQty_follow l2 hside price
  · rw [hbook]
    exact OrderBookL2.bestBid_follow l2
  · rw [hbook]
    exact OrderBookL2.bestAsk_follow l2
  · rw [hbookL3 book hsome]
    exact OrderBookL3.queue_follow l3 side price

/-- The better level is withdrawn. -/
theorem venue_replays_feed_sample :
    let low : L2Update := ⟨1000, 0, 100, 5, 1, .buy⟩
    let high : L2Update := ⟨1000, 1, 101, 7, 1, .buy⟩
    let e₀ : Sample := (((sample {} 0 [] []).pushEvent 1000 (.l2Update low)).pushEvent 1000
      (.l2Update high)).pushEvent 1000 (.l2Update { high with qty := 0 })
    let e := (runFor turn 4 e₀).1
    (e.core.exchange 1).book.levelQty .buy 100 = 5 ∧
      OrderBookL2.EndsAt (e.core.exchange 1).book.bestBid
      IsGreatest (OrderBookL2.lastQty [low, high, { high with qty := 0 }] .buy) := by
  intro low high e₀ e
  have built : Built (fun _ _ => True) e₀ :=
    .external (.external (.external (.new _ _ _ _ _) (.pushEvent trivial)) (.pushEvent trivial))
      (.pushEvent trivial)
  have run : Reaches turn (External fun _ _ => True) e₀ e .finished :=
    reaches_of_runFor 4 (by decide +kernel)
  have hl2 : l2UpdatesIn (arrivalsAt 1 e.trace) =
    [low, high, { high with qty := 0 }] := by decide +kernel
  exact ⟨by decide +kernel, hl2 ▸ (venue_replays_feed built run (by simp) 1).2.2.1⟩

end Engine

end Backtester
