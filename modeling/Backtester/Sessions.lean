import Backtester.DepthModes
import Backtester.StateMachine
import Backtester.Tracking

/-!
# The sessions that the engine conducts

What is proved of an exchange simulator is proved of sessions : a new simulator and a sequence of
calls. Here the engine is shown to conduct such sessions. `Core.calls` lists the calls that the
handler of an event makes, all to one exchange, and `Core.serves_handle` says that the handler does
nothing else to the exchanges. So the exchange of a symbol is at every turn of a run the session of
a new one, called as `ExchangeSimulator.MayMove` says (`Engine.hosted`).
-/

open History Run Std

set_option linter.unusedSectionVars false

namespace Backtester

/-- The updates of a book, which fail when they mix depth modes. -/
def EventKind.isDepth : EventKind → Bool
  | l2Update _ | l3Update _ => true
  | _ => false

/-- The order whose cancel an event acknowledges. -/
def EventKind.cancelAcked : EventKind → Option ℕ
  | orderCancelAck n => some n
  | _ => none

/-- The orders whose cancels are accepted : the ACKs of these cancels are scheduled. -/
def cancelsIn (l : List Effect) : List ℕ :=
  l.filterMap fun
    | .scheduled _ kind => kind.cancelAcked
    | _ => none

@[simp] theorem cancelsIn_nil : cancelsIn [] = [] := rfl

/-- The cancels accepted in the parts are those of the whole. -/
@[simp] theorem cancelsIn_append (l l' : List Effect) :
    cancelsIn (l ++ l') = cancelsIn l ++ cancelsIn l' :=
  List.filterMap_append

variable {Q : Type} [QueueModel Q]

namespace ExchangeSimulator

/-- The calls for a market order whose ACK is due : a partial fill is followed by a forced
cancel. -/
def marketCalls (ex : ExchangeSimulator Q) (n : ℕ) (fallbackPrice : Option ℤ) : List ExchangeOp :=
  .fillMarketImmediately n fallbackPrice ::
    match ex.fillMarketImmediately n fallbackPrice with
    | some (report, _) =>
      if report.status = .partiallyFilled then [.forceCancelPartialFill n] else []
    | none => []

/-- A session goes on from where the first part left the exchange. -/
theorem session_append (ex : ExchangeSimulator Q) (ops ops' : List ExchangeOp) :
    (ex.session (ops ++ ops')).1 = ((ex.session ops).1.session ops').1 := by
  induction ops' using List.reverseRecOn with
  | nil => simp
  | append_singleton ops' op ih =>
    rw [← List.append_assoc, session_snoc, session_snoc, Session.next, Session.next, ih]

variable {ex₀ : ExchangeSimulator Q} {ops : List ExchangeOp} {op : ExchangeOp}

/-- Calls that submit nothing and are not about market orders are always possible. -/
theorem mayMove_of_plain (hs : op.submitted = none) (hfill : ∀ m p, op ≠ .fillMarketImmediately m p)
    (hforce : ∀ m, op ≠ .forceCancelPartialFill m) : MayMove ex₀ ops op := by
  refine ⟨by simp [Fresh, hs], ?_⟩
  cases op with
  | fillMarketImmediately m p => exact absurd rfl (hfill m p)
  | forceCancelPartialFill m => exact absurd rfl (hforce m)
  | _ => trivial

/-- The calls for a market order that is not acknowledged yet are possible. -/
theorem always_marketCalls (hops : Always (MayMove ex₀) ops) {n : ℕ}
    (hmarket : ∀ o, (ex₀.session ops).1.orders[n]? = some o →
      o.state = .pendingNew ∧ o.order.orderType = .market) (p : Option ℤ) :
    Always (MayMove ex₀) (ops ++ (ex₀.session ops).1.marketCalls n p) := by
  have hfill : Always (MayMove ex₀) (ops ++ [.fillMarketImmediately n p]) :=
    always_snoc.2 ⟨hops, by simp [Fresh, ExchangeOp.submitted], hmarket⟩
  unfold marketCalls
  split
  · next report ex heq =>
    split_ifs with hpart
    · rw [← List.singleton_append, ← List.append_assoc]
      refine always_snoc.2 ⟨hfill, by simp [Fresh, ExchangeOp.submitted], fun o ho => ?_⟩
      rw [session_snoc] at ho
      simp only [Session.next, perform, heq] at ho
      rcases fillMarketImmediately_spec (ex₀.session ops).1 n p with
        ⟨order, s, s', report', ex', heq', -, -, hstatus, -, hface⟩ | ⟨hnone, -⟩
      · rw [heq, Option.some.injEq, Prod.mk.injEq] at heq'
        obtain ⟨rfl, rfl⟩ := heq'
        obtain ⟨live, hlive, -, hs⟩ := face_eq_some.1 ((hface n).trans (if_pos rfl))
        obtain rfl := Option.some.inj (hlive.symm.trans ho)
        exact hs.trans (hstatus.symm.trans hpart)
      · rw [heq] at hnone
        cases hnone
    · exact hfill
  · exact hfill

/-- What the parts submit is what the whole submits. -/
theorem submittedIds_append (ops ops' : List ExchangeOp) :
    submittedIds (ops ++ ops') = submittedIds ops ++ submittedIds ops' :=
  List.filterMap_append

/-- Filling a market order submits nothing. -/
theorem submittedIds_marketCalls (ex : ExchangeSimulator Q) (n : ℕ) (p : Option ℤ) :
    submittedIds (ex.marketCalls n p) = [] := by
  unfold marketCalls
  split
  · split_ifs <;> rfl
  · rfl

end ExchangeSimulator

namespace Core

open ExchangeSimulator

variable {S L R : Type} {c c' c'' : Core Q S L R} {s : ℕ} {symbol : Option ℕ}
  {ops : List ExchangeOp} {ns : List ℕ}

/-- Pushing the answer to a cancel is the mark that it was accepted. -/
theorem cancelsIn_pushEffects (ts delay pushed : ℤ) (kind : EventKind) :
    cancelsIn (pushEffects ts delay pushed kind) = kind.cancelAcked.toList := by
  unfold pushEffects
  split_ifs <;> cases kind <;> rfl

/-- The calls that the handler of an event makes to the exchange it touches. -/
def calls (c : Core Q S L R) : EventKind → List ExchangeOp
  | .tick tick => [.onTrade tick]
  | .l2Update update => [.applyL2Update update]
  | .l3Update update => [.applyL3Update update]
  | .order order => [.submitOrder order]
  | .orderAck n =>
    match c.orderSymbolById[n]? with
    | none => []
    | some s =>
      match ((c.exchange s).getOrder n).map Order.orderType with
      | some .market =>
        (c.exchange s).marketCalls n (c.truthLastTradeBySymbol[s]?.map (·.price))
      | _ => [.ackNew n]
  | .orderCancel n => [.cancelOrder n]
  | .orderCancelAck n => [.ackCancel n]
  | .orderReport report => [.removeOrder report.orderId]
  | _ => []

/-- The order whose cancel the handler of an event accepts. -/
def acceptedCancels (c : Core Q S L R) : EventKind → List ℕ
  | .orderCancel n =>
    match c.orderSymbolById[n]? with
    | none => []
    | some s =>
      match (c.exchange s).cancelOrder n with
      | .ok _ => [n]
      | .error _ => []
  | _ => []

/-- The core in which the handler of an event meets the exchange it touches : an L3 update has
marked its symbol before. -/
def opened (c : Core Q S L R) : EventKind → Core Q S L R
  | .l3Update update => c.markL3Depth update.symbolId
  | _ => c

/-- `c'` comes from `c` by the calls `ops` to the exchange of `symbol`, while the cancels of `ns`
are accepted. -/
structure Serves (symbol : Option ℕ) (ops : List ExchangeOp) (ns : List ℕ) (c c' : Core Q S L R) :
    Prop where
  exchanges : ∀ s : ℕ, c'.exchanges[s]? =
    if symbol = some s then some ((c.exchange s).session ops).1 else c.exchanges[s]?
  cancels : cancelsIn c'.effects = cancelsIn c.effects ++ ns

namespace Serves

/-- Nothing is called. -/
theorem refl (c : Core Q S L R) (ops : List ExchangeOp) : Serves none ops [] c c :=
  ⟨by simp, by simp⟩

/-- Work that leaves the exchanges as they are and accepts no cancel. -/
theorem frame (h : Serves symbol ops ns c c') (hex : c''.exchanges = c'.exchanges)
    (hcancels : cancelsIn c''.effects = cancelsIn c'.effects) : Serves symbol ops ns c c'' :=
  ⟨fun s => hex ▸ h.exchanges s, hcancels.trans h.cancels⟩

/-- The exchange of the symbol has gone through the calls. -/
theorem exchange (h : Serves (some s) ops ns c c') :
    c'.exchange s = ((c.exchange s).session ops).1 := by
  rw [Core.exchange, h.exchanges s, if_pos rfl, Option.getD_some]

/-- Making an exchange is no call. -/
theorem exchangeMut (c : Core Q S L R) (s : ℕ) : Serves (some s) [] [] c (c.exchangeMut s) := by
  refine ⟨fun s' => ?_, by simp [Core.exchangeMut, putExchange]⟩
  simp only [Core.exchangeMut, putExchange, ExtTreeMap.getElem?_insert, Std.compare_eq_iff_eq,
    Option.some.injEq]
  split_ifs with hs
  · exact hs ▸ rfl
  · rfl

/-- One more call, whose result is put back. -/
theorem perform (h : Serves (some s) ops ns c c') {op : ExchangeOp} {ex : ExchangeSimulator Q}
    (hex : ((c'.exchange s).perform op).1 = ex) :
    Serves (some s) (ops ++ [op]) ns c (c'.putExchange s ex) := by
  refine ⟨fun s' => ?_, h.cancels⟩
  simp only [putExchange, ExtTreeMap.getElem?_insert, Std.compare_eq_iff_eq, Option.some.injEq]
  split_ifs with hs
  · rw [← hex, h.exchange, ← hs, session_snoc]
    rfl
  · rw [h.exchanges s', if_neg fun heq => hs (Option.some.inj heq)]

/-- One more call, which fails. -/
theorem idle (h : Serves (some s) ops ns c c') {op : ExchangeOp}
    (hidle : (c'.exchange s).perform op = (c'.exchange s, [])) :
    Serves (some s) (ops ++ [op]) ns c c' := by
  refine ⟨fun s' => ?_, h.cancels⟩
  have hsame : ((c.exchange s).session (ops ++ [op])).1 = ((c.exchange s).session ops).1 := by
    rw [session_snoc]
    rw [Session.next, ← h.exchange, hidle]
  rw [h.exchanges s']
  split_ifs with hs
  · obtain rfl := Option.some.inj hs
    rw [hsame]
  · rfl

/-- The one call, to an exchange that need not be there yet. -/
theorem put (c : Core Q S L R) {op : ExchangeOp} {ex : ExchangeSimulator Q}
    (hex : ((c.exchange s).perform op).1 = ex) :
    Serves (some s) [op] [] c (c.putExchange s ex) := by
  refine ⟨fun s' => ?_, by simp [putExchange]⟩
  simp only [putExchange, ExtTreeMap.getElem?_insert, Std.compare_eq_iff_eq, Option.some.injEq]
  split_ifs with hs
  · rw [← hex, ← hs]
    rfl
  · rfl

end Serves

/-! ## The strategy accepts no cancel -/

/-- A command accepts no cancel. -/
theorem cancelsIn_handleCommand (c : Core Q S L R) (t : ℤ) (command : Command) :
    cancelsIn (c.handleCommand t command).effects = cancelsIn c.effects := by
  cases command with
  | cancelOrder orderId =>
    simp only [handleCommand, pushEvent, emit, cancelsIn_append]
    exact List.append_nil _
  | submitOrder order =>
    simp only [handleCommand, screenOrder]
    split
    · rw [pushAfterSat_eq]
      simp only [emit, cancelsIn_append, cancelsIn_pushEffects]
      exact (List.append_nil _).trans (List.append_nil _)
    · simp only [pushEvent, emit, cancelsIn_append]
      exact (List.append_nil _).trans (List.append_nil _)

/-- The commands of an answer accept no cancel. -/
theorem cancelsIn_handleCommands (c : Core Q S L R) (commands : List Command) (t : ℤ) :
    cancelsIn (c.handleCommands commands t).effects = cancelsIn c.effects := by
  induction commands generalizing c with
  | nil => rfl
  | cons command commands ih => exact (ih _).trans (cancelsIn_handleCommand c t command)

variable [Strategy S]

/-- Waking the strategy accepts no cancel. -/
theorem cancelsIn_wake (c : Core Q S L R) (call : Call) (t : ℤ) (wakeup : Bool) :
    cancelsIn (c.wake call t wakeup).1.effects = cancelsIn c.effects := by
  have hcall : ∀ strategy, cancelsIn (c.afterCall call t strategy).effects =
      cancelsIn c.effects := by
    intro strategy
    simp only [afterCall, emit, cancelsIn_append]
    exact List.append_nil _
  rcases wake_spec c call t wakeup with ⟨err, heq⟩ | ⟨strategy, commands, heq⟩
  · rw [heq]
    exact hcall _
  · rw [heq]
    exact (cancelsIn_handleCommands _ commands t).trans (hcall strategy)

/-- A flush accepts no cancel. -/
theorem cancelsIn_flushStrategy (c : Core Q S L R) (t : ℤ) :
    cancelsIn (c.flushStrategy t).1.effects = cancelsIn c.effects := by
  have hcalls : ∀ strategy (calls : List Call) tickBuffer reportBuffer, cancelsIn
      (c.disarmed.handed t strategy calls tickBuffer reportBuffer).effects =
        cancelsIn c.effects := by
    intro strategy calls tickBuffer reportBuffer
    have hnone : cancelsIn (calls.map (Effect.called · t c.market)) = [] := by
      simp [cancelsIn, List.filterMap_map]
    simp only [handed, cancelsIn_append]
    exact (congrArg _ hnone).trans (List.append_nil _)
  have htune : ∀ c : Core Q S L R, c.tune.effects = c.effects := by
    intro c
    unfold tune
    split_ifs <;> rfl
  rcases flushStrategy_spec c t with
    ⟨-, -, heq⟩ | ⟨strategy, calls, tickBuffer, err, -, heq⟩ | ⟨strategy, commands, heq⟩
  · rw [heq]
  · rw [heq]
    exact hcalls ..
  · rw [heq, htune, cancelsIn_handleCommands]
    exact hcalls ..

/-! ## The handlers -/

/-- Only the answer to a cancel counts. -/
theorem cancelsIn_pushAfterSat (c : Core Q S L R) (ts delay : ℤ) (kind : EventKind) :
    cancelsIn (c.pushAfterSat ts delay kind).effects =
      cancelsIn c.effects ++ kind.cancelAcked.toList := by
  rw [pushAfterSat_eq, cancelsIn_append, cancelsIn_pushEffects]

/-- A push of another kind accepts no cancel. -/
theorem cancelsIn_pushAfter (c : Core Q S L R) (ts delay : ℤ) {kind : EventKind}
    (hkind : kind.cancelAcked = none) :
    cancelsIn (c.pushAfter ts delay kind).effects = cancelsIn c.effects := by
  rw [pushAfter_eq, cancelsIn_append, cancelsIn_pushEffects, hkind, Option.toList_none,
    List.append_nil]

/-- Pushing another event is no call. -/
theorem Serves.pushAfterSat (h : Serves symbol ops ns c c') (ts delay : ℤ) {kind : EventKind}
    (hkind : kind.cancelAcked = none) : Serves symbol ops ns c (c'.pushAfterSat ts delay kind) := by
  refine h.frame (exchanges_pushAfterSat ..) ?_
  rw [cancelsIn_pushAfterSat, hkind, Option.toList_none, List.append_nil]

/-- Booking what a trade fills accepts no cancel. -/
theorem cancelsIn_bookTrade (c : Core Q S L R) (tick : Tick) (ex : ExchangeSimulator Q)
    (reports : List OrderReport) :
    cancelsIn (c.bookTrade tick ex reports).effects = cancelsIn c.effects := by
  have hfills : ∀ fills : List (Order × TradeFill),
      cancelsIn (fills.map fun f => .filled f.2) = [] := by
    simp [cancelsIn, List.filterMap_map]
  have hreports : ∀ ts delay pushed, cancelsIn (reports.flatMap fun r =>
      pushEffects ts delay pushed (.orderReport r)) = [] := by
    intro ts delay pushed
    induction reports with
    | nil => rfl
    | cons r reports ih =>
      rw [List.flatMap_cons, cancelsIn_append, cancelsIn_pushEffects, ih]
      rfl
  obtain ⟨-, -, -, heffects⟩ := bookTrade_cases c tick ex reports
  rw [heffects, cancelsIn_append, cancelsIn_append, hfills, hreports, List.append_nil,
    List.append_nil]

/-- The report of a market order accepts no cancel. -/
theorem cancelsIn_reportMarket (c : Core Q S L R) (maybeOrder : Option Order)
    (report : OrderReport) :
    cancelsIn (c.reportMarket maybeOrder report).effects = cancelsIn c.effects := by
  obtain ⟨-, -, -, fills, ts, delay, pushed, hfills, heffects⟩ :=
    reportMarket_cases c maybeOrder report
  have hnone : cancelsIn fills = [] := by
    refine List.filterMap_eq_nil_iff.2 fun x hx => ?_
    obtain ⟨fill, rfl, -⟩ := hfills x hx
    rfl
  rw [heffects, cancelsIn_append, cancelsIn_append, hnone, cancelsIn_pushEffects]
  exact (List.append_nil _).trans (List.append_nil _)

/-- An order that arrives has its latency drawn. -/
theorem orderLatency_onOrder [LatencyModel L R] (c : Core Q S L R) (order : Order) :
    ∃ dt, .orderLatency order.orderId dt ∈ (c.onOrder order).1.effects := by
  let c' := c.putExchange order.symbolId ((c.exchange order.symbolId).submitOrder order)
  let c'' := c'.sampleOrderLatency.2.emit (.orderLatency order.orderId c'.sampleOrderLatency.1)
  refine ⟨c'.sampleOrderLatency.1, ?_⟩
  change _ ∈ (c''.pushAfterSat c''.nowTsSim c'.sampleOrderLatency.1
    (.orderAck order.orderId)).effects
  rw [pushAfterSat_eq]
  exact List.mem_append_left _ (List.mem_append_right _ (List.mem_singleton_self _))

/-- What is left of a market order is cancelled by one call. -/
theorem serves_cancelRest (h : Serves (some s) ops ns c c') (n : ℕ) :
    Serves (some s) (ops ++ [.forceCancelPartialFill n]) ns c (c'.cancelRest n s) := by
  unfold cancelRest
  split
  · next heq =>
    exact h.idle (by simp only [ExchangeSimulator.perform, heq])
  · next report ex heq =>
    have hperform : ((c'.exchange s).perform (.forceCancelPartialFill n)).1 = ex := by
      simp only [ExchangeSimulator.perform, heq]
    exact (h.perform hperform).pushAfterSat _ _ rfl

/-- A market order is carried out by the calls of `marketCalls`. -/
theorem serves_fillMarket (h : Serves (some s) ops ns c c') (n : ℕ) :
    Serves (some s) (ops ++ (c'.exchange s).marketCalls n
      (c'.truthLastTradeBySymbol[s]?.map (·.price))) ns c (c'.fillMarket n s) := by
  unfold fillMarket marketCalls
  dsimp only
  cases heq : (c'.exchange s).fillMarketImmediately n
      (c'.truthLastTradeBySymbol[s]?.map (·.price)) with
  | none => exact h.idle (by simp only [ExchangeSimulator.perform, heq])
  | some result =>
    obtain ⟨report, ex⟩ := result
    have hperform : ((c'.exchange s).perform (.fillMarketImmediately n
        (c'.truthLastTradeBySymbol[s]?.map (·.price)))).1 = ex := by
      simp only [ExchangeSimulator.perform, heq]
    have hreport := (h.perform hperform).frame
      (exchanges_reportMarket ((c'.exchange s).getOrder n) report) (cancelsIn_reportMarket ..)
    dsimp only
    split_ifs
    · exact List.append_assoc ops [_] [_] ▸ serves_cancelRest hreport n
    · exact hreport

/-- The reports of a limit order's ACK. -/
theorem serves_ackNew (h : Serves (some s) ops ns c c') (n : ℕ) :
    Serves (some s) (ops ++ [.ackNew n]) ns c
      (match (c'.exchange s).ackNew n with
      | .error _ => (c', Flow.next false)
      | .ok (report, ex) =>
        ((c'.putExchange s ex).pushAfterSat c'.nowTsSim c'.config.orderUpdateLatencyNs
          (.orderReport report), (.next false : Flow (Strategy.Error S)))).1 := by
  cases heq : (c'.exchange s).ackNew n with
  | error err => exact h.idle (by simp only [ExchangeSimulator.perform, heq])
  | ok acked =>
    have hperform : ((c'.exchange s).perform (.ackNew n)).1 = acked.2 := by
      simp only [ExchangeSimulator.perform, heq]
    exact (h.perform hperform).pushAfterSat _ _ rfl

/-- An acknowledgement calls the exchange where the order is registered. -/
theorem serves_onOrderAck (n : ℕ) : Serves c.orderSymbolById[n]? (c.calls (.orderAck n)) [] c
    (c.onOrderAck n).1 := by
  cases hs : c.orderSymbolById[n]? with
  | none => simpa only [onOrderAck, calls, hs] using Serves.refl c _
  | some s =>
    have hmut := Serves.exchangeMut c s
    have hsame := exchange_exchangeMut c s
    simp only [onOrderAck, calls, hs, ← hsame]
    cases hkind : (((c.exchangeMut s).exchange s).getOrder n).map Order.orderType with
    | none => exact serves_ackNew hmut n
    | some kind =>
      cases kind with
      | market => exact serves_fillMarket hmut n
      | limit => exact serves_ackNew hmut n

/-- A cancel is one call, accepted or not. -/
theorem serves_onOrderCancel [LatencyModel L R] (n : ℕ) : Serves c.orderSymbolById[n]?
    [.cancelOrder n] (c.acceptedCancels (.orderCancel n)) c (c.onOrderCancel n).1 := by
  unfold onOrderCancel acceptedCancels
  dsimp only
  split
  · next hs => exact hs ▸ .refl c _
  · next s hs =>
    have hmut := Serves.exchangeMut c s
    have hsame := exchange_exchangeMut c s
    simp only [hs, ← hsame]
    cases heq : ((c.exchangeMut s).exchange s).cancelOrder n with
    | error err => exact hmut.idle (by simp only [ExchangeSimulator.perform, heq])
    | ok ex =>
      have hperform : (((c.exchangeMut s).exchange s).perform (.cancelOrder n)).1 = ex := by
        simp only [ExchangeSimulator.perform, heq]
      obtain ⟨hexchanges, hcancels⟩ := hmut.perform hperform
      refine ⟨fun s' => ?_, ?_⟩
      · dsimp only
        rw [exchanges_pushAfterSat]
        exact hexchanges s'
      · dsimp only
        rw [cancelsIn_pushAfterSat]
        simp only [emit, cancelsIn_append]
        exact congrArg (· ++ [n]) ((List.append_nil _).trans (hcancels.trans (List.append_nil _)))

/-- The answer to a cancel is one call. -/
theorem serves_onOrderCancelAck (n : ℕ) : Serves c.orderSymbolById[n]? [.ackCancel n] [] c
    (c.onOrderCancelAck n).1 := by
  unfold onOrderCancelAck
  split
  · next hs => exact hs ▸ .refl c _
  · next s hs =>
    have hmut := Serves.exchangeMut c s
    rw [hs]
    dsimp only
    split
    · next heq =>
      exact hmut.idle (by simp only [ExchangeSimulator.perform, heq])
    · next report ex heq =>
      have hperform : (((c.exchangeMut s).exchange s).perform (.ackCancel n)).1 = ex := by
        simp only [ExchangeSimulator.perform, heq]
      exact (hmut.perform hperform).frame (exchanges_pushAfter ..) (cancelsIn_pushAfter _ _ _ rfl)

theorem serves_forget (report : OrderReport) :
    Serves ((EventKind.orderReport report).touched c.orderSymbolById)
      [.removeOrder report.orderId] [] c (c.forget report) := by
  change Serves (if report.status.isTerminal then _ else _) _ _ c _
  unfold forget
  split_ifs
  · split
    · next hs => exact hs ▸ .refl c _
    · next s hs =>
      rw [hs]
      exact (Serves.put c rfl).frame rfl rfl
  · exact .refl c _

/-- The handler of an event makes the calls of the event and does nothing else to the exchanges,
unless it is a depth update that mixes modes and changes nothing. -/
theorem serves_handle [LatencyModel L R] (c : Core Q S L R) (kind : EventKind) :
    (kind.isDepth = true ∧ (c.handle kind).1 = c) ∨ Serves (kind.touched c.orderSymbolById)
    (c.calls kind)
      (c.acceptedCancels kind) (c.opened kind) (c.handle kind).1 := by
  cases kind with
  | tick tick =>
    have hput : Serves (some tick.symbolId) [.onTrade tick] [] c
        ((c.observeTrade tick).putExchange tick.symbolId
          ((c.exchange tick.symbolId).onTrade tick).1) :=
      (Serves.put c rfl).frame rfl rfl
    exact .inr (hput.frame (bookTrade_cases _ _ _ _).2.1 (cancelsIn_bookTrade ..))
  | tickDelivery tick =>
    refine .inr ((Serves.refl c []).frame ?_ ?_)
    · simp only [handle, onTickDelivery]
      split
      · exact exchanges_speaks (c := c.observeDelivery tick) (speaks_wake ..)
      · split_ifs
        · exact exchanges_pushAfter ..
        · rfl
    · simp only [handle, onTickDelivery]
      split
      · exact cancelsIn_wake (c.observeDelivery tick) ..
      · split_ifs
        · exact cancelsIn_pushAfter _ _ _ rfl
        · rfl
  | l2Update update =>
    by_cases hl3 : update.symbolId ∈ c.l3DepthSymbols
    · rw [handle, onL2Update_mixed hl3]
      exact .inl ⟨rfl, rfl⟩
    · rw [handle, onL2Update_eq hl3]
      exact .inr ((Serves.put c rfl).frame rfl rfl)
  | l3Update update =>
    by_cases hl2 : update.symbolId ∈ c.l2DepthSymbols
    · rw [handle, onL3Update_mixed hl2]
      exact .inl ⟨rfl, rfl⟩
    · rw [handle, onL3Update_eq hl2]
      exact .inr (.put _ rfl)
  | order order =>
    have hput : Serves (some order.symbolId) [.submitOrder order] [] c
        (c.putExchange order.symbolId ((c.exchange order.symbolId).submitOrder order)) := .put c rfl
    have hlatency : Serves (some order.symbolId) [.submitOrder order] [] c
        ((c.putExchange order.symbolId ((c.exchange order.symbolId).submitOrder
          order)).sampleOrderLatency.2.emit
            (.orderLatency order.orderId (c.putExchange order.symbolId
            ((c.exchange order.symbolId).submitOrder order)).sampleOrderLatency.1)) :=
      hput.frame rfl (by simp only [emit, cancelsIn_append]; exact List.append_nil _)
    exact .inr (hlatency.pushAfterSat _ _ rfl)
  | orderAck n => exact .inr (serves_onOrderAck n)
  | orderCancel n => exact .inr (serves_onOrderCancel n)
  | orderCancelAck n => exact .inr (serves_onOrderCancelAck n)
  | orderReport report =>
    refine .inr ((serves_forget report).frame ?_ ?_)
    · simp only [handle, onOrderReport]
      split
      · exact exchanges_speaks (speaks_wake ..)
      · rfl
    · simp only [handle, onOrderReport]
      split
      · exact cancelsIn_wake ..
      · rfl
  | funding event =>
    have hfund : (c.applyFunding event).exchanges = c.exchanges ∧
        (c.applyFunding event).effects = c.effects := by
      unfold applyFunding
      dsimp only
      split <;> exact ⟨rfl, rfl⟩
    exact .inr ((Serves.refl c []).frame ((exchanges_speaks (speaks_wake ..)).trans hfund.1)
      ((cancelsIn_wake ..).trans (congrArg cancelsIn hfund.2)))
  | timer timerId =>
    refine .inr ((Serves.refl c []).frame ?_ ?_) <;>
      · simp only [handle, onTimer]
        split_ifs <;> rfl

end Core

/-! ## Turns -/

namespace Engine

open ExchangeSimulator

variable {T U S L R : Type} [Strategy S] {e e' e₀ : Engine T U Q S L R} {s n : ℕ}

theorem cancelsIn_of_isIntake {l : List Effect} (h : ∀ x ∈ l, x.isIntake = true) :
    cancelsIn l = [] := by
  refine List.filterMap_eq_nil_iff.2 fun x hx => ?_
  have hintake := h x hx
  cases x with
  | scheduled ts kind => cases kind <;> first | rfl | cases hintake
  | _ => rfl

/-- A flush leaves the exchanges as they are and accepts no cancel. -/
theorem flush_aside (e : Engine T U Q S L R) : e.flush.1.core.exchanges = e.core.exchanges ∧
    e.flush.1.core.l3DepthSymbols = e.core.l3DepthSymbols ∧
    ∃ new, e.flush.1.trace = e.trace ++ new ∧ cancelsIn new = [] := by
  obtain ⟨new, -, hcommanded⟩ := commanded_flush e
  refine ⟨hcommanded.frame.1, hcommanded.frame.2.2, _, trace_absorb e _, ?_⟩
  exact Core.cancelsIn_flushStrategy e.core.cleared e.core.nowTsSim

theorem deferredFlush_aside (e : Engine T U Q S L R) (wakeup : Bool) :
    (e.deferredFlush wakeup).1.core.exchanges = e.core.exchanges ∧
    (e.deferredFlush wakeup).1.core.l3DepthSymbols = e.core.l3DepthSymbols ∧
    ∃ new, (e.deferredFlush wakeup).1.trace = e.trace ++ new ∧ cancelsIn new = [] := by
  have hflush := flush_aside e
  unfold deferredFlush
  split_ifs
  · split
    · next heq => simpa [heq] using hflush
    · next e' heq =>
      have he' : e'.core.exchanges = e.core.exchanges ∧
          e'.core.l3DepthSymbols = e.core.l3DepthSymbols ∧
          ∃ new, e'.trace = e.trace ++ new ∧ cancelsIn new = [] := by simpa [heq] using hflush
      exact he'
  · exact ⟨rfl, rfl, [], by simp, rfl⟩
  · exact ⟨rfl, rfl, [], by simp, rfl⟩

variable [LatencyModel L R]

/-- After the handler of an event the strategy leaves the exchanges as they are and accepts no
cancel. -/
theorem dispatch_aside (e : Engine T U Q S L R) (event : Event) :
    let r := (e.core.cleared.atTime event.tsSim).handle event.kind
    (e.dispatch event).1.core.exchanges = r.1.exchanges ∧
    (e.dispatch event).1.core.l3DepthSymbols = r.1.l3DepthSymbols ∧
    ∃ new, (e.dispatch event).1.trace =
      e.trace ++ .popped event e.core.activeBatchTimerId :: (r.1.effects ++ new) ∧
        cancelsIn new = [] := by
  intro r
  have hcore : (e.handleEvent event).1.core = r.1.cleared := core_absorb _ _
  have hexchanges : (e.handleEvent event).1.core.exchanges = r.1.exchanges := hcore ▸ rfl
  have hmarks : (e.handleEvent event).1.core.l3DepthSymbols = r.1.l3DepthSymbols := hcore ▸ rfl
  have htrace : (e.handleEvent event).1.trace =
      e.trace ++ .popped event e.core.activeBatchTimerId :: r.1.effects := by
    have habsorb := trace_absorb (e.log (.popped event e.core.activeBatchTimerId)) r.1
    rw [trace_log, List.append_assoc] at habsorb
    exact habsorb
  clear hcore
  unfold dispatch
  generalize e.handleEvent event = handled at hexchanges hmarks htrace
  obtain ⟨e', err | _ | wakeup⟩ := handled
  · exact ⟨hexchanges, hmarks, [], by simpa using htrace, rfl⟩
  · exact ⟨hexchanges, hmarks, [], by simpa using htrace, rfl⟩
  · obtain ⟨hexchanges', hmarks', new, hnew, hcancels⟩ := deferredFlush_aside e' wakeup
    refine ⟨hexchanges'.trans hexchanges, hmarks'.trans hmarks, new, ?_, hcancels⟩
    dsimp only at htrace ⊢
    rw [hnew, htrace, List.append_assoc, List.cons_append]

/-! ## Hosted sessions -/

/-- The exchange of `s` is not there yet, or is the session of a new one by calls that the engine
may make, in which only orders are submitted whose latency is sampled. -/
def Hosted (s : ℕ) (e : Engine T U Q S L R) : Prop :=
  e.core.exchanges[s]? = none ∨ ∃ ex₀ ops, ex₀.IsNew ∧ Always (MayMove ex₀) ops ∧
    e.core.exchange s = (ex₀.session ops).1 ∧
    ∀ n ∈ submittedIds ops, ∃ dt, .orderLatency n dt ∈ e.trace

omit [LatencyModel L R] in
theorem isNew_of_absent (c : Core Q S L R) (h : c.exchanges[s]? = none) : (c.exchange s).IsNew := by
  refine ⟨c.queueModel, ?_⟩
  rw [Core.exchange, h, Option.getD_none]
  split_ifs
  · exact .inr rfl
  · exact .inl rfl

omit [LatencyModel L R] in
theorem Hosted.session (h : e.Hosted s) : ∃ ex₀ ops, ex₀.IsNew ∧ Always (MayMove ex₀) ops ∧
    e.core.exchange s = (ex₀.session ops).1 ∧
    ∀ n ∈ submittedIds ops, ∃ dt, .orderLatency n dt ∈ e.trace :=
  h.elim
    (fun habsent => ⟨_, [], isNew_of_absent _ habsent, always_nil, rfl, by simp [submittedIds]⟩) id

variable {ph : Phase} {ex₀ : ExchangeSimulator Q} {ops : List ExchangeOp}

omit [LatencyModel L R] in
/-- Work elsewhere. -/
theorem Hosted.frame (h : e.Hosted s) (hexchanges : e'.core.exchanges[s]? = e.core.exchanges[s]?)
    (htrace : ∀ x ∈ e.trace, x ∈ e'.trace) : e'.Hosted s := by
  cases hsome : e.core.exchanges[s]? with
  | none => exact .inl (hexchanges.trans hsome)
  | some ex =>
    obtain ⟨ex₀, ops, hnew, hmay, hex, hknown⟩ := h.session
    refine .inr ⟨ex₀, ops, hnew, hmay, ?_, fun n hn => ?_⟩
    · rw [← hex, Core.exchange, Core.exchange, hexchanges, hsome]
      rfl
    · obtain ⟨dt, hdt⟩ := hknown n hn
      exact ⟨dt, htrace _ hdt⟩

omit [LatencyModel L R] in
/-- The calls of a popped event are possible. -/
theorem Tracked.may_calls (h : e.Tracked) {event : Event} {queue : EventQueue}
    (pop : e.queue.pop = some (event, queue)) {c : Core Q S L R}
    (hregistry : c.orderSymbolById = e.core.orderSymbolById)
    (hexchanges : c.exchange = e.core.exchange)
    (htouched : event.kind.touched e.core.orderSymbolById = some s)
    (hmay : Always (MayMove ex₀) ops)
    (hex : ∀ n, event.kind = .orderAck n → e.core.exchange s = (ex₀.session ops).1)
    (hknown : ∀ n ∈ submittedIds ops, ∃ dt, .orderLatency n dt ∈ e.trace) :
    Always (MayMove ex₀) (ops ++ c.calls event.kind) := by
  have hplain : ∀ op, op.submitted = none → (∀ m p, op ≠ .fillMarketImmediately m p) →
      (∀ m, op ≠ .forceCancelPartialFill m) → Always (MayMove ex₀) (ops ++ [op]) :=
    fun op hs hfill hforce => always_snoc.2 ⟨hmay, mayMove_of_plain hs hfill hforce⟩
  cases hkind : event.kind with
  | order o =>
    obtain ⟨ph, hin⟩ := h.inPhase o.orderId
    have hpending := h.pending_of_pop pop hin (by simp [hkind, EventKind.moves])
    obtain ⟨rfl, -⟩ := Phase.eq_travelling (hkind ▸ hpending)
    refine always_snoc.2 ⟨hmay, fun n hn hmem => ?_, trivial⟩
    obtain rfl : o.orderId = n := Option.some.inj hn
    obtain ⟨dt, hdt⟩ := hknown _ hmem
    cases hin.life.latency_iff.2 hdt
  | orderAck n =>
    have hs : e.core.orderSymbolById[n]? = some s := by rwa [hkind] at htouched
    obtain ⟨ph, hin⟩ := h.inPhase n
    have hpending := h.pending_of_pop pop hin (by simp [hkind, EventKind.moves])
    obtain ⟨o, dt, rfl, -⟩ := Phase.eq_awaiting (hkind ▸ hpending)
    have hface : (e.core.exchange s).face n = some (o, .pendingNew) := by
      have hsymbol := hin.stage.registry
      rw [hs] at hsymbol
      exact (congrFun hin.stage.faces s).trans (if_pos hsymbol.symm)
    simp only [Core.calls, hregistry, hs, hexchanges, hex n hkind]
    rw [hex n hkind] at hface
    split
    · next hmarket =>
      refine always_marketCalls hmay (fun live hlive => ?_) _
      obtain ⟨live', hlive', horder, hstate⟩ := face_eq_some.1 hface
      obtain rfl := Option.some.inj (hlive'.symm.trans hlive)
      rw [getOrder, hlive] at hmarket
      exact ⟨hstate, Option.some.inj hmarket⟩
    · exact hplain _ rfl (by simp) (by simp)
  | tickDelivery tick => cases hkind ▸ htouched
  | funding f => cases hkind ▸ htouched
  | timer timerId => cases hkind ▸ htouched
  | _ => exact hplain _ rfl (by simp) (by simp)

/-- The popped event takes the exchange of `s` from the session of the calls `ops` to a session in
which the calls of the event follow. -/
structure Conducts (s : ℕ) (e : Engine T U Q S L R) (event : Event) (e' : Engine T U Q S L R)
    (ex₀ : ExchangeSimulator Q) (ops : List ExchangeOp) : Prop where
  isNew : ex₀.IsNew
  touched : event.kind.touched e.core.orderSymbolById = some s
  may : Always (MayMove ex₀) (ops ++ (e.core.cleared.atTime event.tsSim).calls event.kind)
  orders : (e.core.exchange s).orders = (ex₀.session ops).1.orders
  /-- An L3 update may find no exchange yet and mark its symbol first. -/
  before : (∀ update, event.kind ≠ .l3Update update) → e.core.exchange s = (ex₀.session ops).1
  after : e'.core.exchange s =
    (ex₀.session (ops ++ (e.core.cleared.atTime event.tsSim).calls event.kind)).1
  known : ∀ n ∈ submittedIds ops, ∃ dt, .orderLatency n dt ∈ e.trace

omit [Strategy S] [LatencyModel L R] in
/-- The one call of an event. -/
theorem Conducts.perform {event : Event} (h : Conducts s e event e' ex₀ ops) {op : ExchangeOp}
    (hcalls : (e.core.cleared.atTime event.tsSim).calls event.kind = [op])
    (hl3 : ∀ update, event.kind ≠ .l3Update update) :
    e'.core.exchange s = ((e.core.exchange s).perform op).1 := by
  rw [h.after, hcalls, session_snoc, h.before hl3]
  rfl

/-- A popped event continues the session of the exchange it touches, unless it mixes depth modes,
and leaves the other exchanges as they are. -/
theorem Hosted.conducts (h : e.Hosted s) (htracked : e.Tracked) {event : Event} {queue : EventQueue}
    (pop : e.queue.pop = some (event, queue)) :
    ((event.kind.touched e.core.orderSymbolById = some s → event.kind.isDepth = true) ∧
      ((e.withQueue queue).dispatch event).1.core.exchanges[s]? = e.core.exchanges[s]?) ∨
      ∃ ex₀ ops, Conducts s e event ((e.withQueue queue).dispatch event).1 ex₀ ops := by
  let c := e.core.cleared.atTime event.tsSim
  obtain ⟨hexchanges, -⟩ := dispatch_aside (e.withQueue queue) event
  have hopened : (c.opened event.kind).exchanges = e.core.exchanges := by
    cases event.kind <;> rfl
  have hplain : (∀ update, event.kind ≠ .l3Update update) →
      e.core.exchange s = (c.opened event.kind).exchange s := by
    intro hl3
    cases hkind : event.kind with
    | l3Update update => exact absurd hkind (hl3 update)
    | _ => rfl
  rw [hexchanges]
  rcases Core.serves_handle c event.kind with ⟨hdepth, heq⟩ | hserves
  · exact .inl ⟨fun _ => hdepth,
      (congrArg (fun c : Core Q S L R => c.exchanges[s]?) heq : _ = c.exchanges[s]?)⟩
  by_cases htouched : event.kind.touched e.core.orderSymbolById = some s
  · have hsession : ∃ ex₀ ops, ex₀.IsNew ∧ Always (MayMove ex₀) ops ∧
        (c.opened event.kind).exchange s = (ex₀.session ops).1 ∧
        (e.core.exchange s).orders = (ex₀.session ops).1.orders ∧
        ∀ n ∈ submittedIds ops, ∃ dt, .orderLatency n dt ∈ e.trace := by
      cases hsome : e.core.exchanges[s]? with
      | none =>
        have hempty : ∀ ex : ExchangeSimulator Q, ex.IsNew → ex.orders = ∅ := by
          rintro ex ⟨q, rfl | rfl⟩ <;> rfl
        have hnew := isNew_of_absent (c.opened event.kind) (hopened ▸ hsome)
        refine ⟨_, [], hnew, always_nil, rfl, ?_, by simp [submittedIds]⟩
        exact (hempty _ (isNew_of_absent _ hsome)).trans (hempty _ hnew).symm
      | some ex =>
        obtain ⟨ex₀, ops, hnew, hmay, hex, hknown⟩ := h.session
        refine ⟨ex₀, ops, hnew, hmay, ?_, congrArg _ hex, hknown⟩
        rw [← hex, Core.exchange, Core.exchange, hopened, hsome]
        rfl
    obtain ⟨ex₀, ops, hnew, hmay, hex, horders, hknown⟩ := hsession
    have hbefore := fun hl3 => (hplain hl3).trans hex
    refine .inr ⟨ex₀, ops, hnew, htouched, ?_, horders, hbefore, ?_, hknown⟩
    · exact htracked.may_calls pop rfl rfl htouched hmay (fun n hkind => hbefore (by simp [hkind]))
        hknown
    · rw [session_append, ← hex, Core.exchange, hexchanges]
      exact congrArg (fun found : Option (ExchangeSimulator Q) => found.getD _)
        ((hserves.exchanges s).trans (if_pos htouched))
  · exact .inl ⟨fun hs => absurd hs htouched, (hserves.exchanges s).trans
      ((if_neg htouched).trans (congrArg (fun m => m[s]?) hopened))⟩

omit [Strategy S] [LatencyModel L R] in
/-- Only the arrival of an order submits it. -/
theorem submitted_of_calls {c : Core Q S L R} {kind : EventKind}
    (h : n ∈ submittedIds (c.calls kind)) :
    ∃ o, kind = .order o ∧ o.orderId = n := by
  cases kind with
  | order o => exact ⟨o, rfl, (List.mem_singleton.1 h).symm⟩
  | orderAck m =>
    simp only [Core.calls] at h
    split at h
    · cases h
    · split at h
      · rw [submittedIds_marketCalls] at h
        cases h
      · cases h
  | _ => cases h

theorem Hosted.dispatch (h : e.Hosted s) (htracked : e.Tracked) {event : Event} {queue : EventQueue}
    (pop : e.queue.pop = some (event, queue)) :
    ((e.withQueue queue).dispatch event).1.Hosted s := by
  obtain ⟨-, -, new, htrace, -⟩ := dispatch_aside (e.withQueue queue) event
  have hgrow : ∀ x ∈ e.trace, x ∈ ((e.withQueue queue).dispatch event).1.trace := fun x hx => by
    rw [htrace]
    exact List.mem_append_left _ hx
  rcases h.conducts htracked pop with ⟨-, hsame⟩ | ⟨ex₀, ops, hconducts⟩
  · exact h.frame hsame hgrow
  · refine .inr ⟨ex₀, _, hconducts.isNew, hconducts.may, hconducts.after, fun n hn => ?_⟩
    rw [submittedIds_append] at hn
    rcases List.mem_append.1 hn with hn | hn
    · obtain ⟨dt, hdt⟩ := hconducts.known n hn
      exact ⟨dt, hgrow _ hdt⟩
    · obtain ⟨o, hkind, rfl⟩ := submitted_of_calls hn
      obtain ⟨dt, hdt⟩ := Core.orderLatency_onOrder (e.core.cleared.atTime event.tsSim) o
      refine ⟨dt, ?_⟩
      rw [htrace, hkind]
      exact List.mem_append_right _ (List.mem_cons_of_mem _ (List.mem_append_left _ hdt))

theorem Hosted.flush (h : e.Hosted s) : e.flush.1.Hosted s := by
  obtain ⟨hexchanges, -, new, htrace, -⟩ := flush_aside e
  exact h.frame (by rw [hexchanges]) fun x hx => htrace ▸ List.mem_append_left _ hx

variable [TickSource T] [L3Source U]

theorem Hosted.ingest {ε : Type} (h : e.Hosted s) : (e.ingest (ε := ε)).1.Hosted s := by
  obtain ⟨hcore, intake, htrace, -⟩ := e.ingest_frame (ε := ε)
  exact h.frame (by rw [hcore]) fun x hx => htrace ▸ List.mem_append_left _ hx

theorem Hosted.turn (h : e.Hosted s) (htracked : e.Tracked) : e.turn.1.Hosted s := by
  have htaken := h.ingest (ε := Strategy.Error S)
  obtain ⟨e₁, rfl, ⟨-, -, hturn | hturn⟩ | ⟨event, queue, hpop, -, -, hturn⟩⟩ := turn_pops e
  · rwa [hturn]
  · rw [hturn]
    exact htaken.flush
  · rw [hturn]
    exact htaken.dispatch htracked.ingest hpop

/-- At every turn of a run the exchange of a symbol is not there yet, or is the session of a new
one. -/
theorem hosted [SeedableRng R] {allowed : ℤ → EventKind → Prop}
    {st : Status (EngineError (Strategy.Error S))} (built : Built allowed e₀)
    (h : Reaches turn (External allowed) e₀ e st)
    (outside : ∀ ts kind, allowed ts kind → kind.isOrderEvent = false) (s : ℕ) : e.Hosted s := by
  refine (open_invariant (I := fun e => e.Tracked ∧ e.Hosted s) built h ?_ ?_ ?_).2
  · exact fun _ _ _ _ _ => ⟨tracked_new .., .inl (by simp [Engine.new])⟩
  · rintro e e' ⟨htracked, hhosted⟩ hext
    refine ⟨htracked.external outside hext, ?_⟩
    cases hext with
    | addTickSource source => exact hhosted.frame rfl fun _ hx => hx
    | addL3Source source => exact hhosted.frame rfl fun _ hx => hx
    | pushEvent _ => exact hhosted.frame rfl fun x hx => List.mem_append_left _ hx
  · rintro e ⟨htracked, hhosted⟩
    exact ⟨htracked.turn, hhosted.turn htracked⟩

end Engine

end Backtester
