import Backtester.Calendar
import Backtester.PositionLimit
import Backtester.Turns

/-!
# The strategy hears of every fill

A handler that books fills sends a report of each of them, in the same order, and no other report
tells of a fill (`Core.Echoes`). The report channel keeps the order and loses nothing, so what the
strategy was told of its fills is at every moment a prefix of what was booked, and all of it when
the run finishes (`fills_reported`).
-/

open Run StableSort History Std

set_option linter.unusedSectionVars false

namespace Backtester

/-- What is known of a fill on both sides of the report channel. -/
structure Execution where
  orderId : ℕ
  symbolId : ℕ
  qty : ℤ
  price : ℤ
  deriving DecidableEq, Repr

/-- What of a fill a report tells. -/
def TradeFill.execution (f : TradeFill) : Execution := ⟨f.orderId, f.symbolId, f.qty, f.price⟩

/-- The fill a report tells of, if it tells of one. -/
def OrderReport.execution (r : OrderReport) : Option Execution :=
  if 0 < r.lastFillQty then some ⟨r.orderId, r.symbolId, r.lastFillQty, r.lastFillPrice⟩ else none

/-- What the fills that were booked have to tell, in order. -/
def executionsBooked (l : List Effect) : List Execution := (filledIn l).map TradeFill.execution

/-- The fills told of by the reports that were sent. -/
def executionsSent (l : List Effect) : List Execution :=
  (reportsSent l).filterMap OrderReport.execution

/-- An event that tells of no fill. -/
def EventKind.IsSilent (kind : EventKind) : Prop := ∀ r ∈ kind.reports, r.execution = none

/-- What is booked in the parts is booked in the whole. -/
theorem executionsBooked_append (l l' : List Effect) :
    executionsBooked (l ++ l') = executionsBooked l ++ executionsBooked l' := by
  rw [executionsBooked, filledIn_append, List.map_append]
  rfl

/-- What is sent in the parts is sent in the whole. -/
theorem executionsSent_append (l l' : List Effect) :
    executionsSent (l ++ l') = executionsSent l ++ executionsSent l' := by
  rw [executionsSent, reportsSent, scheduledIn_append, List.flatMap_append, List.filterMap_append]
  rfl

/-- A scheduled report sends its fill. -/
theorem executionsSent_singleton (ts : ℤ) (kind : EventKind) :
    executionsSent [.scheduled ts kind] = kind.reports.filterMap OrderReport.execution := by
  cases kind with
  | orderReport r => rfl
  | _ => rfl

variable {Q S L R : Type} [QueueModel Q] {c c' c'' : Core Q S L R}

namespace Core

/-- A pushed report sends its fill. -/
theorem executionsSent_pushEffects (ts delay pushed : ℤ) (kind : EventKind) :
    executionsSent (pushEffects ts delay pushed kind) =
      kind.reports.filterMap OrderReport.execution := by
  unfold pushEffects
  split_ifs
  · exact executionsSent_singleton pushed kind
  · rw [← List.singleton_append, executionsSent_append, executionsSent_singleton]
    rfl

/-- A push books nothing. -/
theorem executionsBooked_pushEffects (ts delay pushed : ℤ) (kind : EventKind) :
    executionsBooked (pushEffects ts delay pushed kind) = [] := by
  unfold pushEffects
  split_ifs <;> rfl

/-- `c'` comes from `c` by work that reports the fills it books, and no others. -/
def Echoes (c c' : Core Q S L R) : Prop :=
  ∃ new, c'.effects = c.effects ++ new ∧ executionsSent new = executionsBooked new

namespace Echoes

/-- Without a new effect there is nothing to echo. -/
theorem of_eq (heffects : c'.effects = c.effects) : Echoes c c' := ⟨[], by simp [heffects], rfl⟩

theorem refl (c : Core Q S L R) : Echoes c c := of_eq rfl

/-- Echoes of one step and then of the next. -/
theorem trans (h : Echoes c c') (h' : Echoes c' c'') : Echoes c c'' := by
  obtain ⟨new, heq, hnew⟩ := h
  obtain ⟨new', heq', hnew'⟩ := h'
  refine ⟨new ++ new', by rw [heq', heq, List.append_assoc], ?_⟩
  rw [executionsSent_append, executionsBooked_append, hnew, hnew']

/-- Effects that neither send nor book a fill may be added. -/
theorem append (h : Echoes c c') (new : List Effect) (heffects : c''.effects = c'.effects ++ new)
    (hsent : executionsSent new = []) (hbooked : executionsBooked new = []) : Echoes c c'' :=
  h.trans ⟨new, heffects, hsent.trans hbooked.symm⟩

/-- A silent event may be pushed. -/
theorem pushEffects (h : Echoes c c') {ts delay pushed : ℤ} {kind : EventKind}
    (heffects : c''.effects = c'.effects ++ Core.pushEffects ts delay pushed kind)
    (silent : kind.IsSilent) :
    Echoes c c'' := by
  refine h.append _ heffects ?_ (executionsBooked_pushEffects ..)
  rw [executionsSent_pushEffects]
  exact List.filterMap_eq_nil_iff.2 silent

/-- A silent event may be pushed after a delay. -/
theorem pushAfter (h : Echoes c c') (ts delay : ℤ) {kind : EventKind} (silent : kind.IsSilent) :
    Echoes c (c'.pushAfter ts delay kind) := by
  rw [pushAfter_eq]
  exact h.pushEffects rfl silent

/-- A silent event may be pushed with a saturating sum. -/
theorem pushAfterSat (h : Echoes c c') (ts delay : ℤ) {kind : EventKind} (silent : kind.IsSilent) :
    Echoes c (c'.pushAfterSat ts delay kind) := by
  rw [pushAfterSat_eq]
  exact h.pushEffects rfl silent

/-! ### Commands and calls -/

variable {t : ℤ}

/-- The refusal of an order tells of no fill. -/
theorem screenOrder (h : Echoes c c') (order : Order) : Echoes c (c'.screenOrder t order) := by
  unfold Core.screenOrder
  split
  · refine Echoes.pushAfterSat ?_ _ _ ?_
    · exact h.append [.refused order _] rfl rfl rfl
    · simp [EventKind.IsSilent, EventKind.reports, OrderReport.execution, Order.report]
  · exact h.append [.accepted order, .scheduled t (.order order)] (List.append_assoc _ [_] [_]) rfl
      rfl

/-- The commands of an answer fill nothing. -/
theorem handleCommands (h : Echoes c c') (commands : List Command) :
    Echoes c (c'.handleCommands commands t) := by
  induction commands generalizing c' with
  | nil => exact h
  | cons command commands ih =>
    refine ih ?_
    cases command with
    | submitOrder order =>
      have hclaim : Echoes c c'.claimId := h.trans (.of_eq rfl)
      exact hclaim.screenOrder _
    | cancelOrder orderId => exact h.append [.scheduled t (.orderCancel orderId)] rfl rfl rfl

variable [Strategy S]

/-- A call fills nothing. -/
theorem afterCall (h : Echoes c c') (call : Call) (t : ℤ) (strategy : S) :
    Echoes c (c'.afterCall call t strategy) :=
  h.append [.called call t c'.market] rfl rfl rfl

/-- Waking the strategy fills nothing. -/
theorem wake (h : Echoes c c') (call : Call) (t : ℤ) (wakeup : Bool) :
    Echoes c (c'.wake call t wakeup).1 := by
  rcases wake_spec c' call t wakeup with ⟨err, heq⟩ | ⟨strategy, commands, heq⟩
  · rw [heq]
    exact h.afterCall call t _
  · rw [heq]
    exact (h.afterCall call t strategy).handleCommands commands

/-- Handing over fills nothing. -/
theorem handed (h : Echoes c c') (t : ℤ) (strategy : S) (calls : List Call)
    (tickBuffer : List Tick) (reportBuffer : List OrderReport) :
    Echoes c (c'.disarmed.handed t strategy calls tickBuffer reportBuffer) := by
  have hnone : ∀ market, executionsSent (calls.map (Effect.called · t market)) = [] ∧
      executionsBooked (calls.map (Effect.called · t market)) = [] := by
    intro market
    induction calls with
    | nil => exact ⟨rfl, rfl⟩
    | cons call calls ih => exact ih
  exact h.append (calls.map (Effect.called · t c'.market)) rfl (hnone _).1 (hnone _).2

/-- A flush fills nothing. -/
theorem flushStrategy (h : Echoes c c') (t : ℤ) : Echoes c (c'.flushStrategy t).1 := by
  have htune : ∀ c : Core Q S L R, c.tune.effects = c.effects := fun c => by
    unfold tune
    split_ifs <;> rfl
  rcases flushStrategy_spec c' t with
    ⟨-, -, heq⟩ | ⟨strategy, calls, tickBuffer, err, -, heq⟩ | ⟨strategy, commands, heq⟩
  · rw [heq]
    exact h
  · rw [heq]
    exact h.handed t strategy calls tickBuffer _
  · rw [heq]
    exact ((h.handed t strategy _ [] []).handleCommands commands).trans (.of_eq (htune _))

end Echoes

/-! ### Fills -/

variable [Strategy S]

/-- The fills of a trade are those its reports tell of, as long as the orders of the reports are
found. -/
theorem execution_makerFills {ex : ExchangeSimulator Q} {ts feeBps : ℤ} {rs : List OrderReport}
    (h : ∀ r ∈ rs, ∃ order, ex.getOrder r.orderId = some order) :
    (makerFills ex ts feeBps rs).map
      (fun f => f.2.execution) = rs.filterMap OrderReport.execution := by
  rw [makerFills, List.map_filterMap]
  refine List.filterMap_congr fun r hr => ?_
  obtain ⟨order, horder⟩ := h r hr
  unfold OrderReport.execution
  split_ifs
  · rw [horder]
    rfl
  · rfl

/-- A trade sends a report for every fill it books. -/
theorem echoes_onTickEvent (hkeyed : ∀ s, (c.exchange s).Keyed) (tick : Tick) :
    Echoes c (c.onTickEvent tick).1 := by
  have hfound : ∀ r ∈ ((c.exchange tick.symbolId).onTrade tick).2, ∃ order,
      ((c.exchange tick.symbolId).onTrade tick).1.getOrder r.orderId = some order := by
    intro r hr
    obtain ⟨-, n, order, horder, hid, -⟩ := ExchangeSimulator.tells_onTrade tick r hr
    have hn : r.orderId = n := by
      obtain ⟨o, ho, heq⟩ := Option.map_eq_some_iff.1 horder
      rw [hid, ← heq]
      exact hkeyed _ n o ho
    exact ⟨order, by rw [hn, ExchangeSimulator.getOrder_onTrade, horder]⟩
  unfold onTickEvent
  dsimp only
  have hsame : (c.observeTrade tick).exchange tick.symbolId = c.exchange tick.symbolId := rfl
  rw [hsame]
  generalize ((c.exchange tick.symbolId).onTrade tick).1 = ex at hfound ⊢
  generalize ((c.exchange tick.symbolId).onTrade tick).2 = rs at hfound ⊢
  obtain ⟨-, -, -, heffects⟩ := bookTrade_cases ((c.observeTrade tick).putExchange tick.symbolId ex)
    tick ex rs
  refine ⟨_, heffects.trans (List.append_assoc _ _ _), ?_⟩
  have hsent : ∀ (ts delay pushed : ℤ) (rs : List OrderReport),
      executionsSent (rs.flatMap fun r => pushEffects ts delay pushed (.orderReport r)) =
          rs.filterMap OrderReport.execution ∧
        executionsBooked (rs.flatMap fun r => pushEffects ts delay pushed (.orderReport r)) =
          [] := by
    intro ts delay pushed rs
    induction rs with
    | nil => exact ⟨rfl, rfl⟩
    | cons r rs ih =>
      rw [List.flatMap_cons, executionsSent_append, executionsBooked_append, ih.1, ih.2,
        executionsSent_pushEffects, executionsBooked_pushEffects]
      exact ⟨(List.filterMap_append (l := [r])).symm, rfl⟩
  have hnone : ∀ fills : List (Order × TradeFill),
      executionsSent (fills.map fun f => .filled f.2) = [] := by
    intro fills
    induction fills with
    | nil => rfl
    | cons f fills ih => exact ih
  rw [executionsSent_append, executionsBooked_append, (hsent ..).1, (hsent ..).2, hnone,
    List.nil_append,
    List.append_nil, executionsBooked, filledIn_fills, List.map_map]
  exact (execution_makerFills hfound).symm

/-- The fill of a market order is booked and told of, or neither. -/
theorem echoes_reportMarket (c : Core Q S L R) (order : Order) (report : OrderReport) :
    Echoes c (c.reportMarket (some order) report) := by
  unfold reportMarket bookTakerFill
  dsimp only
  rw [pushAfterSat_eq]
  split_ifs with hpos
  · let fill := tradeFill c.nowTsSim true c.config.takerFeeBps order report
    refine ⟨[.filled fill] ++ pushEffects c.nowTsSim c.config.orderUpdateLatencyNs _
      (.orderReport report),
      List.append_assoc _ [_] _, ?_⟩
    rw [executionsSent_append, executionsBooked_append, executionsSent_pushEffects,
      executionsBooked_pushEffects]
    change [report].filterMap OrderReport.execution = [_]
    rw [List.filterMap_cons, OrderReport.execution, if_pos hpos]
    rfl
  · refine ⟨_, rfl, ?_⟩
    rw [executionsSent_pushEffects, executionsBooked_pushEffects]
    change [report].filterMap OrderReport.execution = []
    rw [List.filterMap_cons, OrderReport.execution, if_neg hpos]
    rfl

/-- A market order sends a report for the fill it books. -/
theorem echoes_fillMarket (c : Core Q S L R) (n s : ℕ) : Echoes c (c.fillMarket n s) := by
  have hrest : ∀ c : Core Q S L R, Echoes c (c.cancelRest n s) := by
    intro c
    unfold cancelRest
    split
    · exact .refl c
    · next report ex heq =>
      have hput : Echoes c (c.putExchange s ex) := .of_eq rfl
      refine hput.pushAfterSat _ _ ?_
      obtain ⟨o, -, horder⟩ := Option.map_eq_some_iff.1 heq
      obtain rfl := (Prod.mk.inj horder).1
      simp [EventKind.IsSilent, EventKind.reports, OrderReport.execution, Order.report]
  unfold fillMarket
  dsimp only
  split
  · exact .refl c
  · next report ex heq =>
    obtain ⟨o, ho, -⟩ := Option.map_eq_some_iff.1 heq
    have hget : (c.exchange s).getOrder n = some o.order := by
      rw [ExchangeSimulator.getOrder, ho]
      rfl
    have hput : Echoes c (c.putExchange s ex) := .of_eq rfl
    have hreport := hput.trans (echoes_reportMarket (c.putExchange s ex) o.order report)
    rw [hget]
    split_ifs
    · exact hreport.trans (hrest _)
    · exact hreport

/-- An acknowledgement sends a report for the fill it books, if any. -/
theorem echoes_onOrderAck (c : Core Q S L R) (n : ℕ) : Echoes c (c.onOrderAck n).1 := by
  unfold onOrderAck
  split
  · exact .refl c
  · next s _ =>
    have hmut : Echoes c (c.exchangeMut s) := .of_eq rfl
    dsimp only
    split
    · exact hmut.trans (echoes_fillMarket _ n s)
    · split
      · exact hmut
      · next report ex heq =>
        have hput : Echoes c ((c.exchangeMut s).putExchange s ex) := .of_eq rfl
        refine hput.pushAfterSat _ _ ?_
        unfold ExchangeSimulator.ackNew at heq
        split at heq
        · cases heq
        · split_ifs at heq
          cases heq
          simp [EventKind.IsSilent, EventKind.reports, OrderReport.execution, Order.report]

/-- A cancel that arrives fills nothing. -/
theorem echoes_onOrderCancel [LatencyModel L R] (c : Core Q S L R) (n : ℕ) :
    Echoes c (c.onOrderCancel n).1 := by
  unfold onOrderCancel
  split
  · exact .refl c
  · next s _ =>
    dsimp only
    split
    · exact .of_eq rfl
    · next ex _ =>
      refine Echoes.pushAfterSat ?_ _ _ ?_
      · exact (Echoes.refl c).append [.cancelLatency n _] rfl rfl rfl
      · simp [EventKind.IsSilent, EventKind.reports]

/-- The answer to a cancel fills nothing. -/
theorem echoes_onOrderCancelAck (c : Core Q S L R) (n : ℕ) : Echoes c (c.onOrderCancelAck n).1 := by
  unfold onOrderCancelAck
  split
  · exact .refl c
  · next s _ =>
    dsimp only
    split
    · exact .of_eq rfl
    · next report ex heq =>
      have hput : Echoes c ((c.exchangeMut s).putExchange s ex) := .of_eq rfl
      refine hput.pushAfter _ _ ?_
      unfold ExchangeSimulator.ackCancel at heq
      split at heq
      · cases heq
      · split at heq
        · cases heq
          simp [EventKind.IsSilent, EventKind.reports, OrderReport.execution, Order.report]
        · cases heq
        · cases heq

/-- A handler reports the fills it books, and no others. -/
theorem echoes_handle [LatencyModel L R] (hkeyed : ∀ s, (c.exchange s).Keyed) (kind : EventKind) :
    Echoes c (c.handle kind).1 := by
  have hsame : ∀ {c' : Core Q S L R}, c'.effects = c.effects → Echoes c c' := fun h => .of_eq h
  cases kind with
  | tick tick => exact echoes_onTickEvent hkeyed tick
  | tickDelivery tick =>
    have hobserve : Echoes c (c.observeDelivery tick) := hsame rfl
    simp only [handle, onTickDelivery]
    split
    · exact hobserve.wake _ _ _
    · have hbuffer : Echoes c ((c.observeDelivery tick).bufferTick tick) := hsame rfl
      split_ifs
      · have htimer : Echoes c ((c.observeDelivery tick).bufferTick tick).nextTimer := hsame rfl
        exact htimer.pushAfter _ _ fun r hr => absurd hr List.not_mem_nil
      · exact hbuffer
  | l2Update update =>
    by_cases hl3 : update.symbolId ∈ c.l3DepthSymbols
    · rw [handle, onL2Update_mixed hl3]
      exact .refl c
    · rw [handle, onL2Update_eq hl3]
      exact hsame rfl
  | l3Update update =>
    by_cases hl2 : update.symbolId ∈ c.l2DepthSymbols
    · rw [handle, onL3Update_mixed hl2]
      exact .refl c
    · rw [handle, onL3Update_eq hl2]
      exact hsame rfl
  | order order =>
    refine Echoes.pushAfterSat ?_ _ _ fun r hr => absurd hr List.not_mem_nil
    exact (Echoes.refl c).append [.orderLatency order.orderId _] rfl rfl rfl
  | orderAck n => exact echoes_onOrderAck c n
  | orderCancel n => exact echoes_onOrderCancel c n
  | orderCancelAck n => exact echoes_onOrderCancelAck c n
  | orderReport report =>
    have hforget : Echoes c (c.forget report) := by
      unfold forget
      split_ifs
      · split <;> exact hsame rfl
      · exact .refl c
    simp only [handle, onOrderReport]
    split
    · exact hforget.wake _ _ _
    · exact hforget.trans (.of_eq rfl)
  | funding event =>
    have hfund : Echoes c (c.applyFunding event) := by
      unfold applyFunding
      dsimp only
      split <;> exact hsame rfl
    exact hfund.wake _ _ _
  | timer timerId =>
    simp only [handle, onTimer]
    split_ifs <;> exact hsame rfl

end Core

/-! ## Runs -/

namespace Engine

variable {T U : Type} {e e' e₀ : Engine T U Q S L R}

/-- The reports that were sent tell of the fills that were booked, in the same order. -/
def Echoed (e : Engine T U Q S L R) : Prop := executionsSent e.trace = executionsBooked e.trace

/-- Effects that send what they book may be added. -/
theorem Echoed.append (h : e.Echoed) {new : List Effect} (htrace : e'.trace = e.trace ++ new)
    (hnew : executionsSent new = executionsBooked new) : e'.Echoed := by
  unfold Echoed at h ⊢
  rw [htrace, executionsSent_append, executionsBooked_append, h, hnew]

/-- The effects of a handler are taken in. -/
theorem Echoed.absorb (h : e.Echoed) {c core : Core Q S L R} (hechoes : Core.Echoes c core)
    (hcleared : c.effects = []) : (e.absorb core).Echoed := by
  obtain ⟨new, heq, hnew⟩ := hechoes
  rw [hcleared, List.nil_append] at heq
  exact h.append (trace_absorb e core) (heq ▸ hnew)

variable [Strategy S]

/-- A flush keeps what is sent equal to what is booked. -/
theorem Echoed.flush (h : e.Echoed) : e.flush.1.Echoed :=
  h.absorb (c := e.core.cleared) ((Core.Echoes.refl _).flushStrategy _) rfl

variable [LatencyModel L R]

/-- An event with its flush keeps what is sent equal to what is booked. -/
theorem Echoed.dispatch (h : e.Echoed) (hkeyed : ∀ s, (e.core.exchange s).Keyed) (event : Event) :
    (e.dispatch event).1.Echoed := by
  let c := e.core.cleared.atTime event.tsSim
  have hpopped : (e.log (.popped event e.core.activeBatchTimerId)).Echoed := h.append rfl rfl
  have hwork : Core.Echoes c (c.handle event.kind).1 :=
    Core.echoes_handle (c := c) hkeyed event.kind
  have hhandled : (e.handleEvent event).1.Echoed := hpopped.absorb hwork rfl
  unfold Engine.dispatch
  generalize e.handleEvent event = handled at hhandled
  obtain ⟨e', err | _ | wakeup⟩ := handled
  · exact hhandled
  · exact hhandled
  · have hflush := hhandled.flush
    change (e'.deferredFlush wakeup).1.Echoed
    unfold deferredFlush
    split_ifs
    · split
      · next heq => rwa [heq] at hflush
      · next heq => rwa [heq] at hflush
    · exact hhandled
    · exact hhandled

variable [TickSource T] [L3Source U]

/-- A turn keeps what is sent equal to what is booked. -/
theorem Echoed.turn (h : e.Echoed) (htracked : e.Tracked) : e.turn.1.Echoed := by
  have htaken : (e.ingest (ε := Strategy.Error S)).1.Echoed := by
    obtain ⟨-, new, htrace, hintake⟩ := e.ingest_frame (ε := Strategy.Error S)
    refine h.append htrace ?_
    clear htrace
    induction new with
    | nil => rfl
    | cons x new ih =>
      have hx := hintake x List.mem_cons_self
      have hrest := ih fun y hy => hintake y (List.mem_cons_of_mem _ hy)
      rw [← List.singleton_append, executionsSent_append, executionsBooked_append, hrest]
      refine congrArg (· ++ _) ?_
      cases x with
      | scheduled ts kind => cases kind <;> first | rfl | cases hx
      | _ => first | rfl | cases hx
  obtain ⟨e₁, rfl, ⟨-, -, hturn | hturn⟩ | ⟨event, queue, -, -, -, hturn⟩⟩ := turn_pops e
  · rwa [hturn]
  · rw [hturn]
    exact htaken.flush
  · rw [hturn]
    have hkeyed := (htracked.ingest (ε := Strategy.Error S)).keyed
    exact Echoed.dispatch (e := Engine.withQueue _ queue) htaken hkeyed event

variable [SeedableRng R] {st : Status (EngineError (Strategy.Error S))}

/-- In every state what was sent is what was booked. -/
theorem echoed {allowed : ℤ → EventKind → Prop} (built : Built allowed e₀)
    (h : Reaches turn (External allowed) e₀ e st)
    (outside : ∀ ts kind, allowed ts kind → kind.isOrderEvent = false) : e.Echoed := by
  refine (open_invariant (I := fun e => e.Tracked ∧ e.Echoed) built h ?_ ?_ ?_).2
  · exact fun _ _ _ _ _ => ⟨tracked_new .., rfl⟩
  · rintro e e' ⟨htracked, hechoed⟩ hext
    refine ⟨htracked.external outside hext, ?_⟩
    cases hext with
    | addTickSource source => exact hechoed
    | addL3Source source => exact hechoed
    | @pushEvent ts kind hkind =>
      refine hechoed.append (trace_pushEvent e ts kind) ?_
      have hplain := outside ts kind hkind
      cases kind <;> first | rfl | cases hplain
  · rintro e ⟨htracked, hechoed⟩
    exact ⟨htracked.turn, hechoed.turn htracked⟩

/-- What the strategy was told of its fills is a prefix of the fills that were booked, in their
order, and all of them when the run finishes. -/
theorem fills_reported {l3s : List (List L3Update)} {tks : List (List Tick)}
    (built : Built (fun _ kind => kind.isBackground = true) e₀) (feeds : e₀.Feeds l3s tks)
    (paced : e₀.Paced l3s tks) (h : Reaches turn closed e₀ e st) (hno : Effect.overflow ∉ e.trace) :
    (reportsHanded e.trace).filterMap OrderReport.execution <+:
      (filledIn e.trace).map TradeFill.execution ∧
      (st = .finished →
        (reportsHanded e.trace).filterMap OrderReport.execution =
          (filledIn e.trace).map TradeFill.execution) := by
  have outside : ∀ (ts : ℤ) (kind : EventKind), kind.isBackground = true →
      kind.isOrderEvent = false := fun _ kind hk => by cases kind <;> first | rfl | cases hk
  have hechoed : e.Tracked ∧ e.Echoed :=
    h.invariant_closed (I := fun e => e.Tracked ∧ e.Echoed)
      ⟨tracked built .start outside, echoed built .start outside⟩ fun _ h =>
        ⟨h.1.turn, h.2.turn h.1⟩
  obtain ⟨-, hhanded, hcomplete⟩ := channel built feeds paced h hno
  change _ <+: executionsBooked e.trace ∧ (_ → _ = executionsBooked e.trace)
  rw [← hechoed.2]
  exact ⟨hhanded.filterMap _, fun hst => congrArg _ (hcomplete hst)⟩

/-- Two fills of one order. -/
theorem fills_reported_sample :
    let order : Order := ⟨0, 0, 0, 0, 100, 2, 1, .buy, .limit⟩
    let ticks : List Tick := [⟨1000, 0, 0, 100, 1, 1, .buy, 0⟩, ⟨1011, 0, 1, 100, 1, 1, .sell, 0⟩,
      ⟨1012, 0, 2, 100, 1, 1, .sell, 0⟩]
    let e₀ := sample { orderUpdateLatencyNs := 3 } 10 [[.submitOrder order]] [ticks]
    let e := (runFor turn 16 e₀).1
    (filledIn e.trace).map TradeFill.execution = [⟨1, 1, 1, 100⟩, ⟨1, 1, 1, 100⟩] ∧
      (reportsHanded e.trace).filterMap OrderReport.execution =
        (filledIn e.trace).map TradeFill.execution := by
  intro order ticks e₀ e
  have built : Built (fun _ kind => kind.isBackground = true) e₀ :=
    .external (.new _ _ _ _ _) (.addTickSource ticks)
  have feeds : e₀.Feeds [] [ticks] := (feeds_new _ _ _ _ _).addTickSource (yields_list ticks)
  have paced : e₀.Paced [] [ticks] := ⟨by decide +kernel, by decide +kernel, by decide, by decide⟩
  have run : Reaches turn closed e₀ e .finished := reaches_of_runFor 16 (by decide +kernel)
  exact ⟨by decide +kernel, (fills_reported built feeds paced run (by decide +kernel)).2 rfl⟩

end Engine

end Backtester
