import Backtester.Handlers
import Backtester.OrderLife
import Backtester.OrderTable

/-!
# The engine carries out the lives of orders

`Core.At n h c ph` : after the trace `h` and the effects of the core, order `n` is in phase `ph`,
and the registry and the tables of the exchanges show it so (`Core.Stage`). A handler either has
nothing to do with order `n` (`Core.Aside`) or moves it on by the moves of `OrderLife`. From this,
every order of a reachable engine is in some phase between two events (`Engine.Tracked`), whatever
the strategy does and whatever market data come in.
-/

open Run StableSort Std

set_option linter.unusedSectionVars false

namespace Backtester

/-- The tables of the exchanges, as the phase has them. -/
def Phase.faces (ph : Phase) (symbolId : ℕ) : Option (Order × OrderState) :=
  if ph.symbol = some symbolId then ph.face else none

namespace Core

variable {Q S L R : Type} [QueueModel Q]

/-- What the exchanges show of order `n`, by symbol. -/
def faces (c : Core Q S L R) (n : ℕ) (symbolId : ℕ) : Option (Order × OrderState) :=
  (c.exchange symbolId).face n

variable {t : ℤ} {c c' c'' : Core Q S L R} {n : ℕ} {h : List Effect} {ph ph' : Phase}
  {report : OrderReport}

/-- The exchange that is stored is the one that is read. -/
theorem exchange_putExchange (c : Core Q S L R) (symbolId s : ℕ) (ex : ExchangeSimulator Q) :
    (c.putExchange symbolId ex).exchange s = if symbolId = s then ex else c.exchange s := by
  simp only [exchange, putExchange, ExtTreeMap.getElem?_insert, Std.compare_eq_iff_eq]
  by_cases hs : symbolId = s
  · simp [hs]
  · simp only [hs, ↓reduceIte]
    rfl

/-- Storing an exchange shows its face of the order. -/
theorem faces_putExchange (c : Core Q S L R) (symbolId : ℕ) (ex : ExchangeSimulator Q) (s : ℕ) :
    (c.putExchange symbolId ex).faces n s = if symbolId = s then ex.face n else c.faces n s := by
  rw [faces, exchange_putExchange]
  split_ifs <;> rfl

/-- An exchange that is not there yet shows no order. -/
theorem faces_of_exchanges (hex : c'.exchanges = c.exchanges) : c'.faces n = c.faces n := by
  have hempty : ∀ c : Core Q S L R, ∀ s : ℕ, c.exchanges[s]? = none → c.faces n s = none := by
    intro c s hnone
    simp only [faces, exchange, hnone, Option.getD_none]
    split_ifs <;> simp
  funext s
  cases hs : c.exchanges[s]? with
  | none => rw [hempty c s hs, hempty c' s (hex ▸ hs)]
  | some ex => simp [faces, exchange, hex, hs]

/-! ## Work that leaves an order aside -/

/-- `c'` comes from `c` by work that does not concern order `n`. -/
structure Aside (n : ℕ) (c c' : Core Q S L R) : Prop where
  registry : c'.orderSymbolById[n]? = c.orderSymbolById[n]?
  faces : c'.faces n = c.faces n
  next : c.nextOrderId ≤ c'.nextOrderId
  effects : ∃ new, c'.effects = c.effects ++ new ∧ ∀ x ∈ new, x.concerns n = false

namespace Aside

/-- Work that changes neither registry nor exchanges nor effects leaves every order aside. -/
theorem same (hregistry : c'.orderSymbolById = c.orderSymbolById)
    (hexchanges : c'.exchanges = c.exchanges) (hnext : c'.nextOrderId = c.nextOrderId)
    (heffects : c'.effects = c.effects) : Aside n c c' :=
  ⟨by rw [hregistry], faces_of_exchanges hexchanges, hnext.ge, [], by simp [heffects], by simp⟩

theorem refl (c : Core Q S L R) : Aside n c c := same rfl rfl rfl rfl

/-- Leaving an order aside twice leaves it aside. -/
theorem trans (h : Aside n c c') (h' : Aside n c' c'') : Aside n c c'' := by
  obtain ⟨new, heq, hnew⟩ := h.effects
  obtain ⟨new', heq', hnew'⟩ := h'.effects
  exact ⟨h'.registry.trans h.registry, h'.faces.trans h.faces, h.next.trans h'.next, new ++ new',
    by rw [heq', heq, List.append_assoc],
    fun x hx => (List.mem_append.1 hx).elim (hnew x) (hnew' x)⟩

/-- An effect that does not concern the order leaves it aside. -/
theorem emit (h : Aside n c c') {x : Effect} (hx : x.concerns n = false) : Aside n c (c'.emit x) :=
  h.trans ⟨rfl, faces_of_exchanges rfl, le_rfl, [x], rfl, by simpa using hx⟩

/-- Storing an exchange that shows the same face leaves the order aside. -/
theorem putExchange (h : Aside n c c') {symbolId : ℕ} {ex : ExchangeSimulator Q}
    (hface : ex.face n = c'.faces n symbolId) : Aside n c (c'.putExchange symbolId ex) := by
  refine h.trans ⟨rfl, funext fun s => ?_, le_rfl, [], by simp [Core.putExchange], by simp⟩
  rw [faces_putExchange]
  split_ifs with hs
  · exact hs ▸ hface
  · rfl

/-- Making an exchange leaves every order aside. -/
theorem exchangeMut (h : Aside n c c') (symbolId : ℕ) : Aside n c (c'.exchangeMut symbolId) :=
  h.putExchange rfl

/-- Pushing an event about another order does not concern this one. -/
theorem pushEffects {ts delay pushed : ℤ} {kind : EventKind} (hkind : kind.isAbout n = false) :
    ∀ x ∈ pushEffects ts delay pushed kind, x.concerns n = false := by
  unfold Core.pushEffects
  split_ifs <;> simp [Effect.concerns, hkind]

/-- A push that is not about the order leaves it aside. -/
theorem pushAfter (h : Aside n c c') (ts delay : ℤ) {kind : EventKind}
    (hkind : kind.isAbout n = false) : Aside n c (c'.pushAfter ts delay kind) := by
  rw [pushAfter_eq]
  exact h.trans ⟨rfl, faces_of_exchanges rfl, le_rfl, _, rfl, pushEffects hkind⟩

/-- A push with a saturating sum that is not about the order leaves it aside. -/
theorem pushAfterSat (h : Aside n c c') (ts delay : ℤ) {kind : EventKind}
    (hkind : kind.isAbout n = false) : Aside n c (c'.pushAfterSat ts delay kind) := by
  rw [pushAfterSat_eq]
  exact h.trans ⟨rfl, faces_of_exchanges rfl, le_rfl, _, rfl, pushEffects hkind⟩

end Aside

/-! ## The phase of an order -/

/-- The registry and the tables of the exchanges show order `n` in phase `ph`. -/
structure Stage (n : ℕ) (c : Core Q S L R) (ph : Phase) : Prop where
  registry : c.orderSymbolById[n]? = ph.symbol
  faces : c.faces n = ph.faces
  fresh : ph ≠ .unborn → n < c.nextOrderId

/-- After the trace `h` and the effects of the core, order `n` is in phase `ph`. -/
structure At (n : ℕ) (h : List Effect) (c : Core Q S L R) (ph : Phase) : Prop where
  stage : c.Stage n ph
  life : Life n (h ++ c.effects) ph

/-- Order `n` is in some phase between two events. -/
def Settled (n : ℕ) (h : List Effect) (c : Core Q S L R) : Prop :=
  ∃ ph, ph.isSettled = true ∧ c.At n h ph

/-- An order that is left aside stays where it is. -/
theorem Stage.aside (hs : c.Stage n ph) (ha : Aside n c c') : c'.Stage n ph :=
  ⟨ha.registry.trans hs.registry, ha.faces.trans hs.faces,
    fun hph => (hs.fresh hph).trans_le ha.next⟩

/-- The exchange of the order's symbol shows the order in another phase. -/
theorem Stage.putExchange (hs : c.Stage n ph) {symbolId : ℕ} {ex : ExchangeSimulator Q}
    (hsymbol : ph.symbol = some symbolId) (hsymbol' : ph'.symbol = some symbolId)
    (hface : ex.face n = ph'.face) : (c.putExchange symbolId ex).Stage n ph' := by
  refine ⟨hs.registry.trans (hsymbol.trans hsymbol'.symm), funext fun s => ?_, fun _ => ?_⟩
  · rw [faces_putExchange, hs.faces]
    split_ifs with heq
    · subst heq
      rw [hface, Phase.faces, if_pos hsymbol']
    · have hne : (some symbolId : Option ℕ) ≠ some s := by simpa using heq
      rw [Phase.faces, Phase.faces, hsymbol, hsymbol', if_neg hne, if_neg hne]
  · refine hs.fresh fun hunborn => ?_
    subst hunborn
    cases hsymbol

/-- The stage depends on the registry, the exchanges and the next id. -/
theorem Stage.congr (hs : c.Stage n ph) (hregistry : c'.orderSymbolById = c.orderSymbolById)
    (hexchanges : c'.exchanges = c.exchanges) (hnext : c'.nextOrderId = c.nextOrderId) :
    c'.Stage n ph :=
  ⟨by rw [hregistry, hs.registry], by rw [faces_of_exchanges hexchanges, hs.faces],
    fun hph => hnext ▸ hs.fresh hph⟩

/-- The exchange of its symbol shows the order as its phase says. -/
theorem Stage.face (hs : c.Stage n ph) {symbolId : ℕ} (hsymbol : ph.symbol = some symbolId) :
    (c.exchange symbolId).face n = ph.face := by
  have hfaces := congrFun hs.faces symbolId
  rwa [Phase.faces, if_pos hsymbol] at hfaces

/-- An order that is left aside stays in its phase. -/
theorem At.aside (hat : c.At n h ph) (ha : Aside n c c') : c'.At n h ph := by
  obtain ⟨new, heq, hnew⟩ := ha.effects
  refine ⟨hat.stage.aside ha, ?_⟩
  rw [heq, ← List.append_assoc]
  exact hat.life.skipAll hnew

/-- What is left aside stays settled. -/
theorem Settled.aside (hs : c.Settled n h) (ha : Aside n c c') : c'.Settled n h := by
  obtain ⟨ph, hph, hat⟩ := hs
  exact ⟨ph, hph, hat.aside ha⟩

/-- An effect moves the order on. -/
theorem move {x : Effect} (hlife : Life n (h ++ c.effects) ph) (hx : Advance n ph x ph')
    (heffects : c'.effects = c.effects ++ [x]) : Life n (h ++ c'.effects) ph' := by
  rw [heffects, ← List.append_assoc]
  exact hlife.step hx

/-- A push moves the order on, noted overflow or not. -/
theorem move_push {l : List Effect} {ts delay pushed : ℤ} {kind : EventKind}
    (hlife : Life n (h ++ l) ph) (hx : Advance n ph (.scheduled pushed kind) ph') :
    Life n (h ++ (l ++ pushEffects ts delay pushed kind)) ph' := by
  rw [← List.append_assoc]
  unfold pushEffects
  split_ifs
  · exact hlife.step hx
  · rw [← List.singleton_append, ← List.append_assoc]
    exact (hlife.skip rfl).step hx

/-! ## Commands -/

/-- A new order is refused or sent on its way. -/
theorem settled_screenOrder {order : Order} (hlife : Life n (h ++ c.effects) .unborn)
    (hstage : c.Stage n .unborn) (hid : order.orderId = n) (hnext : n < c.nextOrderId)
    (htime : order.tsSubmit = t) : (c.screenOrder t order).Settled n h := by
  unfold screenOrder
  split
  · next reason _ =>
    refine ⟨.refused order (satAddI64 t c.config.orderUpdateLatencyNs)
      (order.report .rejected 0 0 0 order.qty (some reason)), rfl, ?_⟩
    have hdeclined : Life n (h ++ (c.emit (.refused order reason)).effects) (.declined order) :=
      move hlife (.decline hid) rfl
    rw [pushAfterSat_eq]
    exact ⟨⟨hstage.registry, hstage.faces, fun _ => hnext⟩,
      move_push hdeclined (.refuse hid rfl)⟩
  · refine ⟨.travelling order, rfl, ?_⟩
    have haccepted : Life n (h ++ ((c.registerOrder order).emit (.accepted order)).effects)
        (.registered order) := move hlife (.accept hid) rfl
    refine ⟨⟨?_, ?_, fun _ => hnext⟩, move haccepted (.send hid) (by rw [htime]; rfl)⟩
    · change (c.orderSymbolById.insert order.orderId order.symbolId)[n]? = _
      simp [hid, Phase.symbol]
    · have hfaces : c.faces n = fun _ => none := by
        rw [hstage.faces]
        exact funext fun s => if_neg (by simp [Phase.symbol])
      have hsame : (c.registerOrder order).faces n = c.faces n := faces_of_exchanges rfl
      change (c.registerOrder order).faces n = _
      rw [hsame, hfaces]
      exact funext fun s => by simp [Phase.faces, Phase.face]

/-- Screening another order leaves this one aside. -/
theorem aside_screenOrder {order : Order} (hid : order.orderId ≠ n) :
    Aside n c (c.screenOrder t order) := by
  unfold screenOrder
  split
  · refine ((Aside.refl c).emit ?_).pushAfterSat _ _ ?_
    · simp [Effect.concerns, hid]
    · simp [EventKind.isAbout, Order.report, hid]
  · have hregister : Aside n c (c.registerOrder order) := by
      refine ⟨?_, faces_of_exchanges rfl, le_rfl, [], by simp [registerOrder], by simp⟩
      simp [registerOrder, ExtTreeMap.getElem?_insert, hid]
    refine (hregister.emit ?_).emit ?_
    · simp [Effect.concerns, hid]
    · simp [Effect.concerns, EventKind.isAbout, hid]

/-- A command settles the order it submits, and leaves the others aside. -/
theorem Settled.handleCommand (hs : c.Settled n h) (command : Command) :
    (c.handleCommand t command).Settled n h := by
  cases command with
  | cancelOrder orderId => exact hs.aside ((Aside.refl c).emit rfl)
  | submitOrder order =>
    have hclaim : Aside n c c.claimId :=
      ⟨rfl, faces_of_exchanges rfl, Nat.le_succ _, [], by simp [claimId], by simp⟩
    by_cases hid : c.nextOrderId = n
    · -- a fresh id has no life yet
      obtain ⟨ph, -, hat⟩ := hs
      have hunborn : ph = .unborn := by
        by_contra hph
        exact absurd (hat.stage.fresh hph) (hid ▸ lt_irrefl _)
      subst hunborn
      have hat' := hat.aside hclaim
      exact settled_screenOrder hat'.life hat'.stage hid (hid ▸ Nat.lt_succ_self _) rfl
    · exact hs.aside (hclaim.trans (aside_screenOrder hid))

/-- The commands of an answer settle every order they submit. -/
theorem Settled.handleCommands (hs : c.Settled n h) (commands : List Command) :
    (c.handleCommands commands t).Settled n h := by
  induction commands generalizing c with
  | nil => exact hs
  | cons command commands ih => exact ih (hs.handleCommand command)

/-! ## Calls and background events -/

variable [Strategy S]

/-- A call leaves every order aside. -/
theorem aside_afterCall (c : Core Q S L R) (call : Call) (t : ℤ) (strategy : S) :
    Aside n c (c.afterCall call t strategy) :=
  ⟨rfl, faces_of_exchanges rfl, le_rfl, [.called call t c.market], rfl, by simp [Effect.concerns]⟩

/-- Waking the strategy settles what it submits. -/
theorem Settled.wake (hs : c.Settled n h) (call : Call) (t : ℤ) (wakeup : Bool) :
    (c.wake call t wakeup).1.Settled n h := by
  rcases wake_spec c call t wakeup with ⟨err, heq⟩ | ⟨strategy, commands, heq⟩
  · rw [heq]
    exact hs.aside (aside_afterCall c call t _)
  · rw [heq]
    exact (hs.aside (aside_afterCall c call t strategy)).handleCommands commands

/-- Handing over leaves every order aside. -/
theorem aside_handed (c : Core Q S L R) (t : ℤ) (strategy : S) (calls : List Call)
    (tickBuffer : List Tick) (reportBuffer : List OrderReport) :
    Aside n c (c.disarmed.handed t strategy calls tickBuffer reportBuffer) :=
  ⟨rfl, faces_of_exchanges rfl, le_rfl, calls.map (Effect.called · t c.market), rfl,
    by simp [Effect.concerns]⟩

/-- Tuning leaves every order aside. -/
theorem aside_tune (c : Core Q S L R) : Aside n c c.tune := by
  unfold tune
  split_ifs
  · exact .same rfl rfl rfl rfl
  · exact .refl c

/-- A flush settles what the strategy submits. -/
theorem Settled.flushStrategy (hs : c.Settled n h) (t : ℤ) :
    (c.flushStrategy t).1.Settled n h := by
  rcases flushStrategy_spec c t with
    ⟨-, -, heq⟩ | ⟨strategy, calls, tickBuffer, err, -, heq⟩ | ⟨strategy, commands, heq⟩
  · rw [heq]
    exact hs
  · rw [heq]
    exact hs.aside (aside_handed c t strategy calls tickBuffer c.reportBuffer)
  · rw [heq]
    exact ((hs.aside (aside_handed c t strategy c.handover [] [])).handleCommands commands).aside
      (aside_tune _)

/-- The delivery of a tick settles what the strategy submits. -/
theorem Settled.onTickDelivery (hs : c.Settled n h) (tick : Tick) :
    (c.onTickDelivery tick).1.Settled n h := by
  have hobserve : (c.observeDelivery tick).Settled n h := hs.aside (.same rfl rfl rfl rfl)
  unfold Core.onTickDelivery
  dsimp only
  split
  · exact hobserve.wake _ _ _
  · have hbuffer : ((c.observeDelivery tick).bufferTick tick).Settled n h :=
      hobserve.aside (.same rfl rfl rfl rfl)
    split_ifs
    · have htimer : Aside n ((c.observeDelivery tick).bufferTick tick)
          ((c.observeDelivery tick).bufferTick tick).nextTimer := .same rfl rfl rfl rfl
      exact hbuffer.aside (htimer.pushAfter _ _ rfl)
    · exact hbuffer

/-- A level update leaves every order aside. -/
theorem aside_onL2Update (c : Core Q S L R) (update : L2Update) :
    Aside n c (c.onL2Update update).1 := by
  unfold onL2Update
  split_ifs
  · exact .refl c
  · have hdepth : Aside n c
        { c with l2DepthSymbols := insert update.symbolId c.l2DepthSymbols } :=
          .same rfl rfl rfl rfl
    exact hdepth.putExchange rfl

/-- An order update moves places in queues only. -/
theorem aside_onL3Update (c : Core Q S L R) (update : L3Update) :
    Aside n c (c.onL3Update update).1 := by
  unfold onL3Update
  split_ifs
  · exact .refl c
  · have hdepth : Aside n c
        { c with l3DepthSymbols := insert update.symbolId c.l3DepthSymbols } :=
          .same rfl rfl rfl rfl
    dsimp only
    split
    · exact hdepth.putExchange (ExchangeSimulator.face_applyL3Update update)
    · exact hdepth.putExchange (ExchangeSimulator.face_applyL3Update update)

/-- Funding leaves every order aside. -/
theorem aside_applyFunding (c : Core Q S L R) (event : FundingEvent) :
    Aside n c (c.applyFunding event) := by
  simp only [applyFunding]
  split
  · exact .refl c
  · exact .same rfl rfl rfl rfl

/-- A timer leaves every order aside. -/
theorem aside_onTimer (c : Core Q S L R) (timerId : ℕ) : Aside n c (c.onTimer timerId).1 := by
  unfold onTimer
  split_ifs
  · exact .same rfl rfl rfl rfl
  · exact .refl c

/-! ## Order requests -/

section Requests

variable [LatencyModel L R]

/-- Drawing a latency leaves every order aside. -/
theorem aside_sampleOrderLatency (c : Core Q S L R) : Aside n c c.sampleOrderLatency.2 :=
  .same rfl rfl rfl rfl

/-- Another order that arrives leaves this one aside. -/
theorem aside_onOrder {order : Order} (hid : order.orderId ≠ n) :
    Aside n c (c.onOrder order).1 := by
  have hput : Aside n c (c.putExchange order.symbolId
      ((c.exchange order.symbolId).submitOrder order)) :=
    (Aside.refl c).putExchange (by rw [ExchangeSimulator.face_submitOrder, if_neg hid]; rfl)
  refine ((hput.trans (aside_sampleOrderLatency _)).emit ?_).pushAfterSat _ _ ?_
  · simp [Effect.concerns, hid]
  · simp [EventKind.isAbout, hid]

/-- An order that arrives is in the table, and its ACK is on its way. -/
theorem settled_onOrder {order : Order} (hstage : c.Stage n (.travelling order))
    (hlife : Life n (h ++ c.effects) (.arriving order)) (hid : order.orderId = n)
    (htime : c.nowTsSim = order.tsSubmit) : (c.onOrder order).1.Settled n h := by
  let c₁ := c.putExchange order.symbolId ((c.exchange order.symbolId).submitOrder order)
  let dt := c₁.sampleOrderLatency.1
  let c₂ := c₁.sampleOrderLatency.2.emit (.orderLatency order.orderId dt)
  have hlife₂ : Life n (h ++ c₂.effects) (.arrived order dt) :=
    move hlife (hid ▸ .delay) rfl
  have hnow : c₂.nowTsSim = order.tsSubmit := htime
  refine ⟨.awaiting order dt, rfl, ?_⟩
  change At n h (c₂.pushAfterSat c₂.nowTsSim dt (.orderAck order.orderId)) _
  rw [hnow, hid, pushAfterSat_eq]
  refine ⟨⟨hstage.registry, ?_, fun _ => hstage.fresh (by simp)⟩, move_push hlife₂ .sendAck⟩
  have hfaces : c₁.faces n = (Phase.awaiting order dt).faces := by
    funext s
    rw [faces_putExchange, ExchangeSimulator.face_submitOrder, if_pos hid, hstage.faces]
    simp [Phase.faces, Phase.face, Phase.symbol]
  exact (faces_of_exchanges rfl).trans hfaces

end Requests

/-! ## Cancels -/

/-- Making an exchange does not change what is read of it. -/
theorem exchange_exchangeMut (c : Core Q S L R) (symbolId : ℕ) :
    (c.exchangeMut symbolId).exchange symbolId = c.exchange symbolId := by
  rw [exchangeMut, exchange_putExchange, if_pos rfl]

/-- Only a resting order can be cancelled. -/
theorem resting_of_face {l : List Effect} {o : Order} {s : OrderState} (hlife : Life n l ph)
    (hph : ph.isSettled = true) (hface : ph.face = some (o, s))
    (hs : s.isTerminal = false) (hs' : s ≠ .pendingNew) : ∃ dt, ph = .resting o dt s := by
  cases ph with
  | resting o' dt s' =>
    obtain ⟨rfl, rfl⟩ : o' = o ∧ s' = s := by simpa [Phase.face] using hface
    exact ⟨dt, rfl⟩
  | awaiting o' dt =>
    obtain ⟨-, rfl⟩ : o' = o ∧ .pendingNew = s := by simpa [Phase.face] using hface
    exact absurd rfl hs'
  | closing o' dt s' ts r =>
    obtain ⟨-, rfl⟩ : o' = o ∧ s' = s := by simpa [Phase.face] using hface
    rw [hlife.terminal_of_closing] at hs
    cases hs
  | _ => first | (cases hph; done) | cases hface

/-- A cancel that arrives moves its order on, or is of no effect. -/
theorem Settled.onOrderCancel [LatencyModel L R] (hs : c.Settled n h) (m : ℕ) :
    (c.onOrderCancel m).1.Settled n h := by
  unfold Core.onOrderCancel
  split
  · exact hs
  · next symbolId hregistry =>
    dsimp only
    rcases ExchangeSimulator.cancelOrder_spec ((c.exchangeMut symbolId).exchange symbolId) m with
      ⟨o, s, ex, heq, hface, hmay, hfaces⟩ | ⟨err, heq⟩
    · rw [heq]
      dsimp only
      by_cases hmn : m = n
      · subst hmn
        obtain ⟨ph, hph, hat⟩ := hs
        have hsymbol : ph.symbol = some symbolId := hat.stage.registry.symm.trans hregistry
        rw [exchange_exchangeMut, hat.stage.face hsymbol] at hface
        obtain ⟨dt, rfl⟩ := resting_of_face hat.life hph hface
          (by cases s <;> simp_all [OrderState.canTransitionTo, OrderState.isTerminal])
          (by rintro rfl; cases hmay)
        refine ⟨.resting o dt .pendingCancel, rfl, ?_⟩
        have hstage : ((c.exchangeMut symbolId).putExchange symbolId ex).Stage m
            (.resting o dt .pendingCancel) :=
          (hat.stage.aside ((Aside.refl c).exchangeMut symbolId)).putExchange hsymbol hsymbol
            (by rw [hfaces, if_pos rfl]; rfl)
        have hmoved :
          At m h ((((c.exchangeMut symbolId).putExchange symbolId ex).sampleOrderLatency.2).emit
            (.cancelLatency m ((c.exchangeMut symbolId).putExchange symbolId
              ex).sampleOrderLatency.1))
            (.resting o dt .pendingCancel) :=
          ⟨hstage.congr rfl rfl rfl, move hat.life (.cancel hmay) rfl⟩
        exact hmoved.aside ((Aside.refl _).pushAfterSat _ _ rfl)
      · have hput : Aside n c ((c.exchangeMut symbolId).putExchange symbolId ex) :=
          ((Aside.refl c).exchangeMut symbolId).putExchange (by rw [hfaces, if_neg hmn]; rfl)
        refine hs.aside (((hput.trans (aside_sampleOrderLatency _)).emit ?_).pushAfterSat _ _ rfl)
        simp [Effect.concerns, hmn]
    · rw [heq]
      exact hs.aside ((Aside.refl c).exchangeMut symbolId)

/-- The answer to a cancel moves its order on, or is of no effect. -/
theorem Settled.onOrderCancelAck (hs : c.Settled n h) (hkeyed : ∀ s, (c.exchange s).Keyed) (m : ℕ) :
    (c.onOrderCancelAck m).1.Settled n h := by
  unfold Core.onOrderCancelAck
  split
  · exact hs
  · next symbolId hregistry =>
    dsimp only
    rcases ExchangeSimulator.ackCancel_spec ((c.exchangeMut symbolId).exchange symbolId) m with
      ⟨o, report, ex, heq, hface, hid, hstatus, hfaces⟩ | ⟨err, heq, -⟩
    · rw [heq]
      dsimp only
      rw [exchange_exchangeMut] at hface
      have hom : o.orderId = m :=
        ExchangeSimulator.keyed_iff.1 (hkeyed symbolId) m o _ hface
      by_cases hmn : m = n
      · subst hmn
        obtain ⟨ph, hph, hat⟩ := hs
        have hsymbol : ph.symbol = some symbolId := hat.stage.registry.symm.trans hregistry
        rw [hat.stage.face hsymbol] at hface
        obtain ⟨dt, rfl⟩ := resting_of_face hat.life hph hface rfl (by simp)
        rw [pushAfter_eq]
        refine ⟨.closing o dt .cancelled _ report, rfl, ?_, move_push hat.life
          (.cancelled (hid.trans hom) hstatus)⟩
        exact Stage.congr ((hat.stage.aside ((Aside.refl c).exchangeMut symbolId)).putExchange
          hsymbol hsymbol
          (by rw [hfaces, if_pos rfl]; rfl)) rfl rfl rfl
      · have hput : Aside n c ((c.exchangeMut symbolId).putExchange symbolId ex) :=
          ((Aside.refl c).exchangeMut symbolId).putExchange (by rw [hfaces, if_neg hmn]; rfl)
        refine hs.aside (hput.pushAfter _ _ ?_)
        simp [EventKind.isAbout, hid, hom, hmn]
    · rw [heq]
      exact hs.aside ((Aside.refl c).exchangeMut symbolId)

/-! ## Acknowledgements -/

/-- Booking the fill of a market order changes the account and the log, and tells of the fill. -/
theorem bookTakerFill_cases (c : Core Q S L R) (maybeOrder : Option Order) (report : OrderReport) :
    (c.bookTakerFill maybeOrder report).orderSymbolById = c.orderSymbolById ∧
      (c.bookTakerFill maybeOrder report).exchanges = c.exchanges ∧
      (c.bookTakerFill maybeOrder report).nextOrderId = c.nextOrderId ∧
      ((c.bookTakerFill maybeOrder report).effects = c.effects ∨
        ∃ fill : TradeFill, fill.orderId = report.orderId ∧
          (c.bookTakerFill maybeOrder report).effects = c.effects ++ [.filled fill]) := by
  unfold bookTakerFill
  split
  · split_ifs
    · exact ⟨rfl, rfl, rfl, .inr ⟨_, rfl, rfl⟩⟩
    · exact ⟨rfl, rfl, rfl, .inl rfl⟩
  · exact ⟨rfl, rfl, rfl, .inl rfl⟩

/-- Reporting a market order changes neither the registry nor the tables, and its effects are a
fill, if there was one, and the report. -/
theorem reportMarket_cases (c : Core Q S L R) (maybeOrder : Option Order) (report : OrderReport) :
    (c.reportMarket maybeOrder report).orderSymbolById = c.orderSymbolById ∧
      (c.reportMarket maybeOrder report).exchanges = c.exchanges ∧
      (c.reportMarket maybeOrder report).nextOrderId = c.nextOrderId ∧
      ∃ fills ts delay pushed, (∀ x ∈ fills, ∃ fill : TradeFill, x = .filled fill ∧
        fill.orderId = report.orderId) ∧
        (c.reportMarket maybeOrder report).effects =
          c.effects ++ fills ++ pushEffects ts delay pushed (.orderReport report) := by
  obtain ⟨hregistry, hexchanges, hnext, heffects | ⟨fill, hfill, heffects⟩⟩ :=
    bookTakerFill_cases c maybeOrder report
  · simp only [reportMarket]
    rw [pushAfterSat_eq]
    exact ⟨hregistry, hexchanges, hnext, [], _, _, _, by simp, by rw [List.append_nil, ← heffects]⟩
  · simp only [reportMarket]
    rw [pushAfterSat_eq]
    exact ⟨hregistry, hexchanges, hnext, [.filled fill], _, _, _, by simpa using hfill,
      by rw [← heffects]⟩

/-- The report of another order leaves this one aside. -/
theorem aside_reportMarket (maybeOrder : Option Order) {report : OrderReport}
    (hid : report.orderId ≠ n) : Aside n c (c.reportMarket maybeOrder report) := by
  obtain ⟨hregistry, hexchanges, hnext, fills, ts, delay, pushed, hfills, heffects⟩ :=
    reportMarket_cases c maybeOrder report
  refine ⟨by rw [hregistry], faces_of_exchanges hexchanges, hnext.ge, _,
    heffects.trans (List.append_assoc _ _ _), fun x hx => ?_⟩
  rcases List.mem_append.1 hx with hx | hx
  · obtain ⟨fill, rfl, hfill⟩ := hfills x hx
    simp [Effect.concerns, hfill, hid]
  · exact Aside.pushEffects (by simp [EventKind.isAbout, hid]) x hx

/-- Cancelling the rest of another order leaves this one aside. -/
theorem aside_cancelRest {m symbolId : ℕ} (hmn : m ≠ n)
    (hkeyed : ∀ o s, c.faces m symbolId = some (o, s) → o.orderId = m) :
    Aside n c (c.cancelRest m symbolId) := by
  unfold cancelRest
  rcases ExchangeSimulator.forceCancelPartialFill_spec (c.exchange symbolId) m with
    ⟨o, s, report, ex, heq, hface, hid, -, hfaces⟩ | ⟨heq, -⟩
  · rw [heq]
    have hput : Aside n c (c.putExchange symbolId ex) :=
      (Aside.refl c).putExchange (by rw [hfaces, if_neg hmn]; rfl)
    refine hput.pushAfterSat _ _ ?_
    simp [EventKind.isAbout, hid, hkeyed o s hface, hmn]
  · rw [heq]
    exact .refl c

/-- Filling another market order leaves this one aside. -/
theorem aside_fillMarket {m symbolId : ℕ} (hmn : m ≠ n)
    (hkeyed : ∀ o s, c.faces m symbolId = some (o, s) → o.orderId = m) :
    Aside n c (c.fillMarket m symbolId) := by
  simp only [fillMarket]
  rcases ExchangeSimulator.fillMarketImmediately_spec (c.exchange symbolId) m
    (c.truthLastTradeBySymbol[symbolId]?.map (·.price)) with
    ⟨o, s, s', report, ex, heq, hface, hid, -, -, hfaces⟩ | ⟨heq, -⟩
  · rw [heq]
    dsimp only
    have hreport : report.orderId ≠ n := by rw [hid, hkeyed o s hface]; exact hmn
    have hput : Aside n c (c.putExchange symbolId ex) :=
      (Aside.refl c).putExchange (by rw [hfaces, if_neg hmn]; rfl)
    have haside := hput.trans (aside_reportMarket ((c.exchange symbolId).getOrder m) hreport)
    split_ifs
    · refine haside.trans (aside_cancelRest hmn fun o' s'' hf => ?_)
      have hexchanges := (reportMarket_cases (c.putExchange symbolId ex)
        ((c.exchange symbolId).getOrder m) report).2.1
      rw [faces_of_exchanges hexchanges, faces_putExchange, if_pos rfl, hfaces, if_pos rfl] at hf
      obtain ⟨rfl, -⟩ : o = o' ∧ s' = s'' := by simpa using hf
      exact hkeyed o s hface
    · exact haside
  · rw [heq]
    exact .refl c

/-- What a partial fill leaves of a market order is cancelled. -/
theorem settled_cancelRest {o : Order} {dt : ℤ} (hat : c.At n h (.partly o dt))
    (market : o.orderType = .market) : (c.cancelRest n o.symbolId).Settled n h := by
  have hid : o.orderId = n := hat.life.orderId_of_accepted rfl
  have hface := hat.stage.face rfl
  unfold cancelRest
  rcases ExchangeSimulator.forceCancelPartialFill_spec (c.exchange o.symbolId) n with
    ⟨o', s, report, ex, heq, hface', hreport, hstatus, hfaces⟩ | ⟨-, hnone⟩
  · rw [heq]
    dsimp only
    obtain ⟨rfl, rfl⟩ : o = o' ∧ .partiallyFilled = s := by
      rw [hface] at hface'
      simpa [Phase.face] using hface'
    rw [pushAfterSat_eq]
    refine ⟨.closing o dt .cancelled _ report, rfl, ?_, move_push hat.life
      (.marketRest market (hreport.trans hid) hstatus)⟩
    exact (hat.stage.putExchange rfl rfl (by rw [hfaces, if_pos rfl]; rfl)).congr rfl rfl rfl
  · rw [hface] at hnone
    cases hnone

/-- The acknowledged order is a market order. -/
theorem settled_fillMarket {o : Order} {dt : ℤ} (hat : c.At n h (.acking o dt))
    (market : o.orderType = .market) : (c.fillMarket n o.symbolId).Settled n h := by
  have hid : o.orderId = n := hat.life.orderId_of_accepted rfl
  have hface := hat.stage.face rfl
  simp only [fillMarket]
  rcases ExchangeSimulator.fillMarketImmediately_spec (c.exchange o.symbolId) n
    (c.truthLastTradeBySymbol[o.symbolId]?.map (·.price)) with
    ⟨o', s, s', report, ex, heq, hface', hreport, hstatus, hs', hfaces⟩ | ⟨-, hnone⟩
  · rw [heq]
    dsimp only
    obtain ⟨rfl, rfl⟩ : o = o' ∧ .pendingNew = s := by
      rw [hface] at hface'
      simpa [Phase.face] using hface'
    obtain ⟨hregistry, hexchanges, hnext, fills, ts, delay, pushed, hfills, heffects⟩ :=
      reportMarket_cases (c.putExchange o.symbolId ex) ((c.exchange o.symbolId).getOrder n) report
    generalize (c.putExchange o.symbolId ex).reportMarket
      ((c.exchange o.symbolId).getOrder n) report = c₁ at hregistry hexchanges hnext heffects ⊢
    have hstage₁ : ∀ ph', ph'.symbol = some o.symbolId → ph'.face = some (o, s') →
        c₁.Stage n ph' := fun ph' hsymbol hf =>
      (hat.stage.putExchange rfl hsymbol (by rw [hfaces, if_pos rfl, hf])).congr hregistry
        hexchanges hnext
    have hlife₁ : Life n (h ++ (c.effects ++ fills)) (.acking o dt) := by
      rw [← List.append_assoc]
      have hlife := hat.life
      clear heffects
      induction fills using List.reverseRecOn with
      | nil => simpa using hlife
      | append_singleton fills x ih =>
        obtain ⟨fill, rfl, hfill⟩ := hfills x (by simp)
        rw [← List.append_assoc]
        exact (ih fun y hy => hfills y (by simp [hy])).step
          (.marketFill market (hfill.trans (hreport.trans hid)))
    have hat₁ : ∀ ph', ph'.symbol = some o.symbolId → ph'.face = some (o, s') →
        Advance n (.acking o dt) (.scheduled pushed (.orderReport report)) ph' → c₁.At n h ph' :=
      fun ph' hsymbol hf hx => ⟨hstage₁ ph' hsymbol hf, heffects ▸ move_push hlife₁ hx⟩
    have hreport' : report.orderId = n := hreport.trans hid
    have hwhole : s' = .filled ∨ s' = .rejected → c₁.Settled n h := fun hterminal =>
      ⟨.closing o dt s' pushed report, rfl,
        hat₁ _ rfl rfl (.marketWhole market hreport' hstatus hterminal)⟩
    rcases hs' with rfl | rfl | rfl
    · rw [if_neg (by simp [hstatus])]
      exact hwhole (.inl rfl)
    · rw [if_pos hstatus]
      exact settled_cancelRest (hat₁ _ rfl rfl (.marketPart market hreport' hstatus)) market
    · rw [if_neg (by simp [hstatus])]
      exact hwhole (.inr rfl)
  · rw [hface] at hnone
    cases hnone

/-- The ACK of order `n` itself. -/
theorem settled_onOrderAck {o : Order} {dt : ℤ} (hat : c.At n h (.acking o dt)) :
    (c.onOrderAck n).1.Settled n h := by
  have hid : o.orderId = n := hat.life.orderId_of_accepted rfl
  have hregistry : c.orderSymbolById[n]? = some o.symbolId := hat.stage.registry
  have hat₁ : (c.exchangeMut o.symbolId).At n h (.acking o dt) :=
    hat.aside ((Aside.refl c).exchangeMut o.symbolId)
  have hface : ((c.exchangeMut o.symbolId).exchange o.symbolId).face n = some (o, .pendingNew) :=
    hat₁.stage.face rfl
  unfold onOrderAck
  rw [hregistry]
  dsimp only
  rw [ExchangeSimulator.getOrder_eq, hface]
  simp only [Option.map_some]
  cases hotype : o.orderType with
  | market => exact settled_fillMarket hat₁ hotype
  | limit =>
    dsimp only
    rcases ExchangeSimulator.ackNew_spec ((c.exchangeMut o.symbolId).exchange o.symbolId) n with
      ⟨o', report, ex, heq, hface', hreport, hstatus, hfaces⟩ | ⟨err, -, hno⟩
    · rw [heq]
      dsimp only
      obtain rfl : o = o' := by
        rw [hface] at hface'
        simpa using hface'
      rw [pushAfterSat_eq]
      refine ⟨.resting o dt .open, rfl, ?_, move_push hat₁.life
        (.rest hotype (hreport.trans hid) hstatus)⟩
      exact (hat₁.stage.putExchange rfl rfl (by rw [hfaces, if_pos rfl]; rfl)).congr rfl rfl rfl
    · exact absurd hface (hno o)

/-- The acknowledgement of another order leaves this one aside. -/
theorem aside_onOrderAck {m : ℕ} (hmn : m ≠ n) (hkeyed : ∀ s, (c.exchange s).Keyed) :
    Aside n c (c.onOrderAck m).1 := by
  unfold onOrderAck
  split
  · exact .refl c
  · next symbolId _ =>
    have hmut : Aside n c (c.exchangeMut symbolId) := (Aside.refl c).exchangeMut symbolId
    have hkeyed' : ∀ o s, (c.exchangeMut symbolId).faces m symbolId = some (o, s) →
        o.orderId = m := by
      intro o s hf
      rw [faces, exchange_exchangeMut] at hf
      exact ExchangeSimulator.keyed_iff.1 (hkeyed symbolId) m o s hf
    dsimp only
    split
    · exact hmut.trans (aside_fillMarket hmn hkeyed')
    · rcases ExchangeSimulator.ackNew_spec ((c.exchangeMut symbolId).exchange symbolId) m with
        ⟨o, report, ex, heq, hface, hreport, -, hfaces⟩ | ⟨err, heq, -⟩
      · rw [heq]
        refine (hmut.putExchange (by rw [hfaces, if_neg hmn]; rfl)).pushAfterSat _ _ ?_
        simp [EventKind.isAbout, hreport, hkeyed' o _ hface, hmn]
      · rw [heq]
        exact hmut

/-! ## Reports -/

/-- A report about another order, or one that is not terminal, ends no registration of this one. -/
theorem aside_forget {report : OrderReport}
    (hid : report.orderId ≠ n ∨ report.status.isTerminal = false) :
    Aside n c (c.forget report) := by
  unfold forget
  split_ifs with hterminal
  · have hne : report.orderId ≠ n := hid.resolve_right (by simp [hterminal])
    split
    · exact .refl c
    · next symbolId _ =>
      have hput : Aside n c (c.putExchange symbolId
          ((c.exchange symbolId).removeOrder report.orderId)) :=
        (Aside.refl c).putExchange (by rw [ExchangeSimulator.face_removeOrder, if_neg hne]; rfl)
      refine hput.trans ⟨?_, faces_of_exchanges rfl, le_rfl, [], by simp [unregisterOrder], by simp⟩
      simp [unregisterOrder, ExtTreeMap.getElem?_erase, hne]
  · exact .refl c

/-- The last report of a closing order clears the registry and the table. -/
theorem stage_forget {o : Order} {dt ts : ℤ} {s : OrderState} {report : OrderReport}
    (hs : c.Stage n (.closing o dt s ts report)) (hid : report.orderId = n)
    (hterminal : report.status.isTerminal = true) :
    (c.forget report).Stage n (.closed o dt) ∧ (c.forget report).effects = c.effects := by
  have hregistry : c.orderSymbolById[report.orderId]? = some o.symbolId := hid ▸ hs.registry
  unfold forget
  rw [if_pos hterminal, hregistry]
  refine ⟨⟨?_, funext fun s' => ?_, fun _ => hs.fresh (by simp)⟩, rfl⟩
  · simp [unregisterOrder, hid, Phase.symbol]
  · have hfaces : ((c.putExchange o.symbolId ((c.exchange o.symbolId).removeOrder
        report.orderId)).unregisterOrder report.orderId).faces n =
          (c.putExchange o.symbolId ((c.exchange o.symbolId).removeOrder report.orderId)).faces n :=
      faces_of_exchanges rfl
    dsimp only
    rw [hfaces, faces_putExchange, hs.faces, ExchangeSimulator.face_removeOrder, if_pos hid]
    simp only [Phase.faces, Phase.symbol, Option.some.injEq, reduceCtorEq, ↓reduceIte]
    split_ifs <;> rfl

/-- A report of a refused order finds nothing to forget. -/
theorem forget_of_refused {report : OrderReport}
    (hnone : c.orderSymbolById[report.orderId]? = none) :
    c.forget report = c := by
  unfold forget
  rw [hnone]
  simp

/-- After the registration a report only wakes the strategy. -/
theorem settled_onOrderReport (hs : (c.forget report).Settled n h) :
    (c.onOrderReport report).1.Settled n h := by
  unfold onOrderReport
  dsimp only
  split
  · exact hs.wake _ _ _
  · exact hs.aside (.same rfl rfl rfl rfl)

/-- Funding settles what the strategy submits. -/
theorem Settled.onFunding (hs : c.Settled n h) (event : FundingEvent) :
    (c.onFunding event).1.Settled n h :=
  (hs.aside (aside_applyFunding c event)).wake _ _ _

/-! ## Trades -/

/-- The effects of booking a trade : its fills, then its reports. -/
theorem bookTrade_cases (c : Core Q S L R) (tick : Tick) (ex : ExchangeSimulator Q)
    (reports : List OrderReport) :
    (c.bookTrade tick ex reports).orderSymbolById = c.orderSymbolById ∧
      (c.bookTrade tick ex reports).exchanges = c.exchanges ∧
      (c.bookTrade tick ex reports).nextOrderId = c.nextOrderId ∧
      (c.bookTrade tick ex reports).effects = c.effects ++
        (makerFills ex tick.tsExchange c.config.makerFeeBps reports).map (fun f => .filled f.2) ++
        reports.flatMap fun r => pushEffects tick.tsExchange c.config.orderUpdateLatencyNs
          (addI64 tick.tsExchange c.config.orderUpdateLatencyNs) (.orderReport r) := by
  have hlog : ∀ (fills : List (Order × TradeFill)) (c : Core Q S L R),
      (fills.foldl (fun c f => c.logFill f.2) c).orderSymbolById = c.orderSymbolById ∧
      (fills.foldl (fun c f => c.logFill f.2) c).exchanges = c.exchanges ∧
      (fills.foldl (fun c f => c.logFill f.2) c).nextOrderId = c.nextOrderId ∧
      (fills.foldl (fun c f => c.logFill f.2) c).config = c.config ∧
      (fills.foldl (fun c f => c.logFill f.2) c).effects =
        c.effects ++ fills.map fun f => .filled f.2 := by
    intro fills
    induction fills with
    | nil => simp
    | cons f fills ih =>
      intro c
      obtain ⟨h₁, h₂, h₃, h₄, h₅⟩ := ih (c.logFill f.2)
      exact ⟨h₁, h₂, h₃, h₄, h₅.trans (List.append_assoc _ [_] _)⟩
  have hsettle : ∀ (ts : ℤ) (fills : List (Order × TradeFill)) (c : Core Q S L R),
      (fills.foldl (fun c f => c.settle ts f.1 f.2) c).orderSymbolById = c.orderSymbolById ∧
      (fills.foldl (fun c f => c.settle ts f.1 f.2) c).exchanges = c.exchanges ∧
      (fills.foldl (fun c f => c.settle ts f.1 f.2) c).nextOrderId = c.nextOrderId ∧
      (fills.foldl (fun c f => c.settle ts f.1 f.2) c).config = c.config ∧
      (fills.foldl (fun c f => c.settle ts f.1 f.2) c).effects = c.effects := by
    intro ts fills
    induction fills with
    | nil => simp
    | cons f fills ih => exact fun c => ih (c.settle ts f.1 f.2)
  have hpush : ∀ (reports : List OrderReport) (c : Core Q S L R),
      (reports.foldl (fun c r => c.pushAfter tick.tsExchange c.config.orderUpdateLatencyNs
        (.orderReport r)) c) = { c with effects := c.effects ++
          (reports.flatMap fun r => pushEffects tick.tsExchange c.config.orderUpdateLatencyNs
            (addI64 tick.tsExchange c.config.orderUpdateLatencyNs) (.orderReport r)) } := by
    intro reports
    induction reports with
    | nil => simp
    | cons r reports ih =>
      intro c
      rw [List.foldl_cons, ih, pushAfter_eq]
      simp
  unfold bookTrade
  dsimp only
  rw [hpush]
  obtain ⟨h₁, h₂, h₃, h₄, h₅⟩ := hlog (makerFills ex tick.tsExchange c.config.makerFeeBps reports) c
  obtain ⟨h₁', h₂', h₃', h₄', h₅'⟩ := hsettle tick.tsExchange
    (makerFills ex tick.tsExchange c.config.makerFeeBps reports)
    ((makerFills ex tick.tsExchange c.config.makerFeeBps reports).foldl
      (fun c f => c.logFill f.2) c)
  exact ⟨h₁'.trans h₁, h₂'.trans h₂, h₃'.trans h₃, by rw [h₅', h₅, h₄', h₄]⟩

/-- The fills of a trade are those of its reports. -/
theorem mem_makerFills {ex : ExchangeSimulator Q} {ts feeBps : ℤ} {reports : List OrderReport}
    {f : Order × TradeFill} (hf : f ∈ makerFills ex ts feeBps reports) :
    ∃ r ∈ reports, f.2.orderId = r.orderId := by
  obtain ⟨r, hr, hsome⟩ := List.mem_filterMap.1 hf
  split_ifs at hsome
  obtain ⟨order, -, rfl⟩ := Option.map_eq_some_iff.1 hsome
  exact ⟨r, hr, rfl⟩

/-- The reports of a trade move a resting order on as they fill it. -/
theorem life_reports {o : Order} {dt : ℤ} {s : OrderState} {l : List Effect}
    {reports : List OrderReport} {g : Option (Order × OrderState)} (ts delay pushed : ℤ)
    (hlife : Life n l (.resting o dt s)) (hfills : Fills n (some (o, s)) reports g) :
    ∃ s', g = some (o, s') ∧ ∃ ph', (ph' = .resting o dt s' ∨ s' = .filled ∧
      ∃ ts' r, ph' = .closing o dt s' ts' r) ∧
      Life n (l ++ reports.flatMap fun r => pushEffects ts delay pushed (.orderReport r)) ph' := by
  induction hfills with
  | start => exact ⟨s, rfl, _, .inl rfl, by simpa using hlife⟩
  | @other rs g r _ hr ih =>
    obtain ⟨s', hg, ph', hph, hlife'⟩ := ih
    refine ⟨s', hg, ph', hph, ?_⟩
    rw [List.flatMap_append, ← List.append_assoc, List.flatMap_singleton]
    exact hlife'.skipAll (Aside.pushEffects (by simp [EventKind.isAbout, hr]))
  | @part rs o' s₁ r _ hs hr hstatus ih =>
    obtain ⟨s', hg, ph', hph, hlife'⟩ := ih
    obtain ⟨rfl, rfl⟩ : o' = o ∧ s₁ = s' := by simpa using hg
    rcases hph with rfl | ⟨rfl, -⟩
    · refine ⟨.partiallyFilled, rfl, _, .inl rfl, ?_⟩
      rw [List.flatMap_append, List.flatMap_singleton]
      exact move_push hlife' (.fillPart hs hr hstatus)
    · cases hs
  | @whole rs o' s₁ r _ hs hr hstatus ih =>
    obtain ⟨s', hg, ph', hph, hlife'⟩ := ih
    obtain ⟨rfl, rfl⟩ : o' = o ∧ s₁ = s' := by simpa using hg
    rcases hph with rfl | ⟨rfl, -⟩
    · refine ⟨.filled, rfl, _, .inr ⟨rfl, pushed, r, rfl⟩, ?_⟩
      rw [List.flatMap_append, List.flatMap_singleton]
      exact move_push hlife' (.fillWhole hs hr hstatus)
    · cases hs

/-- A trade moves on the orders that it fills, and leaves the others aside. -/
theorem Settled.onTickEvent (hs : c.Settled n h) (hkeyed : ∀ s, (c.exchange s).Keyed)
    (tick : Tick) :
    (c.onTickEvent tick).1.Settled n h := by
  obtain ⟨ph, hph, hat⟩ := hs
  have hobserve : Aside n c (c.observeTrade tick) := .same rfl rfl rfl rfl
  have hexchange : (c.observeTrade tick).exchange tick.symbolId = c.exchange tick.symbolId := rfl
  have hfills := ExchangeSimulator.onTrade_spec (hkeyed tick.symbolId) tick n
  unfold Core.onTickEvent
  dsimp only
  rw [hexchange]
  generalize hex : ((c.exchange tick.symbolId).onTrade tick).1 = ex at hfills ⊢
  generalize ((c.exchange tick.symbolId).onTrade tick).2 = reports at hfills ⊢
  obtain ⟨hregistry, hexchanges, hnext, heffects⟩ :=
    bookTrade_cases ((c.observeTrade tick).putExchange tick.symbolId ex) tick ex reports
  generalize ((c.observeTrade tick).putExchange tick.symbolId ex).bookTrade tick ex reports = c'
    at hregistry hexchanges hnext heffects ⊢
  have hfaces : ∀ s, c'.faces n s = if tick.symbolId = s then ex.face n else c.faces n s := by
    intro s
    rw [faces_of_exchanges hexchanges, faces_putExchange, hobserve.faces]
  rcases hfills.idle_or with ⟨hsame, hother⟩ | ⟨o, s, hface, hs⟩
  · -- the trade does not reach the order
    refine ⟨ph, hph, hat.aside ⟨by rw [hregistry]; rfl, funext fun s => ?_, hnext.ge, _,
      heffects.trans (List.append_assoc _ _ _), fun x hx => ?_⟩⟩
    · rw [hfaces, hsame]
      split_ifs with heq
      · exact heq ▸ rfl
      · rfl
    · rcases List.mem_append.1 hx with hx | hx
      · obtain ⟨f, hf, rfl⟩ := List.mem_map.1 hx
        obtain ⟨r, hr, hid⟩ := mem_makerFills hf
        simp [Effect.concerns, hid, hother r hr]
      · obtain ⟨r, hr, hx⟩ := List.mem_flatMap.1 hx
        exact Aside.pushEffects (by simp [EventKind.isAbout, hother r hr]) x hx
  · have hsymbol : ph.symbol = some tick.symbolId := by
      have hf : ph.faces tick.symbolId = some (o, s) :=
        (congrFun hat.stage.faces _).symm.trans hface
      unfold Phase.faces at hf
      split_ifs at hf with heq
      exact heq
    obtain ⟨dt, rfl⟩ := resting_of_face hat.life hph ((hat.stage.face hsymbol).symm.trans hface)
      (by cases s <;> simp_all [OrderState.isFillable, OrderState.isTerminal])
      (by rintro rfl; cases hs)
    rw [hface] at hfills
    have hfilled : ∀ fills : List (Order × TradeFill),
        Life n (h ++ c.effects ++ fills.map fun f => .filled f.2) (.resting o dt s) := by
      intro fills
      induction fills using List.reverseRecOn with
      | nil => simpa using hat.life
      | append_singleton fills f ih =>
        rw [List.map_append, List.map_singleton, ← List.append_assoc]
        by_cases hid : f.2.orderId = n
        · exact ih.step (.fill hid)
        · exact ih.skip (by simp [Effect.concerns, hid])
    obtain ⟨s', hg, ph', hph', hlife'⟩ := life_reports tick.tsExchange
      c.config.orderUpdateLatencyNs (addI64 tick.tsExchange c.config.orderUpdateLatencyNs)
      (hfilled (makerFills ex tick.tsExchange c.config.makerFeeBps reports)) hfills
    have hlife : Life n (h ++ c'.effects) ph' := by
      rw [heffects, ← List.append_assoc, ← List.append_assoc]
      exact hlife'
    have hstage : ∀ ph', ph'.symbol = some o.symbolId → ph'.face = some (o, s') →
        c'.Stage n ph' := by
      intro ph' hsymbol' hf
      have hput : ((c.observeTrade tick).putExchange tick.symbolId ex).Stage n ph' :=
        (hat.stage.aside hobserve).putExchange hsymbol (hsymbol'.trans hsymbol) (hg.trans hf.symm)
      exact hput.congr hregistry hexchanges hnext
    rcases hph' with rfl | ⟨rfl, ts', r, rfl⟩
    · exact ⟨_, rfl, hstage _ rfl rfl, hlife⟩
    · exact ⟨_, rfl, hstage _ rfl rfl, hlife⟩

end Core

end Backtester
