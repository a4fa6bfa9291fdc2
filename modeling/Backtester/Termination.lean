import Backtester.Delivery
import Backtester.Library.Descent

/-!
# The engine halts

Over finite sources the engine halts, when the strategy issues finitely many commands, whatever its
answers and whatever the latencies (`run_halts`). A budget of the strategy (`Frugal`) bounds the
commands that it can still issue.

The handler of an event, apart from the commands, schedules events of a lower rank only : a request
leads to an acknowledgement, an acknowledgement to reports, a trade to reports, a delivery to a
timer. So a turn takes in a record, or spends some of the budget, or replaces an event by events of
lower rank, or empties the buffers, and the workload descends.
-/

open Run StableSort

set_option linter.unusedSectionVars false

namespace Backtester

/-- Events lead to events of lower rank. -/
def EventKind.rank : EventKind → ℕ
  | tick _ | tickDelivery _ => 4
  | order _ | orderCancel _ => 3
  | orderAck _ | orderCancelAck _ => 2
  | _ => 1

/-- A report ranks below what an exchange sends it for. -/
theorem EventKind.rank_orderReport_lt (report : OrderReport) :
    (EventKind.orderReport report).rank < 2 :=
  Nat.one_lt_two

/-- What the effects schedule is of a rank below `r`. -/
def Lowers (r : ℕ) (l : List Effect) : Prop :=
  ∀ ts kind, .scheduled ts kind ∈ l → kind.rank < r

/-- Without effects nothing is scheduled. -/
theorem lowers_nil (r : ℕ) : Lowers r [] := fun _ _ h => by cases h

/-- What both parts keep below a rank, the whole keeps below it. -/
theorem Lowers.append {r : ℕ} {l l' : List Effect} (h : Lowers r l) (h' : Lowers r l') :
    Lowers r (l ++ l') :=
  fun ts kind hmem => (List.mem_append.1 hmem).elim (h ts kind) (h' ts kind)

/-- What is below a rank is below every higher one. -/
theorem Lowers.mono {r r' : ℕ} {l : List Effect} (h : Lowers r l) (hle : r ≤ r') : Lowers r' l :=
  fun ts kind hmem => (h ts kind hmem).trans_le hle

/-! ## The exchange side -/

namespace Core

variable {Q S L R : Type} [QueueModel Q] {c c' c'' : Core Q S L R} {r : ℕ}

/-- `c'` comes from `c` by work that schedules events of a rank below `r`. -/
def Pushes (r : ℕ) (c c' : Core Q S L R) : Prop :=
  ∃ new, c'.effects = c.effects ++ new ∧ Lowers r new

namespace Pushes

/-- Without a new effect nothing is pushed. -/
theorem of_eq (h : c'.effects = c.effects) : Pushes r c c' :=
  ⟨[], by rw [h, List.append_nil], lowers_nil r⟩

theorem refl (c : Core Q S L R) : Pushes r c c := of_eq rfl

/-- What is pushed first and what is pushed next. -/
theorem trans (h : Pushes r c c') (h' : Pushes r c' c'') : Pushes r c c'' := by
  obtain ⟨new, heq, hnew⟩ := h
  obtain ⟨new', heq', hnew'⟩ := h'
  exact ⟨new ++ new', by rw [heq', heq, List.append_assoc], hnew.append hnew'⟩

/-- An effect that schedules nothing. -/
theorem emit (h : Pushes r c c') {x : Effect} (hx : ∀ ts kind, x ≠ .scheduled ts kind) :
    Pushes r c (c'.emit x) :=
  h.trans ⟨[x], rfl, fun ts kind hmem => absurd (List.mem_singleton.1 hmem).symm (hx ts kind)⟩

/-- An event of lower rank may be pushed. -/
theorem push (h : Pushes r c c') (ts : ℤ) {kind : EventKind} (hkind : kind.rank < r) :
    Pushes r c (c'.pushEvent ts kind) :=
  h.trans ⟨[.scheduled ts kind], rfl, fun ts' kind' hmem => by
    obtain ⟨-, rfl⟩ := by simpa using hmem
    exact hkind⟩

/-- Noting a sum pushes nothing. -/
theorem noteSum (h : Pushes r c c') (ts delay : ℤ) : Pushes r c (c'.noteSum ts delay) := by
  unfold Core.noteSum
  split_ifs
  · exact h
  · exact h.emit (by simp)

/-- An event of lower rank may be pushed after a delay. -/
theorem pushAfter (h : Pushes r c c') (ts delay : ℤ) {kind : EventKind} (hkind : kind.rank < r) :
    Pushes r c (c'.pushAfter ts delay kind) :=
  (h.noteSum ts delay).push _ hkind

/-- An event of lower rank may be pushed with a saturating sum. -/
theorem pushAfterSat (h : Pushes r c c') (ts delay : ℤ) {kind : EventKind} (hkind : kind.rank < r) :
    Pushes r c (c'.pushAfterSat ts delay kind) :=
  (h.noteSum ts delay).push _ hkind

/-- A loop over steps that push below a rank pushes below it. -/
theorem foldl {α : Type} {f : Core Q S L R → α → Core Q S L R} (l : List α) (h : Pushes r c c')
    (hf : ∀ c a, Pushes r c (f c a)) : Pushes r c (l.foldl f c') :=
  List.foldlRecOn l f (motive := Pushes r c) h fun c'' h a _ => h.trans (hf c'' a)

end Pushes

/-- Reports are of the lowest rank. -/
theorem pushes_reportMarket (h : Pushes 2 c c') (maybeOrder : Option Order) (report : OrderReport) :
    Pushes 2 c (c'.reportMarket maybeOrder report) := by
  have hbook : Pushes 2 c (c'.bookTakerFill maybeOrder report) := by
    unfold bookTakerFill
    split
    · split_ifs
      · exact (h.emit (x := .filled _) (by simp)).trans (.of_eq rfl)
      · exact h
    · exact h
  exact hbook.pushAfterSat _ _ (EventKind.rank_orderReport_lt report)

/-- Cancelling the rest of a market order pushes a report at most. -/
theorem pushes_cancelRest (h : Pushes 2 c c') (orderId symbolId : ℕ) :
    Pushes 2 c (c'.cancelRest orderId symbolId) := by
  unfold cancelRest
  split
  · exact h
  · next report ex _ =>
    have hput : Pushes 2 c (c'.putExchange symbolId ex) := h.trans (.of_eq rfl)
    exact hput.pushAfterSat _ _ (EventKind.rank_orderReport_lt report)

/-- A market order pushes its reports. -/
theorem pushes_fillMarket (h : Pushes 2 c c') (orderId symbolId : ℕ) :
    Pushes 2 c (c'.fillMarket orderId symbolId) := by
  simp only [fillMarket]
  split
  · exact h
  · next report ex _ =>
    have hreport := pushes_reportMarket
      (h.trans (.of_eq rfl) : Pushes 2 c (c'.putExchange symbolId ex))
      ((c'.exchange symbolId).getOrder orderId) report
    split_ifs
    · exact pushes_cancelRest hreport _ _
    · exact hreport

/-- An acknowledgement pushes reports. -/
theorem pushes_onOrderAck [Strategy S] (c : Core Q S L R) (orderId : ℕ) :
    Pushes 2 c (c.onOrderAck orderId).1 := by
  simp only [onOrderAck]
  split
  · exact .refl c
  · next symbolId _ =>
    have hmut : Pushes 2 c (c.exchangeMut symbolId) := .of_eq rfl
    split
    · exact pushes_fillMarket hmut _ _
    · split
      · exact hmut
      · next report ex _ =>
        have hput : Pushes 2 c ((c.exchangeMut symbolId).putExchange symbolId ex) :=
          hmut.trans (.of_eq rfl)
        exact hput.pushAfterSat _ _ (EventKind.rank_orderReport_lt report)

/-- A trade pushes the reports of what it fills. -/
theorem pushes_bookTrade (c : Core Q S L R) (tick : Tick) (ex : ExchangeSimulator Q)
    (reports : List OrderReport) : Pushes 4 c (c.bookTrade tick ex reports) := by
  refine .foldl _ (.foldl _ (.foldl _ (.refl c) ?_) ?_) ?_
  · exact fun c f => (Pushes.refl c).emit (x := .filled f.2) (by simp)
  · exact fun c f => .of_eq rfl
  · exact fun c r => (Pushes.refl c).pushAfter _ _
      ((EventKind.rank_orderReport_lt r).trans (by norm_num))

/-- Ending a registration pushes nothing. -/
theorem pushes_forget (c : Core Q S L R) (report : OrderReport) : Pushes r c (c.forget report) := by
  unfold forget
  split_ifs
  · split
    · exact .refl c
    · exact .of_eq rfl
  · exact .refl c

/-- Funding pushes nothing. -/
theorem pushes_applyFunding (c : Core Q S L R) (event : FundingEvent) :
    Pushes r c (c.applyFunding event) := by
  simp only [applyFunding]
  split
  · exact .refl c
  · exact .of_eq rfl

/-! ## The budget of the strategy -/

variable [Strategy S] {budget : S → ℕ}

/-- Between `c` and `c'` some of the budget is spent, or the scheduled events are of a rank below
`r`. -/
def Spends (budget : S → ℕ) (r : ℕ) (c c' : Core Q S L R) : Prop :=
  ∃ new, c'.effects = c.effects ++ new ∧ (budget c'.strategy < budget c.strategy ∨
    budget c'.strategy = budget c.strategy ∧ Lowers r new)

namespace Spends

/-- The exchange side pushes below its rank and spends nothing. -/
theorem of_pushes (h : Pushes r c c') (hstrategy : c'.strategy = c.strategy) :
    Spends budget r c c' := by
  obtain ⟨new, heq, hnew⟩ := h
  exact ⟨new, heq, .inr ⟨by rw [hstrategy], hnew⟩⟩

theorem refl (c : Core Q S L R) : Spends budget r c c := of_pushes (.refl c) rfl

/-- What is spent first and what is spent next. -/
theorem trans (h : Spends budget r c c') (h' : Spends budget r c' c'') : Spends budget r c c'' := by
  obtain ⟨new, heq, hnew⟩ := h
  obtain ⟨new', heq', hnew'⟩ := h'
  refine ⟨new ++ new', by rw [heq', heq, List.append_assoc], ?_⟩
  rcases hnew with hlt | ⟨hsame, hlow⟩
  · rcases hnew' with hlt' | ⟨hsame', -⟩
    · exact .inl (hlt'.trans hlt)
    · exact .inl (hsame' ▸ hlt)
  · rcases hnew' with hlt' | ⟨hsame', hlow'⟩
    · exact .inl (hsame ▸ hlt')
    · exact .inr ⟨hsame'.trans hsame, hlow.append hlow'⟩

end Spends

end Core

/-- The budget bounds the commands that the strategy can still issue. -/
def Frugal {S : Type} [Strategy S] (budget : S → ℕ) : Prop :=
  ∀ s call ctx s' commands, Strategy.answer s call ctx = .ok (s', commands) →
    commands.length + budget s' ≤ budget s

namespace Core

variable {Q S L R : Type} [QueueModel Q] [Strategy S] {c c' : Core Q S L R} {budget : S → ℕ} {r : ℕ}

/-- A call is answered, and nothing else changes. -/
theorem call_answer (c : Core Q S L R) (call : Call) (t : ℤ) :
    (∃ err, c.call call t = (c.emit (.called call t c.market), .error err)) ∨
      ∃ strategy commands, Strategy.answer c.strategy call ⟨t, c.market⟩ =
        .ok (strategy, commands) ∧
        c.call call t = (c.afterCall call t strategy, .ok commands) := by
  have hstrategy : (c.emit (.called call t c.market)).strategy = c.strategy := rfl
  simp only [Core.call, hstrategy]
  split
  · next err _ => exact .inl ⟨err, rfl⟩
  · next strategy commands heq => exact .inr ⟨strategy, commands, heq, rfl⟩

/-- The commands of an answer; an error issues none. -/
def issued {ε : Type} : Except ε (List Command) → List Command
  | .ok commands => commands
  | .error _ => []

/-- A part of a handler that calls the strategy : it schedules nothing, and the budget pays for what
is issued. -/
def Pays {ε : Type} (budget : S → ℕ) (c : Core Q S L R)
    (p : Core Q S L R × Except ε (List Command)) : Prop :=
  Pushes 0 c p.1 ∧ (issued p.2).length + budget p.1.strategy ≤ budget c.strategy

/-- A call is paid for by the budget. -/
theorem pays_call (frugal : Frugal budget) (c : Core Q S L R) (call : Call) (t : ℤ) :
    Pays budget c (c.call call t) := by
  have hcalled : Pushes 0 c (c.emit (.called call t c.market)) := (Pushes.refl c).emit (by simp)
  rcases call_answer c call t with ⟨err, h⟩ | ⟨strategy, commands, hanswer, h⟩
  · rw [h]
    exact ⟨hcalled, (Nat.zero_add _).le⟩
  · rw [h]
    exact ⟨hcalled.trans (.of_eq rfl), frugal _ _ _ _ _ hanswer⟩

/-- Handing the ticks over is paid for by the budget. -/
theorem pays_flushTicks (frugal : Frugal budget) (c : Core Q S L R) (t : ℤ) :
    Pays budget c (c.flushTicks t) := by
  have hpays := pays_call frugal c (.onTicks c.tickBuffer) t
  unfold flushTicks
  split_ifs
  · exact ⟨.refl c, (Nat.zero_add _).le⟩
  · generalize c.call (.onTicks c.tickBuffer) t = p at hpays
    obtain ⟨c', err | commands⟩ := p
    · exact hpays
    · exact ⟨hpays.1.trans (.of_eq rfl), hpays.2⟩

/-- Handing the reports over is paid for by the budget. -/
theorem pays_flushReports (frugal : Frugal budget) (c : Core Q S L R) (t : ℤ) :
    Pays budget c (c.flushReports t) := by
  have hpays := pays_call frugal c (.onOrderUpdates c.reportBuffer) t
  unfold flushReports
  split_ifs
  · exact ⟨.refl c, (Nat.zero_add _).le⟩
  · generalize c.call (.onOrderUpdates c.reportBuffer) t = p at hpays
    obtain ⟨c', err | commands⟩ := p
    · exact hpays
    · exact ⟨hpays.1.trans (.of_eq rfl), hpays.2⟩

/-- What is issued is carried out : when it is anything, some of the budget is spent. -/
theorem spends_handleCommands (commands : List Command) {t : ℤ} (h : Pushes 0 c c')
    (paid : commands.length + budget c'.strategy ≤ budget c.strategy) :
    Spends budget r c (c'.handleCommands commands t) := by
  obtain ⟨new, heq, hlow⟩ := h
  have hquiet := quiet_handleCommands (t := t) c' commands
  obtain ⟨new', heq', -⟩ := hquiet.effects
  cases commands with
  | nil =>
    refine ⟨new, heq, ?_⟩
    rw [List.length_nil, Nat.zero_add] at paid
    exact paid.lt_or_eq.imp_right fun hsame => ⟨hsame, hlow.mono (Nat.zero_le r)⟩
  | cons command commands =>
    refine ⟨new ++ new', by rw [heq', heq, List.append_assoc], .inl ?_⟩
    rw [hquiet.strategy]
    rw [List.length_cons] at paid
    omega

/-- Waking the strategy spends what its answer issues. -/
theorem spends_wake (frugal : Frugal budget) (c : Core Q S L R) (call : Call) (t : ℤ)
    (wakeup : Bool) :
    Spends budget r c (c.wake call t wakeup).1 := by
  have hpays := pays_call frugal c call t
  unfold wake
  generalize c.call call t = p at hpays
  obtain ⟨c', err | commands⟩ := p
  · exact spends_handleCommands (t := t) [] hpays.1 hpays.2
  · exact spends_handleCommands commands hpays.1 hpays.2

/-- A flush spends what its answers issue. -/
theorem spends_flushStrategy (frugal : Frugal budget) (c : Core Q S L R) (t : ℤ) :
    Spends budget r c (c.flushStrategy t).1 := by
  have hnone : ∀ {c' : Core Q S L R}, Pushes 0 c c' → budget c'.strategy ≤ budget c.strategy →
      Spends budget r c c' := fun h hle =>
    spends_handleCommands (t := t) [] h ((Nat.zero_add _).le.trans hle)
  have htune : ∀ c' : Core Q S L R, Spends budget r c' c'.tune := fun c' => by
    refine .of_pushes (.of_eq ?_) ?_ <;> unfold tune <;> split_ifs <;> rfl
  unfold flushStrategy
  split_ifs
  · exact .refl c
  · have hpays := pays_flushTicks frugal { c with activeBatchTimerId := none } t
    generalize Core.flushTicks { c with activeBatchTimerId := none } t = p at hpays
    obtain ⟨c', err | commands⟩ := p
    · exact hnone hpays.1 ((Nat.zero_add _).symm.le.trans hpays.2)
    · have hpays' := pays_flushReports frugal c' t
      dsimp only
      generalize c'.flushReports t = p' at hpays'
      obtain ⟨c'', err | commands'⟩ := p'
      · exact hnone (hpays.1.trans hpays'.1)
          (((Nat.zero_add _).symm.le.trans hpays'.2).trans ((Nat.le_add_left _ _).trans hpays.2))
      · refine Spends.trans (spends_handleCommands _ (hpays.1.trans hpays'.1) ?_) (htune _)
        have hfirst : commands.length + budget c'.strategy ≤ budget c.strategy := hpays.2
        have hsecond : commands'.length + budget c''.strategy ≤ budget c'.strategy := hpays'.2
        rw [List.length_append]
        change commands.length + commands'.length + budget c''.strategy ≤ budget c.strategy
        omega

/-- The handler of an event spends some of the budget, or schedules events of lower rank. -/
theorem spends_handle [LatencyModel L R] (frugal : Frugal budget) (c : Core Q S L R)
    (kind : EventKind) :
    Spends budget kind.rank c (c.handle kind).1 := by
  cases kind with
  | tick tick =>
    have hput : Pushes 4 c ((c.observeTrade tick).putExchange tick.symbolId
      (((c.observeTrade tick).exchange tick.symbolId).onTrade tick).1) := .of_eq rfl
    exact .of_pushes (hput.trans (pushes_bookTrade _ _ _ _)) (quiet_onTickEvent c tick).strategy
  | tickDelivery tick =>
    simp only [handle, onTickDelivery]
    split
    · exact Spends.trans (.of_pushes (.of_eq rfl) rfl) (spends_wake frugal _ _ _ _)
    · have hbuffer : Pushes 4 c ((c.observeDelivery tick).bufferTick tick).nextTimer := .of_eq rfl
      split_ifs
      · refine .of_pushes (hbuffer.pushAfter _ _ ?_) ?_
        · exact Nat.one_lt_succ_succ 2
        · simp only [armTimer, pushAfter_eq]
          rfl
      · exact .of_pushes (.of_eq rfl) rfl
  | l2Update update =>
    refine .of_pushes ?_ (quiet_onL2Update (t := 0) c update).strategy
    simp only [handle, onL2Update]
    split_ifs
    · exact .refl c
    · exact .of_eq rfl
  | l3Update update =>
    refine .of_pushes ?_ (quiet_onL3Update (t := 0) c update).strategy
    simp only [handle, onL3Update]
    split_ifs
    · exact .refl c
    · split <;> exact .of_eq rfl
  | order order =>
    refine .of_pushes ?_ (quiet_onOrder c order).strategy
    have hsampled : Pushes 3 c ((c.putExchange order.symbolId
      ((c.exchange order.symbolId).submitOrder order)).sampleOrderLatency).2 := .of_eq rfl
    exact (hsampled.emit (by simp)).pushAfterSat _ _ (Nat.lt_succ_self 2)
  | orderAck orderId =>
    exact .of_pushes (pushes_onOrderAck c orderId) (quiet_onOrderAck c orderId).strategy
  | orderCancel orderId =>
    refine .of_pushes ?_ (quiet_onOrderCancel c orderId).strategy
    simp only [handle, onOrderCancel]
    split
    · exact .refl c
    · next symbolId _ =>
      split
      · exact .of_eq rfl
      · next ex _ =>
        have hsampled : Pushes 3 c
            (((c.exchangeMut symbolId).putExchange symbolId ex).sampleOrderLatency).2 := .of_eq rfl
        exact (hsampled.emit (by simp)).pushAfterSat _ _ (Nat.lt_succ_self 2)
  | orderCancelAck orderId =>
    refine .of_pushes ?_ (quiet_onOrderCancelAck c orderId).strategy
    simp only [handle, onOrderCancelAck]
    split
    · exact .refl c
    · next symbolId _ =>
      split
      · exact .of_eq rfl
      · next report ex _ =>
        have hput : Pushes 2 c ((c.exchangeMut symbolId).putExchange symbolId ex) := .of_eq rfl
        exact hput.pushAfter _ _ (EventKind.rank_orderReport_lt report)
  | orderReport report =>
    simp only [handle, onOrderReport]
    have hforget : Spends budget (EventKind.orderReport report).rank c (c.forget report) :=
      .of_pushes (pushes_forget c report) (quiet_forget (t := 0) c report).strategy
    split
    · exact hforget.trans (spends_wake frugal _ _ _ _)
    · exact hforget.trans (.of_pushes (.of_eq rfl) rfl)
  | funding event =>
    have hfunding : Spends budget (EventKind.funding event).rank c (c.applyFunding event) :=
      .of_pushes (pushes_applyFunding c event) (quiet_applyFunding (t := 0) c event).strategy
    exact hfunding.trans (spends_wake frugal _ _ _ _)
  | timer timerId =>
    simp only [handle, onTimer]
    split_ifs
    · exact .of_pushes (.of_eq rfl) rfl
    · exact .refl c

end Core

/-! ## The engine -/

namespace Engine

variable {T U Q S L R : Type} [QueueModel Q] {e e' : Engine T U Q S L R} {budget : S → ℕ} {r : ℕ}

/-- Between `e` and `e'` some of the budget is spent, or the events that come to the queue are of a
rank below `r`. -/
def Spends (budget : S → ℕ) (r : ℕ) (e e' : Engine T U Q S L R) : Prop :=
  ∃ new, e'.queue.waiting EventKind.any =
      insertAll Prod.fst (scheduledIn EventKind.any new) (e.queue.waiting EventKind.any) ∧
    (budget e'.core.strategy < budget e.core.strategy ∨
      budget e'.core.strategy = budget e.core.strategy ∧ Lowers r new)

namespace Spends

/-- An engine that does nothing spends nothing. -/
theorem refl (e : Engine T U Q S L R) : Spends budget r e e := ⟨[], rfl, .inr ⟨rfl, lowers_nil r⟩⟩

/-- What an engine spends first and what it spends next. -/
theorem trans {e'' : Engine T U Q S L R} (h : Spends budget r e e') (h' : Spends budget r e' e'') :
    Spends budget r e e'' := by
  obtain ⟨new, heq, hnew⟩ := h
  obtain ⟨new', heq', hnew'⟩ := h'
  refine ⟨new ++ new', by rw [heq', heq, scheduledIn_append, insertAll_append_right], ?_⟩
  rcases hnew with hlt | ⟨hsame, hlow⟩
  · rcases hnew' with hlt' | ⟨hsame', -⟩
    · exact .inl (hlt'.trans hlt)
    · exact .inl (hsame' ▸ hlt)
  · rcases hnew' with hlt' | ⟨hsame', hlow'⟩
    · exact .inl (hsame ▸ hlt')
    · exact .inr ⟨hsame'.trans hsame, hlow.append hlow'⟩

end Spends

/-- The work of a handler, absorbed. -/
theorem spends_absorb {core : Core Q S L R} (now : ℤ)
    (h : Core.Spends budget r (e.core.cleared.atTime now) core) :
    Spends budget r e (e.absorb core) := by
  obtain ⟨new, heq, hnew⟩ := h
  obtain rfl : core.effects = new := heq
  exact ⟨core.effects, waiting_absorb e core EventKind.any, by rw [core_absorb]; exact hnew⟩

variable [Strategy S]

/-- A flush of the engine spends, or pushes nothing. -/
theorem spends_flush (frugal : Frugal budget) (e : Engine T U Q S L R) :
    Spends budget r e e.flush.1 :=
  spends_absorb e.core.nowTsSim (Core.spends_flushStrategy frugal e.core.cleared e.core.nowTsSim)

/-- An event spends, or pushes only events of lower rank. -/
theorem spends_dispatch [LatencyModel L R] (frugal : Frugal budget) (e : Engine T U Q S L R)
    (event : Event) :
    Spends budget event.kind.rank e (e.dispatch event).1 := by
  have hhandled : Spends budget event.kind.rank e (e.handleEvent event).1 :=
    spends_absorb (e := e.log (.popped event e.core.activeBatchTimerId)) event.tsSim
      (Core.spends_handle frugal (e.core.cleared.atTime event.tsSim) event.kind)
  unfold dispatch
  generalize e.handleEvent event = handled at hhandled
  obtain ⟨e', err | _ | wakeup⟩ := handled
  · exact hhandled
  · exact hhandled
  · refine hhandled.trans ?_
    have hflush : Spends budget event.kind.rank e' e'.flush.1 := spends_flush frugal e'
    change Spends budget _ e' (e'.deferredFlush wakeup).1
    unfold deferredFlush
    generalize e'.flush = flushed at hflush
    obtain ⟨e'', _ | err⟩ := flushed
    · split_ifs
      · exact hflush
      · exact .refl e'
      · exact .refl e'
    · split_ifs
      · exact hflush
      · exact .refl e'
      · exact .refl e'

/-- The ranks of the events that are scheduled, as a multiset. -/
def ranks (l : List (ℤ × EventKind)) : Multiset ℕ :=
  Multiset.ofList (l.map (EventKind.rank ∘ Prod.snd))

/-- A zero for each record that is buffered. -/
def zeros (e : Engine T U Q S L R) : Multiset ℕ :=
  Multiset.replicate (e.core.tickBuffer.length + e.core.reportBuffer.length) 0

/-- What waits in the queue and in the buffers. -/
def backlog (e : Engine T U Q S L R) : Multiset ℕ := ranks (e.queue.waiting EventKind.any) + e.zeros

/-- Pushing events adds their ranks to what waits. -/
theorem ranks_insertAll (l l' : List (ℤ × EventKind)) :
    ranks (insertAll Prod.fst l l') = ranks l' + ranks l := by
  have hperm : (insertAll Prod.fst l l').Perm (l' ++ l) := insertAll_perm _ _
  rw [ranks, Multiset.coe_eq_coe.2 (hperm.map _), List.map_append, ← Multiset.coe_add]
  rfl

/-- A flush without error empties the buffers. -/
theorem buffers_flush (h : e.flush.2 = none) :
    e.flush.1.core.tickBuffer = [] ∧ e.flush.1.core.reportBuffer = [] := by
  change (e.absorb _).core.tickBuffer = [] ∧ (e.absorb _).core.reportBuffer = []
  rw [core_absorb]
  exact (Core.receives_flushStrategy h).2

variable [TickSource T] [L3Source U]

/-- What the sources still yield, what the strategy may still issue, and what waits. -/
def HasWorkload (budget : S → ℕ) (e : Engine T U Q S L R) (w : Workload) : Prop :=
  ∃ l3s tks, e.Feeds l3s tks ∧
    w = ((records l3s tks).flatten.length, budget e.core.strategy, e.backlog)

/-- Every event ranks above the buffered records. -/
theorem rank_pos (kind : EventKind) : 0 < kind.rank := by
  cases kind <;> exact Nat.succ_pos _

/-- The event at the head of the queue is replaced by events of lower rank, and by what comes to the
buffers. -/
theorem less_of_event {n : ℕ} {event : Event} {queue : EventQueue}
    (pop : e.queue.pop = some (event, queue))
    {e₁ : Engine T U Q S L R} (h : Spends budget event.kind.rank e₁ e') (hqueue : e₁.queue = queue)
    (hcore : e₁.core = e.core) :
    Workload.Less (n, budget e'.core.strategy, e'.backlog)
      (n, budget e.core.strategy, e.backlog) := by
  obtain ⟨new, hwaiting, hnew⟩ := h
  rw [hcore] at hnew
  rcases hnew with hlt | ⟨hsame, hlow⟩
  · exact Workload.less_of_spend hlt
  · have hafter : e'.backlog =
        ranks (queue.waiting EventKind.any) + (ranks
          (scheduledIn EventKind.any new) + e'.zeros) := by
      rw [backlog, hwaiting, ranks_insertAll, hqueue, add_assoc]
    have hbefore :
        e.backlog = ranks (queue.waiting EventKind.any) + (event.kind.rank ::ₘ e.zeros) := by
      rw [backlog, EventQueue.waiting_pop pop, Multiset.add_cons, ← Multiset.cons_add]
      rfl
    rw [hsame, hafter, hbefore]
    refine Workload.less_of_replace Multiset.cons_ne_zero fun rank hrank => ?_
    refine ⟨event.kind.rank, Multiset.mem_cons_self _ _, ?_⟩
    rcases Multiset.mem_add.1 hrank with hrank | hrank
    · obtain ⟨x, hx, rfl⟩ := List.mem_map.1 (Multiset.mem_coe.1 hrank)
      exact hlow _ _ (mem_scheduledIn.1 hx).2
    · rw [Multiset.eq_of_mem_replicate hrank]
      exact rank_pos _

/-- The final flush leaves nothing behind, unless the strategy issues commands. -/
theorem less_of_flush {n : ℕ} (pop : e.queue.pop = none) (buffered : e.Buffered)
    {e₁ : Engine T U Q S L R} (h : Spends budget 0 e₁ e') (hqueue : e₁.queue = e.queue)
    (hcore : e₁.core = e.core) (hempty : e'.core.tickBuffer = [] ∧ e'.core.reportBuffer = []) :
    Workload.Less (n, budget e'.core.strategy, e'.backlog)
      (n, budget e.core.strategy, e.backlog) := by
  obtain ⟨new, hwaiting, hnew⟩ := h
  rw [hcore] at hnew
  rcases hnew with hlt | ⟨hsame, hlow⟩
  · exact Workload.less_of_spend hlt
  · have hnone : scheduledIn EventKind.any new = [] :=
      List.eq_nil_iff_forall_not_mem.2 fun x hx => by
        cases hlow _ _ (mem_scheduledIn.1 hx).2
    have hwait : e.queue.waiting EventKind.any = [] := by
      simp [EventQueue.waiting, EventQueue.pop_eq_none.1 pop]
    have hafter : e'.backlog = 0 := by
      rw [backlog, zeros, hwaiting, hnone, hqueue, hwait, hempty.1, hempty.2]
      rfl
    have hbefore : e.backlog ≠ 0 := by
      have hsome : 0 < e.core.tickBuffer.length + e.core.reportBuffer.length := by
        rcases buffered.2 with hticks | hreports
        · exact Nat.add_pos_left (List.length_pos_iff.2 (List.isEmpty_eq_false_iff.1 hticks)) _
        · exact Nat.add_pos_right _ (List.length_pos_iff.2 (List.isEmpty_eq_false_iff.1 hreports))
      rw [backlog, hwait]
      intro hzero
      have hcard := congrArg Multiset.card ((Multiset.zero_add e.zeros).symm.trans hzero)
      rw [zeros, Multiset.card_replicate] at hcard
      exact hsome.ne' hcard
    rw [hsame, hafter, ← zero_add e.backlog, ← zero_add (0 : Multiset ℕ)]
    exact Workload.less_of_replace hbefore fun rank hrank => absurd hrank (Multiset.notMem_zero _)

variable [LatencyModel L R]

/-- Over finite sources only the strategy and the depth updates fail. -/
theorem ofHandler_of_reaches {l3s : List (List L3Update)} {tks : List (List Tick)}
    {e₀ : Engine T U Q S L R}
    {st : Status (EngineError (Strategy.Error S))} (h : Reaches turn closed e₀ e st)
    (feeds : e₀.Feeds l3s tks) : ∀ err, st = .failed err → err.ofHandler := by
  refine (fed_invariant (I := fun _ st _ _ => ∀ err, st = .failed err → err.ofHandler) h feeds
    (fun err hst => by cases hst) fun e l3s tks r l3s' tks' _ hturn err hst =>
      ?_).choose_spec.choose_spec.2
  cases hturn with
  | ingest ticks l3 pick due => cases hst
  | event ticks l3 pop later => exact ofHandler_of_dispatch (statusOf_eq_failed.1 hst)
  | flush ticks l3 pop later buffered => exact ofHandler_of_flush (statusOf_eq_failed.1 hst)
  | finish ticks l3 pop later unbuffered => cases hst

/-- Over finite sources, and with a strategy that issues finitely many commands, the engine halts :
it finishes, or the strategy or a depth update fails. -/
theorem run_halts {l3s : List (List L3Update)} {tks : List (List Tick)} {e₀ : Engine T U Q S L R}
    (frugal : Frugal budget) (feeds : e₀.Feeds l3s tks) : ∃ n, (runFor turn n e₀).2 = .finished ∨
      ∃ err, (runFor turn n e₀).2 = .failed err ∧ err.ofHandler := by
  have hhalts : ∃ n, (runFor turn n e₀).2 ≠ .running := by
    refine halts_of_descends Workload.wellFounded_less (I := HasWorkload budget)
      (fun e w hw hrunning => ?_)
      ⟨l3s, tks, feeds, rfl⟩
    obtain ⟨l3s, tks, hfeeds, rfl⟩ := hw
    obtain ⟨l3s', tks', hturn, hfeeds'⟩ := turn_spec hfeeds
    refine ⟨_, ⟨l3s', tks', hfeeds', rfl⟩, ?_⟩
    clear hfeeds hfeeds'
    generalize e.turn = r at hturn hrunning
    cases hturn with
    | ingest ticks l3 pick due =>
      refine Workload.less_of_intake ?_
      rw [(KWayMerge.pick_perm pick).length_eq]
      exact Nat.lt_succ_self _
    | @event event queue ticks l3 pop later =>
      have hdispatch := spends_dispatch frugal ((e.withSources ticks l3).withQueue queue) event
      exact less_of_event pop hdispatch rfl rfl
    | flush ticks l3 pop later buffered =>
      have hflush : Spends budget 0 (e.withSources ticks l3) (e.withSources ticks l3).flush.1 :=
        spends_flush frugal _
      exact less_of_flush pop buffered hflush rfl rfl
        (buffers_flush (statusOf_eq_running.1 hrunning))
    | finish ticks l3 pop later unbuffered => cases hrunning
  obtain ⟨n, hn⟩ := hhalts
  refine ⟨n, ?_⟩
  have hreaches : Reaches turn closed e₀ (runFor turn n e₀).1 (runFor turn n e₀).2 :=
    reaches_runFor e₀ n
  have hfault := ofHandler_of_reaches hreaches feeds
  cases hst : (runFor turn n e₀).2 with
  | running => exact absurd hst hn
  | finished => exact .inl rfl
  | failed err => exact .inr ⟨err, rfl, hfault err hst⟩

end Engine

/-- Calls one after another are paid from one budget. -/
theorem frugal_callEach {S ε α : Type} {f : S → α → Except ε (S × List Command)} {budget : S → ℕ}
    (hf : ∀ s a s' commands, f s a = .ok (s', commands) → commands.length + budget s' ≤ budget s) :
    ∀ (l : List α) (s s' : S) (commands : List Command), callEach f s l = .ok (s', commands) →
      commands.length + budget s' ≤ budget s := by
  intro l
  induction l with
  | nil =>
    intro s s' commands h
    cases h
    exact (Nat.zero_add _).le
  | cons a l ih =>
    intro s s' commands h
    rw [callEach] at h
    split at h
    · cases h
    · next s₁ commands₁ heq =>
      cases hrest : callEach f s₁ l with
      | error err =>
        rw [hrest] at h
        cases h
      | ok p =>
        obtain ⟨s₂, commands₂⟩ := p
        rw [hrest] at h
        cases h
        have hfirst := hf s a s₁ commands₁ heq
        have hlater := ih s₁ s' commands₂ hrest
        rw [List.length_append]
        omega

/-- The budget of a script is what it still has to issue. -/
def Scripted.budget (s : Scripted) : ℕ := (s.script.map List.length).sum

/-- A strategy with a script has as much budget as commands. -/
theorem Scripted.frugal : Frugal Scripted.budget := by
  have hnext : ∀ (s s' : Scripted) (commands : List Command),
      (.ok (⟨s.script.tail⟩, s.script.headD []) : Except Empty (Scripted × List Command)) =
        .ok (s', commands) → commands.length + s'.budget ≤ s.budget := by
    rintro ⟨script⟩ s' commands h
    cases h
    cases script with
    | nil => exact (Nat.zero_add _).le
    | cons commands script => exact (List.sum_cons (a := commands.length)).ge
  intro s call ctx s' commands h
  cases call with
  | onTick tick => exact hnext s s' commands h
  | onTicks ticks => exact frugal_callEach (fun s _ => hnext s) ticks s s' commands h
  | onOrderUpdate report =>
    cases h
    exact (Nat.zero_add _).le
  | onOrderUpdates reports =>
    refine frugal_callEach (fun s _ s' commands h => ?_) reports s s' commands h
    cases h
    exact (Nat.zero_add _).le
  | onFunding event => exact hnext s s' commands h

/-- An order for each of two ticks, the second of which fills the first order. -/
theorem Engine.run_halts_sample :
    let order : Order := ⟨0, 0, 0, 0, 100, 1, 1, .buy, .limit⟩
    let ticks : List Tick := [⟨1000, 0, 0, 100, 1, 1, .buy, 0⟩, ⟨2000, 0, 1, 100, 1, 1, .sell, 0⟩]
    let e₀ := Engine.sample { mode := .batch } 10 [[.submitOrder order], [.submitOrder order]]
      [ticks]
    ∃ n, (runFor Engine.turn n e₀).2 = .finished ∨
      ∃ err, (runFor Engine.turn n e₀).2 = .failed err ∧
      err.ofHandler := by
  intro order ticks e₀
  have feeds : e₀.Feeds [] [ticks] :=
    (Engine.feeds_new _ _ _ _ _).addTickSource (yields_list ticks)
  exact Engine.run_halts Scripted.frugal feeds

end Backtester
