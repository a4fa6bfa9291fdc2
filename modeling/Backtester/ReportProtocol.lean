import Backtester.Delivery
import Backtester.Tracking

/-!
# The protocol of order reports

The statuses that the reports of an order go through are known when the reports are scheduled
(`Life.statuses`). Every report is scheduled one update latency after the event that causes it, so
the reports are scheduled in the order of time (`Engine.ReportsInOrder`) and popped in the order in
which they were scheduled. The strategy is handed what was popped, in order, in either mode. So what
it is told about an order is a prefix of what the order has to tell.
-/

open Run StableSort

set_option linter.unusedSectionVars false

namespace Backtester

/-! ## Complete courses -/

namespace IsComplete

variable {orderType : OrderType} {w pre post told : List OrderState} {s : OrderState}

/-- Only the last status is terminal. -/
theorem eq_snoc (h : IsComplete orderType w) :
    ∃ init last, w = init ++ [last] ∧ ∀ s ∈ init, s.isTerminal = false := by
  cases h with
  | @limitOrder k s last =>
    refine ⟨.open :: List.replicate k .partiallyFilled, s, rfl, fun s' hs' => ?_⟩
    rcases List.mem_cons.1 hs' with rfl | hs'
    · rfl
    · rw [List.eq_of_mem_replicate hs']
      rfl
  | filled => exact ⟨[], .filled, rfl, by simp⟩
  | rejected => exact ⟨[], .rejected, rfl, by simp⟩
  | cancelled => exact ⟨[.partiallyFilled], .cancelled, rfl, by simp [OrderState.isTerminal]⟩

/-- Nothing is told after a terminal status. -/
theorem terminal_last (h : IsComplete orderType w) (hpre : pre ++ s :: post <+: w)
    (hs : s.isTerminal = true) : post = [] := by
  obtain ⟨init, last, rfl, hinit⟩ := h.eq_snoc
  rcases List.eq_nil_or_concat post with rfl | ⟨post', x, rfl⟩
  · rfl
  · have hpre' : (pre ++ s :: post') ++ [x] <+: init ++ [last] := by simpa using hpre
    have hmem : pre ++ s :: post' <+: init := by
      obtain ⟨rest, hrest⟩ := hpre'
      rcases List.eq_nil_or_concat rest with rfl | ⟨rest', y, rfl⟩
      · rw [List.append_nil] at hrest
        exact (List.append_inj' hrest rfl).1 ▸ List.prefix_refl _
      · have heq : ((pre ++ s :: post') ++ [x] ++ rest') ++ [y] = init ++ [last] := by
          simpa using hrest
        exact ⟨[x] ++ rest', by simpa using (List.append_inj' heq rfl).1⟩
    have hfalse := hinit s (hmem.subset (by simp))
    rw [hs] at hfalse
    cases hfalse

/-- A limit order is open before anything else is told of it. -/
theorem open_first (h : IsComplete .limit w) (hpre : pre ++ s :: post <+: w)
    (hs : s ≠ .open) : OrderState.open ∈ pre := by
  cases h with
  | limitOrder k last =>
    cases pre with
    | nil =>
      obtain ⟨rest, hrest⟩ := hpre
      exact absurd (List.cons.inj hrest).1 hs
    | cons a pre =>
      obtain ⟨rest, hrest⟩ := hpre
      obtain rfl := (List.cons.inj hrest).1
      exact List.mem_cons_self

end IsComplete

/-- What the reports of an accepted order have told can be completed. -/
theorem Phase.Reports.complete {ph : Phase} {o : Order} {w : List OrderState} (h : ph.Reports w)
    (ho : ph.accepted = some o) : ∃ w', IsComplete o.orderType w' ∧ w <+: w' := by
  have hopen : w = [] → ∃ w', IsComplete o.orderType w' ∧ w <+: w' := by
    rintro rfl
    cases htype : o.orderType with
    | limit => exact ⟨_, .limitOrder 0 (.inl rfl), List.nil_prefix⟩
    | market => exact ⟨_, .filled, List.nil_prefix⟩
  cases ph with
  | resting o' dt s =>
    obtain rfl : o' = o := Option.some.inj ho
    obtain ⟨hlimit, k, rfl⟩ := h
    rw [hlimit]
    exact ⟨_, .limitOrder k (.inl rfl), List.prefix_append _ _⟩
  | partly o' dt =>
    obtain rfl : o' = o := Option.some.inj ho
    obtain ⟨hmarket, rfl⟩ := h
    rw [hmarket]
    exact ⟨_, .cancelled, List.prefix_append _ _⟩
  | closing o' dt s ts r =>
    obtain rfl : o' = o := Option.some.inj ho
    exact ⟨w, h, List.prefix_refl w⟩
  | closed o' dt =>
    obtain rfl : o' = o := Option.some.inj ho
    exact ⟨w, h, List.prefix_refl w⟩
  | registered | travelling | arriving | arrived | awaiting | acking => exact hopen h
  | _ => cases ho

/-- A refused order is told that it is rejected. -/
theorem Phase.Reports.rejected {ph : Phase} {o : Order} {w : List OrderState} (h : ph.Reports w)
    (ho : ph.turnedDown = some o) : w <+: [.rejected] := by
  cases ph with
  | declined o' =>
    obtain rfl : w = [] := h
    exact List.nil_prefix
  | refused o' ts r => exact h ▸ List.prefix_refl _
  | dismissed o' => exact h ▸ List.prefix_refl _
  | _ => cases ho

/-- A refused order has no latency and is not at an exchange. -/
theorem Phase.of_turnedDown {ph : Phase} {o : Order} (ho : ph.turnedDown = some o) :
    ph.latency = none ∧ ph.accepted = none ∧ ∀ s, ph.faces s = none := by
  cases ph with
  | declined | refused | dismissed => exact ⟨rfl, rfl, fun s => rfl⟩
  | _ => cases ho

/-! ## Reports in order -/

/-- The event is a report to the strategy. -/
def EventKind.isReport : EventKind → Bool
  | orderReport _ => true
  | _ => false

/-- The reports of order `n` that were scheduled. -/
theorem filterMap_reportAbout (n : ℕ) (l : List Effect) : l.filterMap (Life.reportAbout n) =
    ((scheduledIn EventKind.isReport l).flatMap (·.2.reports)).filter fun r => r.orderId = n := by
  induction l with
  | nil => rfl
  | cons x l ih =>
    rw [← List.singleton_append, List.filterMap_append, ih, scheduledIn_append, List.flatMap_append,
      List.filter_append]
    congr 1
    cases x with
    | scheduled ts kind =>
      cases kind with
      | orderReport r =>
        by_cases hr : r.orderId = n <;>
          simp [Life.reportAbout, scheduledIn, EventKind.isReport, EventKind.reports, hr]
      | _ => rfl
    | _ => rfl

theorem reportsPopped_eq (l : List Effect) :
    reportsPopped l = (poppedIn EventKind.isReport l).flatMap (·.2.reports) :=
  flatMap_poppedIn (fun kind h => by cases kind <;> first | rfl | cases h) l

namespace Engine

variable {T U Q S L R : Type} [QueueModel Q] [TickSource T] [L3Source U]

/-- The statuses of order `n` that the strategy was told, in order. -/
def told (n : ℕ) (e : Engine T U Q S L R) : List OrderState :=
  ((reportsHanded e.trace).filter fun r => r.orderId = n).map OrderReport.status

/-- The reports are scheduled in the order of time, none later than one update latency from now. -/
structure ReportsInOrder (e : Engine T U Q S L R) : Prop where
  sorted : SortedBy Prod.fst (scheduledIn EventKind.isReport e.trace)
  soon : ∀ x ∈ scheduledIn EventKind.isReport e.trace,
    x.1 ≤ e.core.nowTsSim + e.core.config.orderUpdateLatencyNs
  now : (poppedIn EventKind.any e.trace = [] ∧ scheduledIn EventKind.isReport e.trace = []) ∨
    ∃ x ∈ poppedIn EventKind.any e.trace, x.1 = e.core.nowTsSim

variable {e e' : Engine T U Q S L R} {l3s l3s' : List (List L3Update)} {tks tks' : List (List Tick)}
  {n : ℕ}

namespace ReportsInOrder

theorem frame (h : e.ReportsInOrder) (hcore : e'.core = e.core)
    (hpopped : poppedIn EventKind.any e'.trace = poppedIn EventKind.any e.trace)
    (hscheduled : scheduledIn EventKind.isReport e'.trace =
      scheduledIn EventKind.isReport e.trace) : e'.ReportsInOrder := by
  refine ⟨hscheduled ▸ h.sorted, fun x hx => ?_, ?_⟩
  · rw [hcore]
    exact h.soon x (hscheduled ▸ hx)
  · rw [hcore, hpopped, hscheduled]
    exact h.now

/-- The time goes on to that of the popped event. -/
theorem pop (h : e.ReportsInOrder) (hclock : e.Clock l3s tks) {event : Event} {queue : EventQueue}
    (pop : e.queue.pop = some (event, queue)) :
    ((e.withQueue queue).popped event).ReportsInOrder := by
  have htrace : ((e.withQueue queue).popped event).trace =
    e.trace ++ [.popped event e.core.activeBatchTimerId] := rfl
  have hscheduled : scheduledIn EventKind.isReport ((e.withQueue queue).popped event).trace =
      scheduledIn EventKind.isReport e.trace := by
    simp [htrace, scheduledIn]
  refine ⟨hscheduled ▸ h.sorted, fun x hx => ?_, .inr ⟨(event.tsSim, event.kind), ?_, rfl⟩⟩
  · rw [hscheduled] at hx
    rcases h.now with ⟨-, hnil⟩ | ⟨y, hy, hnow⟩
    · rw [hnil] at hx
      cases hx
    · have hlater : e.core.nowTsSim ≤ event.tsSim := hnow ▸ hclock.popped_le_tsSim pop y hy
      exact (h.soon x hx).trans (Int.add_le_add_right hlater _)
  · rw [htrace, poppedIn_append, poppedIn_singleton]
    exact List.mem_append_right _ (List.mem_singleton_self _)

/-- Work at the time of a popped event. -/
theorem works (h : e.ReportsInOrder) {new : List Effect} (hw : Works e e' new)
    (htime : TimelyAt e.core.nowTsSim e new) (hno : Effect.overflow ∉ e'.trace)
    (hnow : ∃ x ∈ poppedIn EventKind.any e.trace, x.1 = e.core.nowTsSim) : e'.ReportsInOrder := by
  have hnew : Effect.overflow ∉ new := fun hmem =>
    hno (by rw [hw.trace]; exact List.mem_append_right _ hmem)
  have hat : ∀ x ∈ scheduledIn EventKind.isReport new,
      x.1 = e.core.nowTsSim + e.core.config.orderUpdateLatencyNs := by
    rintro ⟨ts, kind⟩ hx
    obtain ⟨hreport, hmem⟩ := mem_scheduledIn.1 hx
    have ht := htime hnew _ hmem
    cases kind with
    | orderReport r => exact ht
    | _ => cases hreport
  have hscheduled : scheduledIn EventKind.isReport e'.trace =
      scheduledIn EventKind.isReport e.trace ++ scheduledIn EventKind.isReport new := by
    rw [hw.trace, scheduledIn_append]
  refine ⟨?_, fun x hx => ?_, .inr ?_⟩
  · rw [hscheduled]
    refine List.pairwise_append.2 ⟨h.sorted, ?_, fun x hx y hy => (hat y hy) ▸ h.soon x hx⟩
    exact List.pairwise_iff_forall_sublist.2 fun {x y} hxy => by
      rw [hat x (hxy.subset (by simp)), hat y (hxy.subset (by simp))]
  · rw [hw.nowTsSim, hw.latency]
    rw [hscheduled] at hx
    exact (List.mem_append.1 hx).elim (h.soon x) fun hx => (hat x hx).le
  · rw [hw.poppedIn_trace, hw.nowTsSim]
    exact hnow

end ReportsInOrder

section Turn

variable [Strategy S]

/-- What is buffered was popped. -/
theorem Received.popped_of_buffered (h : e.Received) (hbuffered : e.Buffered) :
    poppedIn EventKind.any e.trace ≠ [] := by
  intro hnil
  have hticks := h.ticks
  have hreports := h.reports
  rw [ticksPopped, hnil] at hticks
  rw [reportsPopped, hnil] at hreports
  have htick : e.core.tickBuffer = [] := (List.append_eq_nil_iff.1 hticks).2
  have hreport : e.core.reportBuffer = [] := (List.append_eq_nil_iff.1 hreports).2
  rcases hbuffered.2 with hb | hb
  · rw [htick] at hb
    cases hb
  · rw [hreport] at hb
    cases hb

/-- A flush hands over reports that were popped, in order, also when it fails. -/
theorem Received.flush_told (h : e.Received) :
    reportsHanded e.flush.1.trace <+: reportsPopped e.flush.1.trace := by
  cases hresult : e.flush.2 with
  | none => exact ⟨_, (h.flush hresult).1.reports⟩
  | some err =>
    obtain ⟨new, hw, -⟩ := flush_spec e
    have hnew : reportsHanded new <+: e.core.reportBuffer := by
      have heffects : (e.core.cleared.flushStrategy e.core.nowTsSim).1.effects = new :=
        List.append_cancel_left ((trace_absorb e _).symm.trans hw.trace)
      have hsome : (e.core.cleared.flushStrategy e.core.nowTsSim).2 = some err := hresult
      rcases Core.flushStrategy_spec e.core.cleared e.core.nowTsSim with
        ⟨-, -, heq⟩ | ⟨strategy, calls, tickBuffer, err', ⟨hcalls, -⟩, heq⟩ |
          ⟨strategy, commands, heq⟩
      · rw [heq] at hsome
        cases hsome
      · rw [heq] at heffects
        have hmade : new = calls.map (Effect.called · e.core.nowTsSim e.core.market) :=
          heffects.symm.trans (List.nil_append _)
        rw [hmade, reportsHanded_calls]
        have hpre := hcalls.flatMap Call.reports
        rwa [Core.handover_reports] at hpre
      · rw [heq] at hsome
        cases hsome
    rw [hw.trace, reportsHanded_append, reportsPopped_append, hw.popped_eq_nil.2, List.append_nil,
      ← h.reports]
    exact (List.prefix_append_right_inj _).2 hnew

variable [LatencyModel L R]

theorem Received.dispatch_told (h : e.Received) (event : Event) :
    reportsHanded (e.dispatch event).1.trace <+: reportsPopped (e.dispatch event).1.trace := by
  have hevent := h.handleEvent event
  unfold Engine.dispatch
  split
  · next heq =>
    rw [heq] at hevent
    exact ⟨_, hevent.reports⟩
  · next heq =>
    rw [heq] at hevent
    exact ⟨_, hevent.reports⟩
  · next e' wakeup heq =>
    rw [heq] at hevent
    have htold := Received.flush_told (e := e') hevent
    have hreports := Received.reports (e := e') hevent
    unfold Engine.deferredFlush
    split_ifs
    · split
      · next heq' => simpa only [heq'] using htold
      · next heq' =>
        rw [heq'] at htold
        exact htold
    · exact ⟨_, hreports⟩
    · exact ⟨_, hreports⟩

/-- What a run on the clock keeps of its reports, with the status `st` of the run. -/
structure Reporting (st : Status (EngineError (Strategy.Error S))) (e : Engine T U Q S L R) :
    Prop where
  inOrder : e.ReportsInOrder
  handed : reportsHanded e.trace <+: reportsPopped e.trace
  received : (∀ err, st ≠ .failed err) → e.Received

theorem Reporting.turn {r : Engine T U Q S L R × Status (EngineError (Strategy.Error S))}
    (h : e.Reporting .running) (hclock : e.Clock l3s tks) (hturn : Turn e l3s tks r l3s' tks')
    (hno : Effect.overflow ∉ r.1.trace) : r.1.Reporting r.2 := by
  have hreceived := h.received (by simp)
  cases hturn with
  | @ingest r l3s' tks' ticks l3 pick due =>
    have hinOrder : (e.schedule r).ReportsInOrder := by
      refine h.inOrder.frame (core_schedule e r) (poppedIn_schedule e r _) ?_
      rw [scheduledIn_schedule]
      cases r <;> simp [Record.events, EventKind.isReport]
    have hreceived' := hreceived.schedule r
    exact ⟨hinOrder.frame rfl rfl rfl, ⟨_, hreceived'.reports⟩,
      fun _ => ⟨hreceived'.ticks, hreceived'.reports, hreceived'.unbuffered⟩⟩
  | @event event queue ticks l3 pop later =>
    let e₁ := (e.withSources ticks l3).withQueue queue
    have hclock₁ := hclock.withSources ticks l3
    have hreceived₁ : e₁.Received := ⟨hreceived.ticks, hreceived.reports, hreceived.unbuffered⟩
    have hinOrder : (e.withSources ticks l3).ReportsInOrder := h.inOrder.frame rfl rfl rfl
    obtain ⟨new, hw, htime⟩ := dispatch_spec e₁ event
    have hmem : ∃ x ∈ poppedIn EventKind.any (e₁.popped event).trace,
        x.1 = (e₁.popped event).core.nowTsSim := by
      refine ⟨(event.tsSim, event.kind), ?_, rfl⟩
      change _ ∈ poppedIn EventKind.any (e.trace ++ [.popped event e.core.activeBatchTimerId])
      rw [poppedIn_append, poppedIn_singleton]
      exact List.mem_append_right _ (List.mem_singleton_self _)
    refine ⟨(hinOrder.pop hclock₁ pop).works hw (htime (hclock.workTime_of_pop pop)) hno hmem,
      hreceived₁.dispatch_told event, fun hok => hreceived₁.dispatch ?_⟩
    cases herr : (e₁.dispatch event).2 with
    | none => rfl
    | some err => exact absurd (statusOf_eq_failed.2 herr) (hok err)
  | flush ticks l3 pop later buffered =>
    have hreceived₁ : (e.withSources ticks l3).Received :=
      ⟨hreceived.ticks, hreceived.reports, hreceived.unbuffered⟩
    have hinOrder : (e.withSources ticks l3).ReportsInOrder := h.inOrder.frame rfl rfl rfl
    obtain ⟨new, hw, htime⟩ := flush_spec (e.withSources ticks l3)
    have hmem := h.inOrder.now.resolve_left fun hnil => hreceived.popped_of_buffered buffered hnil.1
    refine ⟨hinOrder.works hw htime hno hmem, hreceived₁.flush_told, fun hok => ?_⟩
    refine (hreceived₁.flush ?_).1
    cases herr : (e.withSources ticks l3).flush.2 with
    | none => rfl
    | some err => exact absurd (statusOf_eq_failed.2 herr) (hok err)
  | finish ticks l3 pop later unbuffered =>
    exact ⟨h.inOrder.frame rfl rfl rfl, h.handed,
      fun _ => ⟨hreceived.ticks, hreceived.reports, hreceived.unbuffered⟩⟩

variable [SeedableRng R] {e₀ : Engine T U Q S L R}
  {st : Status (EngineError (Strategy.Error S))}

theorem Built.reporting (built : Built (fun _ kind => kind.isBackground = true) e) :
    e.Reporting .running := by
  have hscheduled : scheduledIn EventKind.isReport e.trace = [] := by
    induction built with
    | new => rfl
    | external _ hext ih =>
      cases hext with
      | addTickSource source => exact ih
      | addL3Source source => exact ih
      | @pushEvent ts kind hallowed =>
        rw [trace_pushEvent, scheduledIn_append, ih, scheduledIn_singleton]
        cases kind <;> first | rfl | cases hallowed
  have hpopped := built.poppedIn_trace
  refine ⟨⟨?_, ?_, .inl ⟨hpopped _, hscheduled⟩⟩, ⟨_, built.received.reports⟩,
    fun _ => built.received⟩
  · rw [hscheduled]
    exact List.Pairwise.nil
  · rw [hscheduled]
    simp

/-- At every turn of a run on the clock, the strategy was told about an order a prefix of what its
scheduled reports tell. -/
theorem told_of_scheduled (built : Built (fun _ kind => kind.isBackground = true) e₀)
    (feeds : e₀.Feeds l3s tks) (paced : e₀.Paced l3s tks) (h : Reaches turn closed e₀ e st)
    (hno : Effect.overflow ∉ e.trace) (n : ℕ) :
    e.told n <+: (e.trace.filterMap (Life.reportAbout n)).map OrderReport.status := by
  let I (e : Engine T U Q S L R) (st : Status (EngineError (Strategy.Error S)))
      (_ : List (List L3Update)) (_ : List (List Tick)) : Prop :=
    Effect.overflow ∉ e.trace → e.Reporting st
  obtain ⟨l3s', tks', -, hclock, hI⟩ := clocked_invariant (I := I) h feeds (built.clock paced)
    (fun _ => built.reporting)
    (fun e l3s tks r l3s' tks' hclock hI hturn _ hno =>
      (hI (hturn.overflow hno)).turn hclock hturn hno) hno
  have hreporting := hI hno
  have hpopped : poppedIn EventKind.isReport e.trace <+: scheduledIn EventKind.isReport e.trace :=
    ⟨_, (hclock.agenda _).trans (sortBy_eq_self hreporting.inOrder.sorted)⟩
  rw [filterMap_reportAbout]
  refine ((hreporting.handed.trans ?_).filter _).map _
  rw [reportsPopped_eq]
  exact hpopped.flatMap _

/-- The order reports follow the protocol. What the strategy was told about a refused order is a
prefix of `[Rejected]`, and such an order never reaches an exchange. What it was told about an
accepted order is a prefix of a complete course for the order's type, so nothing follows a terminal
status, and a limit order is open first. About any other id it was told nothing. -/
theorem report_protocol (built : Built (fun _ kind => kind.isBackground = true) e₀)
    (feeds : e₀.Feeds l3s tks) (paced : e₀.Paced l3s tks) (h : Reaches turn closed e₀ e st)
    (hno : Effect.overflow ∉ e.trace) (n : ℕ) :
    (∀ o reason, .refused o reason ∈ e.trace → o.orderId = n →
      e.told n <+: [.rejected] ∧ (∀ dt, .orderLatency n dt ∉ e.trace) ∧
      (∀ s, (e.core.exchange s).orders[n]? = none) ∧ ∀ o', .accepted o' ∈ e.trace →
        o'.orderId ≠ n) ∧
    (∀ o, .accepted o ∈ e.trace → o.orderId = n →
      (∃ w, IsComplete o.orderType w ∧ e.told n <+: w) ∧
      (∀ pre s post, e.told n = pre ++ s :: post → s.isTerminal = true → post = []) ∧
      (o.orderType = .limit →
        ∀ pre s post, e.told n = pre ++ s :: post → s ≠ .open → OrderState.open ∈ pre)) ∧
    (e.told n ≠ [] → ∃ o, o.orderId = n ∧
      (.accepted o ∈ e.trace ∨ ∃ reason, .refused o reason ∈ e.trace)) := by
  have outside : ∀ (ts : ℤ) (kind : EventKind), kind.isBackground = true →
      kind.isOrderEvent = false := fun _ kind hk => by cases kind <;> first | rfl | cases hk
  have htracked : e.Tracked := h.invariant_closed (tracked built .start outside) fun _ =>
    Tracked.turn
  obtain ⟨ph, hin⟩ := htracked.inPhase n
  have hpre := told_of_scheduled built feeds paced h hno n
  have hreports := hin.life.statuses
  refine ⟨fun o reason ho hid => ?_, fun o ho hid => ?_, fun htold => ?_⟩
  · have hdown := hin.life.turnedDown_iff.2 ⟨⟨reason, ho⟩, hid⟩
    obtain ⟨hlatency, haccepted, hfaces⟩ := Phase.of_turnedDown hdown
    refine ⟨hpre.trans (hreports.rejected hdown), fun dt hdt => ?_, fun s => ?_,
      fun o' ho' hid' => ?_⟩
    · cases hlatency.symm.trans (hin.life.latency_iff.2 hdt)
    · rw [← ExchangeSimulator.face_eq_none]
      exact (congrFun hin.stage.faces s).trans (hfaces s)
    · cases haccepted.symm.trans (hin.life.accepted_iff.2 ⟨ho', hid'⟩)
  · obtain ⟨w, hw, hcomplete⟩ := hreports.complete (hin.life.accepted_iff.2 ⟨ho, hid⟩)
    have htold := hpre.trans hcomplete
    refine ⟨⟨w, hw, htold⟩, fun pre s post heq hs => ?_, fun hlimit pre s post heq hs => ?_⟩
    · exact hw.terminal_last (heq ▸ htold) hs
    · rw [hlimit] at hw
      exact hw.open_first (heq ▸ htold) hs
  · have hsome : ∃ o, ph.accepted = some o ∨ ph.turnedDown = some o := by
      by_contra hno
      push Not at hno
      cases ph with
      | unborn =>
        have hnil : e.told n <+: [] := hreports ▸ hpre
        exact htold (List.prefix_nil.1 hnil)
      | _ => simp [Phase.accepted, Phase.turnedDown] at hno
    obtain ⟨o, ho | ho⟩ := hsome
    · exact ⟨o, (hin.life.accepted_iff.1 ho).2, .inl (hin.life.accepted_iff.1 ho).1⟩
    · exact ⟨o, (hin.life.turnedDown_iff.1 ho).2, .inr (hin.life.turnedDown_iff.1 ho).1⟩

/-- Order `1` is filled in part and cancelled; order `2` is too large for the risk guard. -/
theorem report_protocol_sample :
    let order : Order := ⟨0, 0, 0, 0, 100, 2, 1, .buy, .limit⟩
    let ticks : List Tick := [⟨1000, 0, 0, 100, 1, 1, .buy, 0⟩, ⟨1015, 0, 1, 100, 1, 1, .sell, 0⟩,
      ⟨1016, 0, 2, 100, 1, 1, .buy, 0⟩]
    let e₀ := sample { maxPosition := 5, orderUpdateLatencyNs := 3 } 10
      [[.submitOrder order, .submitOrder { order with qty := 9 }], [], [.cancelOrder 1]] [ticks]
    let e := (runFor turn 24 e₀).1
    e.told 1 = [.open, .partiallyFilled, .cancelled] ∧
      (∃ w, IsComplete .limit w ∧ e.told 1 <+: w) ∧ e.told 2 <+: [.rejected] := by
  intro order ticks e₀ e
  have built : Built (fun _ kind => kind.isBackground = true) e₀ :=
    .external (.new _ _ _ _ _) (.addTickSource ticks)
  have feeds : e₀.Feeds [] [ticks] := (feeds_new _ _ _ _ _).addTickSource (yields_list ticks)
  have paced : e₀.Paced [] [ticks] := ⟨by decide +kernel, by decide +kernel, by decide, by decide⟩
  have run : Reaches turn closed e₀ e .finished := reaches_of_runFor 24 (by decide +kernel)
  have hno : Effect.overflow ∉ e.trace := by decide +kernel
  have haccepted : { order with orderId := 1, tsSubmit := 1000 } ∈
      e.trace.filterMap (Life.acceptedAs 1) := by decide +kernel
  have hrefused : { order with orderId := 2, tsSubmit := 1000, qty := 9 } ∈
      e.trace.filterMap (Life.refusedAs 2) := by decide +kernel
  have ho := Life.mem_acceptedAs.1 haccepted
  obtain ⟨⟨reason, hreason⟩, hid⟩ := Life.mem_refusedAs.1 hrefused
  exact ⟨by decide +kernel, ((report_protocol built feeds paced run hno 1).2.1 _ ho.1 ho.2).1,
    ((report_protocol built feeds paced run hno 2).1 _ reason hreason hid).1⟩

end Turn

end Engine

end Backtester
