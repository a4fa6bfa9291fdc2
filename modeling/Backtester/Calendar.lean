import Backtester.ReportProtocol
import Backtester.Streaming

/-!
# The event calendar and the report channel

In a paced run the popped events, with those that wait after them, are at every moment the stable
sort by time of all events scheduled so far (`calendar_exact`) : the queue loses nothing, repeats
nothing, and takes events of one time in the order in which they were scheduled, whenever they were.

The reports are a channel to the strategy (`reports_fifo`). Each is sent one update latency after
the event it comes from. As the time does not run backwards the reports are scheduled in the order
of their times, so the stable sort leaves them in place : they are handed over in the order in which
they were sent, each at most once, and all of them when the run finishes.
-/

open Run StableSort History

set_option linter.unusedSectionVars false

namespace Backtester

/-- The reports that were sent to the strategy, in order. -/
def reportsSent (l : List Effect) : List OrderReport :=
  (scheduledIn EventKind.isReport l).flatMap (·.2.reports)

/-- A report is sent `latency` after the latest event. -/
def Effect.SentAfter (latency : ℤ) (pre : List Effect) : Effect → Prop
  | scheduled ts (.orderReport _) => ∃ x ∈ poppedIn EventKind.any pre, ts = x.1 + latency ∧
      ∀ y ∈ poppedIn EventKind.any pre, y.1 ≤ x.1
  | _ => True

namespace Engine

variable {T U Q S L R : Type} [QueueModel Q] [TickSource T] [L3Source U]
  {e e' : Engine T U Q S L R} {l3s l3s' : List (List L3Update)} {tks tks' : List (List Tick)}
    {latency : ℤ}

/-- Work at the time of the latest event sends its reports on time. -/
theorem sentAfter_works {new : List Effect} (h : Always (Effect.SentAfter latency) e.trace)
    (hw : Works e e' new) (htime : TimelyAt e.core.nowTsSim e new)
    (hno : Effect.overflow ∉ e'.trace) (hlatency : e.core.config.orderUpdateLatencyNs = latency)
    (hnow : ∃ x ∈ poppedIn EventKind.any e.trace, x.1 = e.core.nowTsSim)
    (hlatest : ∀ x ∈ poppedIn EventKind.any e.trace, x.1 ≤ e.core.nowTsSim) :
    Always (Effect.SentAfter latency) e'.trace := by
  have hnew : Effect.overflow ∉ new := fun hmem =>
    hno (by rw [hw.trace]; exact List.mem_append_right _ hmem)
  rw [hw.trace]
  refine always_append h fun pre x post hsplit => ?_
  have hx : x ∈ new := by simp [hsplit]
  have hpopped : poppedIn EventKind.any (e.trace ++ pre) = poppedIn EventKind.any e.trace := by
    have hnone := hw.poppedIn_eq_nil EventKind.any
    rw [hsplit, poppedIn_append] at hnone
    rw [poppedIn_append, (List.append_eq_nil_iff.1 hnone).1, List.append_nil]
  cases x with
  | scheduled ts kind =>
    cases kind with
    | orderReport r =>
      obtain ⟨y, hy, hynow⟩ := hnow
      have hts : ts = e.core.nowTsSim + e.core.config.orderUpdateLatencyNs := htime hnew _ hx
      refine ⟨y, hpopped ▸ hy, by rw [hts, hynow, hlatency], fun z hz => ?_⟩
      rw [hynow]
      exact hlatest z (hpopped ▸ hz)
    | _ => trivial
  | _ => trivial

section Turn

variable [Strategy S] [LatencyModel L R]

/-- What a run on the clock keeps of the report channel, with the status `st` of the run. -/
structure Channel (latency : ℤ) (st : Status (EngineError (Strategy.Error S)))
    (e : Engine T U Q S L R) :
    Prop where
  reporting : e.Reporting st
  delay : e.core.config.orderUpdateLatencyNs = latency
  sent : Always (Effect.SentAfter latency) e.trace
  complete : st = .finished → e.queue.pop = none ∧ e.core.reportBuffer = []

theorem Channel.turn {r : Engine T U Q S L R × Status (EngineError (Strategy.Error S))}
    (h : e.Channel latency .running) (hclock : e.Clock l3s tks) (hturn : Turn e l3s tks r l3s' tks')
    (hno : Effect.overflow ∉ r.1.trace) : r.1.Channel latency r.2 := by
  refine ⟨h.reporting.turn hclock hturn hno, ?_, ?_, ?_⟩
  · cases hturn with
    | ingest ticks l3 pick due =>
      change (e.schedule _).core.config.orderUpdateLatencyNs = _
      rw [core_schedule]
      exact h.delay
    | @event event queue ticks l3 pop later =>
      obtain ⟨new, hw, -⟩ := dispatch_spec ((e.withSources ticks l3).withQueue queue) event
      exact hw.latency.trans h.delay
    | flush ticks l3 pop later buffered =>
      obtain ⟨new, hw, -⟩ := flush_spec (e.withSources ticks l3)
      exact hw.latency.trans h.delay
    | finish ticks l3 pop later unbuffered => exact h.delay
  · cases hturn with
    | @ingest r _ _ ticks l3 pick due =>
      obtain ⟨rest, htrace, hrest⟩ := trace_schedule e r
      change Always _ (e.schedule r).trace
      rw [htrace]
      refine always_append h.sent fun pre x post hsplit => ?_
      have hx : x ∈ .ingested r :: rest := by simp [hsplit]
      rcases List.mem_cons.1 hx with rfl | hx
      · trivial
      · rcases hrest x hx with rfl | ⟨y, hy, rfl⟩
        · trivial
        · have hfeed := Record.isFeed_of_mem_events hy
          obtain ⟨ts, kind⟩ := y
          cases kind <;> trivial
    | @event event queue ticks l3 pop later =>
      let e₁ := (e.withSources ticks l3).withQueue queue
      obtain ⟨new, hw, htime⟩ := dispatch_spec e₁ event
      have htrace : (e₁.popped event).trace = e.trace ++
        [.popped event e.core.activeBatchTimerId] := rfl
      have hpopped := (hclock.withSources ticks l3).pop pop later
      refine sentAfter_works ?_ hw (htime (hclock.workTime_of_pop pop)) hno h.delay ?_ hpopped.now
      · rw [htrace]
        exact always_snoc.2 ⟨h.sent, trivial⟩
      · refine ⟨(event.tsSim, event.kind), ?_, rfl⟩
        rw [htrace, poppedIn_append, poppedIn_singleton]
        exact List.mem_append_right _ (List.mem_singleton_self _)
    | flush ticks l3 pop later buffered =>
      obtain ⟨new, hw, htime⟩ := flush_spec (e.withSources ticks l3)
      have hreceived := h.reporting.received (by simp)
      have hnow := h.reporting.inOrder.now.resolve_left fun hnil =>
        hreceived.popped_of_buffered buffered hnil.1
      exact sentAfter_works (e := e.withSources ticks l3) h.sent hw htime hno h.delay hnow
        hclock.now
    | finish ticks l3 pop later unbuffered => exact h.sent
  · intro hst
    cases hturn with
    | ingest ticks l3 pick due => cases hst
    | event ticks l3 pop later => exact absurd hst (statusOf_ne_finished _)
    | flush ticks l3 pop later buffered => exact absurd hst (statusOf_ne_finished _)
    | finish ticks l3 pop later unbuffered =>
      refine ⟨pop, ?_⟩
      cases hmode : e.core.config.mode with
      | tick => exact ((h.reporting.received (by simp)).unbuffered hmode).2
      | batch =>
        change e.core.reportBuffer = []
        have hb := (not_or.1 fun hb => unbuffered ⟨hmode, hb⟩).2
        simpa using hb

variable [SeedableRng R] {e₀ : Engine T U Q S L R} {st : Status (EngineError (Strategy.Error S))}

theorem Built.sentAfter (built : Built (fun _ kind => kind.isBackground = true) e₀) :
    Always (Effect.SentAfter latency) e₀.trace := by
  induction built with
  | new => exact always_nil
  | external _ hext ih =>
    cases hext with
    | addTickSource source => exact ih
    | addL3Source source => exact ih
    | @pushEvent ts kind hkind =>
      refine always_snoc.2 ⟨ih, ?_⟩
      cases kind <;> trivial

/-- The popped events and the waiting ones are the stable sort by time of all that was scheduled. -/
theorem calendar_exact (built : Built (fun _ kind => kind.isBackground = true) e₀)
    (feeds : e₀.Feeds l3s tks) (paced : e₀.Paced l3s tks) (h : Reaches turn closed e₀ e st)
    (hno : Effect.overflow ∉ e.trace) (p : EventKind → Bool) :
    poppedIn p e.trace ++ e.queue.waiting p = sortBy Prod.fst (scheduledIn p e.trace) := by
  obtain ⟨l3s', tks', -, hclock, -⟩ := clocked_invariant (I := fun _ _ _ _ => True) h feeds
    (built.clock paced) trivial (fun _ _ _ _ _ _ _ _ _ _ => trivial) hno
  exact hclock.agenda p

/-- Two latencies of the same length : the reports and the ticks of one time come in the order in
which they were scheduled. -/
theorem calendar_exact_sample :
    let order : Order := ⟨0, 0, 0, 0, 100, 2, 1, .buy, .limit⟩
    let ticks : List Tick := [⟨1000, 0, 0, 100, 1, 1, .buy, 0⟩, ⟨1002, 0, 1, 100, 1, 1, .sell, 0⟩,
      ⟨1004, 0, 2, 100, 1, 1, .buy, 0⟩]
    let e₀ := sample { orderUpdateLatencyNs := 2, feedLatencyNs := 2 } 2
      [[.submitOrder order]] [ticks]
    let e := (runFor turn 9 e₀).1
    (poppedIn EventKind.any e.trace).length = 6 ∧
      poppedIn EventKind.any e.trace ++ e.queue.waiting EventKind.any =
        sortBy Prod.fst (scheduledIn EventKind.any e.trace) := by
  intro order ticks e₀ e
  have built : Built (fun _ kind => kind.isBackground = true) e₀ :=
    .external (.new _ _ _ _ _) (.addTickSource ticks)
  have feeds : e₀.Feeds [] [ticks] := (feeds_new _ _ _ _ _).addTickSource (yields_list ticks)
  have paced : e₀.Paced [] [ticks] := ⟨by decide +kernel, by decide +kernel, by decide, by decide⟩
  have run : Reaches turn closed e₀ e .running := reaches_of_runFor 9 (by decide +kernel)
  exact ⟨by decide +kernel, calendar_exact built feeds paced run (by decide +kernel) EventKind.any⟩

/-- The channel at a moment of a run : what is handed over is what was sent first. -/
theorem channel (built : Built (fun _ kind => kind.isBackground = true) e₀)
    (feeds : e₀.Feeds l3s tks) (paced : e₀.Paced l3s tks) (h : Reaches turn closed e₀ e st)
    (hno : Effect.overflow ∉ e.trace) :
    e.Channel e₀.core.config.orderUpdateLatencyNs st ∧
    reportsHanded e.trace <+: reportsSent e.trace ∧
      (st = .finished → reportsHanded e.trace = reportsSent e.trace) := by
  let I (e : Engine T U Q S L R) (st : Status (EngineError (Strategy.Error S)))
      (_ : List (List L3Update)) (_ : List (List Tick)) : Prop :=
    Effect.overflow ∉ e.trace → e.Channel e₀.core.config.orderUpdateLatencyNs st
  obtain ⟨l3s', tks', -, hclock, hI⟩ := clocked_invariant (I := I) h feeds (built.clock paced)
    (fun _ => ⟨built.reporting, rfl, built.sentAfter, fun hst => by cases hst⟩)
    (fun e l3s tks r l3s' tks' hclock hI hturn _ hno =>
      (hI (hturn.overflow hno)).turn hclock hturn hno) hno
  have hchannel := hI hno
  have hcalendar := (hclock.agenda EventKind.isReport).trans
    (sortBy_eq_self hchannel.reporting.inOrder.sorted)
  have hhanded := hchannel.reporting.handed
  rw [reportsPopped_eq] at hhanded
  refine ⟨hchannel, hhanded.trans ?_, fun hst => ?_⟩
  · rw [reportsSent, ← hcalendar, List.flatMap_append]
    exact List.prefix_append _ _
  · obtain ⟨hpop, hbuffer⟩ := hchannel.complete hst
    have hwait : e.queue.waiting EventKind.isReport = [] := by
      simp [EventQueue.waiting, EventQueue.pop_eq_none.1 hpop]
    have hreceived := (hchannel.reporting.received (by simp [hst])).reports
    rw [hbuffer, List.append_nil, reportsPopped_eq] at hreceived
    rw [reportsSent, ← hcalendar, hwait, List.append_nil]
    exact hreceived

/-- The report channel delays each report by the update latency, keeps the order, and loses
nothing. -/
theorem reports_fifo (built : Built (fun _ kind => kind.isBackground = true) e₀)
    (feeds : e₀.Feeds l3s tks) (paced : e₀.Paced l3s tks) (h : Reaches turn closed e₀ e st)
    (hno : Effect.overflow ∉ e.trace) :
    Always (Effect.SentAfter e₀.core.config.orderUpdateLatencyNs) e.trace ∧
      reportsHanded e.trace <+: reportsSent e.trace ∧
      (st = .finished → reportsHanded e.trace = reportsSent e.trace) := by
  obtain ⟨hchannel, hhanded, hcomplete⟩ := channel built feeds paced h hno
  exact ⟨hchannel.sent, hhanded, hcomplete⟩

/-- The order is open and then filled in part while the first report is on its way. -/
theorem reports_fifo_sample :
    let order : Order := ⟨0, 0, 0, 0, 100, 2, 1, .buy, .limit⟩
    let ticks : List Tick := [⟨1000, 0, 0, 100, 1, 1, .buy, 0⟩, ⟨1011, 0, 1, 100, 1, 1, .sell, 0⟩,
      ⟨1012, 0, 2, 100, 1, 1, .sell, 0⟩]
    let e₀ := sample { orderUpdateLatencyNs := 3 } 10 [[.submitOrder order]] [ticks]
    let e := (runFor turn 16 e₀).1
    (reportsHanded e.trace).map OrderReport.status = [.open, .partiallyFilled, .filled] ∧
      reportsHanded e.trace = reportsSent e.trace := by
  intro order ticks e₀ e
  have built : Built (fun _ kind => kind.isBackground = true) e₀ :=
    .external (.new _ _ _ _ _) (.addTickSource ticks)
  have feeds : e₀.Feeds [] [ticks] := (feeds_new _ _ _ _ _).addTickSource (yields_list ticks)
  have paced : e₀.Paced [] [ticks] := ⟨by decide +kernel, by decide +kernel, by decide, by decide⟩
  have run : Reaches turn closed e₀ e .finished := reaches_of_runFor 16 (by decide +kernel)
  exact ⟨by decide +kernel, (reports_fifo built feeds paced run (by decide +kernel)).2.2 rfl⟩

end Turn

end Engine

end Backtester
