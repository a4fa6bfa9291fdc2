import Backtester.Ingestion

/-!
# The clock

When every source is sorted by exchange time, no tick is local before it is at the exchange, and
no latency is negative (`Paced`), the engine pops events in the order of their timestamps,
as long as no timestamp overflows. The reason is that nothing is ever scheduled in the past of what
was popped : a handler schedules at its own time or later, and a record left in a source is
not earlier than any popped event. Popped and waiting events together are then the
stable sort of everything scheduled (`Agenda`).

`Clock` collects what holds at every turn of such a run, and `clocked_invariant` is the
invariant rule that provides it.
-/

open Run StableSort

set_option linter.unusedSectionVars false

namespace Backtester

namespace EventKind

/-- Events of every kind. -/
def any (_ : EventKind) : Bool := true

/-- What a caller may push before a run : market data other than ticks. -/
def isBackground : EventKind → Bool
  | l2Update _ | l3Update _ | funding _ => true
  | _ => false

/-- A tick is queued at its exchange time, a delivery at its local time. -/
def IsDated (ts : ℤ) : EventKind → Prop
  | tick t => ts = t.tsExchange
  | tickDelivery t => ts = t.tsLocal ∧ t.tsExchange ≤ t.tsLocal
  | _ => True

theorem IsDated.workTime {ts : ℤ} {kind : EventKind} (h : kind.IsDated ts) :
    Core.workTime kind ts = ts := by
  cases kind with
  | tick t => exact h.symm
  | tickDelivery t => exact h.1.symm
  | _ => rfl

theorem isDated_of_not_isMarket {kind : EventKind} (h : kind.isMarket = false) (ts : ℤ) :
    kind.IsDated ts := by
  cases kind <;> trivial

theorem isDated_of_isBackground {kind : EventKind} (h : kind.isBackground = true) (ts : ℤ) :
    kind.IsDated ts := by
  cases kind <;> trivial

end EventKind

/-- The local time of a record is not before its exchange time. -/
def Record.IsStamped : Record → Prop
  | .l3 _ => True
  | .tick t => t.tsLocal = 0 ∨ t.tsExchange ≤ t.tsLocal

instance : DecidablePred Record.IsStamped := fun r => by
  cases r <;> unfold Record.IsStamped <;> infer_instance

namespace Engine

variable {T U Q S L R : Type} [QueueModel Q] [TickSource T] [L3Source U]

/-- What was popped and what waits is the stable sort of what was scheduled. -/
def Agenda (p : EventKind → Bool) (e : Engine T U Q S L R) : Prop :=
  poppedIn p e.trace ++ e.queue.waiting p = sortBy Prod.fst (scheduledIn p e.trace)

/-- The feed latency is not negative, and the records left are sorted and stamped. -/
structure Timely (e : Engine T U Q S L R) (l3s : List (List L3Update)) (tks : List (List Tick)) :
    Prop where
  feedLatency : 0 ≤ e.core.config.feedLatencyNs
  sorted : ∀ l ∈ records l3s tks, SortedBy Record.tsExchange l
  stamped : ∀ l ∈ records l3s tks, ∀ r ∈ l, r.IsStamped

/-- The latencies are not negative, and the records left are sorted and stamped. -/
structure Paced (e : Engine T U Q S L R) (l3s : List (List L3Update)) (tks : List (List Tick)) :
    Prop where
  feedLatency : 0 ≤ e.core.config.feedLatencyNs
  updateLatency : 0 ≤ e.core.config.orderUpdateLatencyNs
  sorted : ∀ l ∈ records l3s tks, SortedBy Record.tsExchange l
  stamped : ∀ l ∈ records l3s tks, ∀ r ∈ l, r.IsStamped

/-- What holds at every turn of a run without overflow. -/
structure Clock (e : Engine T U Q S L R) (l3s : List (List L3Update)) (tks : List (List Tick)) :
    Prop where
  paced : e.Paced l3s tks
  agenda : ∀ p, e.Agenda p
  dated : ∀ x ∈ scheduledIn EventKind.any e.trace, x.2.IsDated x.1
  now : ∀ x ∈ poppedIn EventKind.any e.trace, x.1 ≤ e.core.nowTsSim
  ahead : ∀ x ∈ poppedIn EventKind.any e.trace, ∀ l ∈ records l3s tks, ∀ r ∈ l, x.1 ≤ r.tsExchange

variable {e e' : Engine T U Q S L R} {l3s l3s' : List (List L3Update)} {tks tks' : List (List Tick)}
  {p : EventKind → Bool}

/-! ## The agenda -/

theorem mem_poppedIn_any {l : List Effect} {x : ℤ × EventKind} (h : x ∈ poppedIn p l) :
    x ∈ poppedIn EventKind.any l :=
  mem_poppedIn.2 ⟨rfl, (mem_poppedIn.1 h).2⟩

namespace Agenda

/-- Scheduling what is not before any popped event keeps the agenda. -/
theorem grow (h : e.Agenda p) {new : List (ℤ × EventKind)}
    (hpopped : poppedIn p e'.trace = poppedIn p e.trace)
    (hscheduled : scheduledIn p e'.trace = scheduledIn p e.trace ++ new)
    (hwaiting : e'.queue.waiting p = insertAll Prod.fst new (e.queue.waiting p))
    (late : ∀ x ∈ new, ∀ y ∈ poppedIn p e.trace, y.1 ≤ x.1) : e'.Agenda p := by
  unfold Agenda at h ⊢
  rw [hpopped, hwaiting, hscheduled, sortBy_append, ← h, insertAll_append late]

theorem sorted (h : e.Agenda p) : SortedBy Prod.fst (poppedIn p e.trace ++ e.queue.waiting p) :=
  h ▸ sortedBy_sortBy _

/-- Nothing that waits is before anything popped. -/
theorem popped_le (h : e.Agenda p) {x y : ℤ × EventKind} (hx : x ∈ poppedIn p e.trace)
    (hy : y ∈ e.queue.waiting p) : x.1 ≤ y.1 :=
  (List.pairwise_append.1 h.sorted).2.2 x hx y hy

theorem sorted_popped (h : e.Agenda p) : SortedBy Prod.fst (poppedIn p e.trace) :=
  (List.pairwise_append.1 h.sorted).1

theorem perm (h : e.Agenda p) :
    (poppedIn p e.trace ++ e.queue.waiting p).Perm (scheduledIn p e.trace) :=
  h ▸ sortBy_perm _

theorem scheduled_of_popped (h : e.Agenda p) {x : ℤ × EventKind} (hx : x ∈ poppedIn p e.trace) :
    x ∈ scheduledIn p e.trace :=
  h.perm.mem_iff.1 (List.mem_append_left _ hx)

theorem scheduled_of_waiting (h : e.Agenda p) {x : ℤ × EventKind} (hx : x ∈ e.queue.waiting p) :
    x ∈ scheduledIn p e.trace :=
  h.perm.mem_iff.1 (List.mem_append_right _ hx)

/-- The head of the queue moves to the popped events. -/
theorem pop (h : e.Agenda p) {event : Event} {queue : EventQueue}
    (pop : e.queue.pop = some (event, queue)) :
    ((e.withQueue queue).popped event).Agenda p := by
  have htrace : ((e.withQueue queue).popped event).trace =
    e.trace ++ [.popped event e.core.activeBatchTimerId] := rfl
  have hscheduled : scheduledIn p ((e.withQueue queue).popped event).trace =
      scheduledIn p e.trace := by simp [htrace, scheduledIn]
  unfold Agenda at h ⊢
  rw [hscheduled, ← h, EventQueue.waiting_pop pop, htrace, poppedIn_append, poppedIn_singleton,
    List.append_assoc]
  rfl

/-- Handlers that schedule nothing before a popped event keep the agenda. -/
theorem works (h : e.Agenda p) {new : List Effect} (hw : Works e e' new)
    (late : ∀ x ∈ scheduledIn p new, ∀ y ∈ poppedIn p e.trace, y.1 ≤ x.1) : e'.Agenda p :=
  h.grow (hw.poppedIn_trace p) (by rw [hw.trace, scheduledIn_append]) (hw.waiting p) late

/-- A record whose events are not before a popped event keeps the agenda. -/
theorem schedule (h : e.Agenda p) {r : Record}
    (late : ∀ x ∈ r.events e.core.config, ∀ y ∈ poppedIn p e.trace, y.1 ≤ x.1) :
    (e.schedule r).Agenda p :=
  h.grow (poppedIn_schedule e r p) (scheduledIn_schedule e r p) (waiting_schedule e r p)
    fun x hx => late x (List.mem_of_mem_filter hx)

end Agenda

/-! ## Ingestion -/

section Ingest

variable {r : Record}

/-- Taking in a record is logged, and then its events are scheduled. -/
theorem trace_schedule (e : Engine T U Q S L R) (r : Record) :
    ∃ rest, (e.schedule r).trace = e.trace ++ .ingested r :: rest ∧
      ∀ x ∈ rest, x = .overflow ∨ ∃ y ∈ r.events e.core.config, x = .scheduled y.1 y.2 := by
  cases r with
  | l3 update =>
    refine ⟨[.scheduled update.tsExchange (.l3Update update)], ?_, ?_⟩
    · simp [schedule]
    · simp [Record.events]
  | tick tick =>
    let truth : Effect := .scheduled tick.tsExchange (.tick tick)
    let delivery : Effect := .scheduled (deliveryTs e.core.config tick)
      (.tickDelivery (delivered e.core.config tick))
    simp only [schedule, scheduleTick]
    rcases noteDelivery_cases ((e.log (.ingested (.tick tick))).pushEvent tick.tsExchange
      (.tick tick)) tick with h | h
    · refine ⟨[truth, delivery], ?_, ?_⟩
      · rw [h]
        simp [truth, delivery]
      · simp [truth, delivery, Record.events]
    · refine ⟨[truth, .overflow, delivery], ?_, ?_⟩
      · rw [h]
        simp [truth, delivery]
      · simp [truth, delivery, Record.events]

/-- Without overflow, a tick is delivered no earlier than it is at the exchange. -/
theorem tsExchange_le_deliveryTs {tick : Tick} (hlatency : 0 ≤ e.core.config.feedLatencyNs)
    (hstamped : (Record.tick tick).IsStamped)
    (hno : Effect.overflow ∉ (e.schedule (.tick tick)).trace) :
    tick.tsExchange ≤ deliveryTs e.core.config tick := by
  unfold deliveryTs
  split_ifs with h0
  · by_cases hin : MachineInt.InRange 64 (tick.tsExchange + e.core.config.feedLatencyNs)
    · rw [addI64, MachineInt.wrap_eq_self (by norm_num) hin]
      exact le_add_of_nonneg_right hlatency
    · have hnote : ∀ e' : Engine T U Q S L R, e'.core = e.core →
          e'.noteDelivery tick = e'.log .overflow := fun e' he => if_pos (he ▸ ⟨h0, hin⟩)
      refine absurd ?_ hno
      simp only [schedule, scheduleTick]
      rw [hnote ((e.log _).pushEvent _ _) rfl]
      simp
  · exact hstamped.resolve_left h0

/-- Every event of a record is dated, and not before the record. -/
theorem events_dated (hlatency : 0 ≤ e.core.config.feedLatencyNs) (hstamped : r.IsStamped)
    (hno : Effect.overflow ∉ (e.schedule r).trace) :
    ∀ x ∈ r.events e.core.config, x.2.IsDated x.1 ∧ r.tsExchange ≤ x.1 := by
  cases r with
  | l3 update =>
    intro x hx
    obtain rfl := List.mem_singleton.1 hx
    exact ⟨trivial, le_rfl⟩
  | tick tick =>
    have hle := tsExchange_le_deliveryTs hlatency hstamped hno
    intro x hx
    rcases List.mem_cons.1 hx with rfl | hx
    · exact ⟨rfl, le_rfl⟩
    · obtain rfl := List.mem_singleton.1 hx
      exact ⟨⟨rfl, hle⟩, hle⟩

end Ingest

/-! ## One turn -/

namespace Timely

/-- What is left of the records is sorted and stamped as they are. -/
theorem suffix (h : e.Timely l3s tks) (hconfig : e'.core.config = e.core.config)
    (hsuffix : ∀ l' ∈ records l3s' tks', ∃ l ∈ records l3s tks, l' <:+ l) :
    e'.Timely l3s' tks' where
  feedLatency := hconfig ▸ h.feedLatency
  sorted l' hl' := by
    obtain ⟨l, hl, hs⟩ := hsuffix l' hl'
    exact (h.sorted l hl).sublist hs.sublist
  stamped l' hl' r hr := by
    obtain ⟨l, hl, hs⟩ := hsuffix l' hl'
    exact h.stamped l hl r (hs.subset hr)

theorem works (h : e.Timely l3s tks) {new : List Effect} (hw : Works e e' new) :
    e'.Timely l3s tks :=
  ⟨hw.feedLatency ▸ h.feedLatency, h.sorted, h.stamped⟩

end Timely

namespace Paced

theorem timely (h : e.Paced l3s tks) : e.Timely l3s tks := ⟨h.feedLatency, h.sorted, h.stamped⟩

theorem suffix (h : e.Paced l3s tks) (hconfig : e'.core.config = e.core.config)
    (hsuffix : ∀ l' ∈ records l3s' tks', ∃ l ∈ records l3s tks, l' <:+ l) : e'.Paced l3s' tks' := by
  obtain ⟨hfeed, hsorted, hstamped⟩ := h.timely.suffix hconfig hsuffix
  exact ⟨hfeed, hconfig ▸ h.updateLatency, hsorted, hstamped⟩

theorem works (h : e.Paced l3s tks) {new : List Effect} (hw : Works e e' new) :
    e'.Paced l3s tks :=
  ⟨hw.feedLatency ▸ h.feedLatency, hw.latency ▸ h.updateLatency, h.sorted, h.stamped⟩

end Paced

namespace Clock

theorem withSources (h : e.Clock l3s tks) (ticks : SourceQueue T)
    (l3 : SourceQueue U) : (e.withSources ticks l3).Clock l3s tks :=
  ⟨⟨h.paced.feedLatency, h.paced.updateLatency, h.paced.sorted, h.paced.stamped⟩, h.agenda,
    h.dated, h.now, h.ahead⟩

/-- A waiting event is worked on when it is due. -/
theorem workTime_of_pop (h : e.Clock l3s tks) {event : Event} {queue : EventQueue}
    (pop : e.queue.pop = some (event, queue)) :
    Core.workTime event.kind event.tsSim = event.tsSim := by
  have hmem : (event.tsSim, event.kind) ∈ e.queue.waiting EventKind.any := by
    rw [EventQueue.waiting_pop pop]
    exact List.mem_cons_self
  exact (h.dated _ ((h.agenda _).scheduled_of_waiting hmem)).workTime

theorem popped_le_tsSim (h : e.Clock l3s tks) {event : Event} {queue : EventQueue}
    (pop : e.queue.pop = some (event, queue)) :
    ∀ x ∈ poppedIn EventKind.any e.trace, x.1 ≤ event.tsSim := by
  intro x hx
  refine (h.agenda EventKind.any).popped_le hx (y := (event.tsSim, event.kind)) ?_
  rw [EventQueue.waiting_pop pop]
  exact List.mem_cons_self

/-- The head of the queue is popped. -/
theorem pop (h : e.Clock l3s tks) {event : Event} {queue : EventQueue}
    (pop : e.queue.pop = some (event, queue))
    (later : ∀ l ∈ records l3s tks, ∀ r ∈ l.head?, event.tsSim < r.tsExchange) :
    ((e.withQueue queue).popped event).Clock l3s tks := by
  have htrace : ((e.withQueue queue).popped event).trace =
    e.trace ++ [.popped event e.core.activeBatchTimerId] := rfl
  have hscheduled : ∀ p, scheduledIn p ((e.withQueue queue).popped event).trace =
      scheduledIn p e.trace := fun p => by simp [htrace, scheduledIn]
  have hpopped : ∀ x ∈ poppedIn EventKind.any ((e.withQueue queue).popped event).trace,
      x.1 ≤ event.tsSim := by
    intro x hx
    rw [htrace, poppedIn_append, poppedIn_singleton] at hx
    rcases List.mem_append.1 hx with hx | hx
    · exact h.popped_le_tsSim pop x hx
    · obtain rfl := List.mem_singleton.1 hx
      exact le_rfl
  refine ⟨⟨h.paced.feedLatency, h.paced.updateLatency, h.paced.sorted, h.paced.stamped⟩,
    fun p => ?_, fun x hx => h.dated x (hscheduled _ ▸ hx), hpopped, fun x hx l hl => ?_⟩
  · exact (h.agenda p).pop pop
  · have hlt := KWayMerge.forall_of_head (p := (event.tsSim < ·))
      (fun _ _ => lt_of_lt_of_le) (h.paced.sorted l hl) (later l hl)
    exact fun r hr => (hpopped x hx).trans (hlt r hr).le

/-- Handlers work at the present time, and leave the past as it is. -/
theorem works (h : e.Clock l3s tks) {new : List Effect} (hw : Works e e' new)
    (htime : TimelyAt e.core.nowTsSim e new) (hno : Effect.overflow ∉ e'.trace) :
    e'.Clock l3s tks := by
  have hnew : Effect.overflow ∉ new := fun hmem =>
    hno (by rw [hw.trace]; exact List.mem_append_right _ hmem)
  have hlate : ∀ p, ∀ x ∈ scheduledIn p new, e.core.nowTsSim ≤ x.1 := by
    intro p x hx
    obtain ⟨ts, kind⟩ := x
    have ht := htime hnew _ (mem_scheduledIn.1 hx).2
    cases kind with
    | orderReport r =>
      obtain rfl : ts = e.core.nowTsSim + e.core.config.orderUpdateLatencyNs := ht
      exact le_add_of_nonneg_right h.paced.updateLatency
    | _ => exact ht
  refine ⟨h.paced.works hw, fun p => ?_, fun x hx => ?_, fun x hx => ?_, fun x hx => ?_⟩
  · refine (h.agenda p).works hw fun x hx y hy => ?_
    exact (h.now y (mem_poppedIn_any hy)).trans (hlate p x hx)
  · rw [hw.trace, scheduledIn_append] at hx
    rcases List.mem_append.1 hx with hx | hx
    · exact h.dated x hx
    · have hwork := hw.isWork _ (mem_scheduledIn.1 hx).2
      exact EventKind.isDated_of_not_isMarket (by simpa [Effect.isWork] using hwork) _
  · rw [hw.poppedIn_trace] at hx
    exact hw.nowTsSim ▸ h.now x hx
  · rw [hw.poppedIn_trace] at hx
    exact h.ahead x hx

/-- A record is taken in. -/
theorem ingest (h : e.Clock l3s tks) {r : Record}
    (hpick : KWayMerge.pick Record.key (records l3s tks) = some (r, records l3s' tks'))
    (hno : Effect.overflow ∉ (e.schedule r).trace) : (e.schedule r).Clock l3s' tks' := by
  obtain ⟨l, hl, hr⟩ := KWayMerge.mem_of_pick hpick
  have hsuffix := KWayMerge.suffix_of_pick hpick
  have hevents := events_dated h.paced.feedLatency (h.paced.stamped l hl r hr) hno
  refine ⟨h.paced.suffix (by rw [core_schedule]) hsuffix, fun p => ?_, fun x hx => ?_,
    fun x hx => ?_, fun x hx l' hl' r' hr' => ?_⟩
  · refine (h.agenda p).schedule fun x hx y hy => ?_
    exact (h.ahead y (mem_poppedIn_any hy) l hl r hr).trans (hevents x hx).2
  · rw [scheduledIn_schedule] at hx
    rcases List.mem_append.1 hx with hx | hx
    · exact h.dated x hx
    · exact (hevents x (List.mem_of_mem_filter hx)).1
  · rw [poppedIn_schedule] at hx
    rw [core_schedule]
    exact h.now x hx
  · rw [poppedIn_schedule] at hx
    obtain ⟨l, hl, hs⟩ := hsuffix l' hl'
    exact h.ahead x hx l hl r' (hs.subset hr')

end Clock

section Turn

variable [Strategy S] [LatencyModel L R]
  {r : Engine T U Q S L R × Status (EngineError (Strategy.Error S))}

theorem Turn.trace (h : Turn e l3s tks r l3s' tks') : ∃ new, r.1.trace = e.trace ++ new := by
  cases h with
  | ingest ticks l3 pick due =>
    obtain ⟨rest, heq, -⟩ := trace_schedule e _
    exact ⟨_, heq⟩
  | @event event queue ticks l3 pop later =>
    obtain ⟨new, hw, -⟩ := dispatch_spec ((e.withSources ticks l3).withQueue queue) event
    exact ⟨.popped event e.core.activeBatchTimerId :: new,
      hw.trace.trans (List.append_assoc _ [_] _)⟩
  | flush ticks l3 pop later buffered =>
    obtain ⟨new, hw, -⟩ := flush_spec (e.withSources ticks l3)
    exact ⟨new, hw.trace⟩
  | finish ticks l3 pop later unbuffered => exact ⟨[], (List.append_nil _).symm⟩

theorem Turn.overflow (h : Turn e l3s tks r l3s' tks') (hno : Effect.overflow ∉ r.1.trace) :
    Effect.overflow ∉ e.trace := by
  obtain ⟨new, heq⟩ := h.trace
  exact fun hmem => hno (heq ▸ List.mem_append_left _ hmem)

theorem Clock.turn (h : e.Clock l3s tks) (hturn : Turn e l3s tks r l3s' tks')
    (hno : Effect.overflow ∉ r.1.trace) : r.1.Clock l3s' tks' := by
  cases hturn with
  | ingest ticks l3 pick due => exact (h.ingest pick hno).withSources ticks l3
  | @event event queue ticks l3 pop later =>
    obtain ⟨new, hw, htime⟩ := dispatch_spec ((e.withSources ticks l3).withQueue queue) event
    exact ((h.withSources ticks l3).pop pop later).works hw (htime (h.workTime_of_pop pop)) hno
  | flush ticks l3 pop later buffered =>
    obtain ⟨new, hw, htime⟩ := flush_spec (e.withSources ticks l3)
    exact (h.withSources ticks l3).works hw htime hno
  | finish ticks l3 pop later unbuffered => exact h.withSources ticks l3

/-- An engine that has not run, with only background events pushed, is on the clock. -/
theorem Built.clock [SeedableRng R] (h : Built (fun _ kind => kind.isBackground = true) e)
    (paced : e.Paced l3s tks) : e.Clock l3s tks := by
  suffices hbuilt : (∀ p, poppedIn p e.trace = []) ∧ (∀ p, e.Agenda p) ∧
      ∀ x ∈ scheduledIn EventKind.any e.trace, x.2.IsDated x.1 from
    ⟨paced, hbuilt.2.1, hbuilt.2.2, by simp [hbuilt.1], by simp [hbuilt.1]⟩
  clear paced
  induction h with
  | new => exact ⟨fun _ => rfl, fun _ => rfl, by simp [Engine.new]⟩
  | @external e _ _ hext ih =>
    obtain ⟨hpopped, hagenda, hdated⟩ := ih
    cases hext with
    | addTickSource source => exact ⟨hpopped, hagenda, hdated⟩
    | addL3Source source => exact ⟨hpopped, hagenda, hdated⟩
    | @pushEvent ts kind hallowed =>
      refine ⟨fun p => by simpa [poppedIn] using hpopped p, fun p => ?_, fun x hx => ?_⟩
      · have hscheduled : scheduledIn p (e.pushEvent ts kind).trace =
            scheduledIn p e.trace ++ scheduledIn p [.scheduled ts kind] := by simp
        refine (hagenda p).grow (by simp [poppedIn]) hscheduled ?_ (by simp [hpopped])
        rw [queue_pushEvent, EventQueue.waiting_push, scheduledIn_singleton]
        split_ifs <;> rfl
      · rw [trace_pushEvent, scheduledIn_append, List.mem_append, scheduledIn_singleton] at hx
        rcases hx with hx | hx
        · exact hdated x hx
        · obtain rfl := List.mem_singleton.1 hx
          exact EventKind.isDated_of_isBackground hallowed ts

/-- The invariant rule for runs on the clock. -/
theorem clocked_invariant {I : Engine T U Q S L R → Status (EngineError (Strategy.Error S)) →
      List (List L3Update) → List (List Tick) → Prop} {e₀ : Engine T U Q S L R}
    {st : Status (EngineError (Strategy.Error S))} (h : Reaches turn closed e₀ e st)
    (feeds : e₀.Feeds l3s tks) (clock : e₀.Clock l3s tks) (start : I e₀ .running l3s tks)
    (step : ∀ e l3s tks r l3s' tks', e.Clock l3s tks → I e .running l3s tks →
      Turn e l3s tks r l3s' tks' → r.1.Clock l3s' tks' → I r.1 r.2 l3s' tks')
    (hno : Effect.overflow ∉ e.trace) :
    ∃ l3s' tks', e.Feeds l3s' tks' ∧ e.Clock l3s' tks' ∧ I e st l3s' tks' := by
  let J (e : Engine T U Q S L R) (st : Status (EngineError (Strategy.Error S)))
      (l3s : List (List L3Update)) (tks : List (List Tick)) : Prop :=
    Effect.overflow ∉ e.trace → e.Clock l3s tks ∧ I e st l3s tks
  have hstep : ∀ e l3s tks r l3s' tks', J e .running l3s tks → Turn e l3s tks r l3s' tks' →
      J r.1 r.2 l3s' tks' := by
    intro e l3s tks r l3s' tks' hJ hturn hno
    obtain ⟨hclock, hI⟩ := hJ (hturn.overflow hno)
    have hclock' := hclock.turn hturn hno
    exact ⟨hclock', step e l3s tks r l3s' tks' hclock hI hturn hclock'⟩
  obtain ⟨l3s', tks', hfeeds, hJ⟩ :=
    fed_invariant (I := J) h feeds (fun _ => ⟨clock, start⟩) hstep
  exact ⟨l3s', tks', hfeeds, hJ hno⟩

end Turn

end Engine

end Backtester
