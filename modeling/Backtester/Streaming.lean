import Backtester.Delivery
import Backtester.Library.LazyQueue

/-!
# Streaming and materialised runs

A streaming engine takes its ticks from sources as they become due. A materialised engine has the
truth and the delivery of every tick in its queue before it runs. The queue of the streaming engine
is a lazily filled version of the other (`LazyQueue.Coupled`), so the two engines handle the same
events in the same order as long as the order in which they number their events does not matter : no
event of the engine's own may wait for the time of a tick, or of its delivery, when that tick is
taken in (`Effect.Untied`). In such a run the materialised engine follows the streaming one event by
event, with the same core (`Engine.Lockstep`).
-/

open Run StableSort History

set_option linter.unusedSectionVars false

namespace Backtester

/-- When a record is taken in, nothing but feed events was scheduled for the times of its events. -/
def Effect.Untied (config : EngineConfig) (pre : List Effect) (x : Effect) : Prop :=
  ∀ r, x = .ingested r → ∀ ts kind, .scheduled ts kind ∈ pre → kind.isFeed = false →
    ∀ y ∈ r.events config, ts ≠ y.1

/-- A record with the events it is scheduled as, none of them before its time. -/
def Record.IsCausal (config : EngineConfig) (r : Record) : Prop :=
  r.tsExchange ≤ i64Max ∧ ∀ x ∈ r.events config, r.tsExchange ≤ x.1

instance (config : EngineConfig) (r : Record) : Decidable (r.IsCausal config) :=
  inferInstanceAs (Decidable (_ ∧ _))

theorem mem_ingestedIn {l : List Effect} {r : Record} : r ∈ ingestedIn l ↔ .ingested r ∈ l := by
  constructor
  · intro h
    obtain ⟨x, hx, heq⟩ := List.mem_filterMap.1 h
    cases x with
    | ingested r' =>
      obtain rfl := Option.some.inj heq
      exact hx
    | _ => cases heq
  · exact fun h => List.mem_filterMap.2 ⟨_, h, rfl⟩

instance (config : EngineConfig) (pre : List Effect) (x : Effect) :
    Decidable (x.Untied config pre) :=
  decidable_of_iff (∀ r ∈ ingestedIn [x], ∀ z ∈ scheduledIn EventKind.any pre, z.2.isFeed = false →
      ∀ y ∈ r.events config, z.1 ≠ y.1) <| by
    constructor
    · rintro h r rfl ts kind hmem
      exact h r (mem_ingestedIn.2 (List.mem_singleton_self _)) (ts, kind)
        (mem_scheduledIn.2 ⟨rfl, hmem⟩)
    · intro h r hr z hz
      exact h r (List.mem_singleton.1 (mem_ingestedIn.1 hr)).symm z.1 z.2 (mem_scheduledIn.1 hz).2

/-- The effects that a strategy, an account or a log can see. -/
def Effect.isOutcome : Effect → Bool
  | scheduled _ _ | ingested _ | popped _ _ | overflow => false
  | _ => true

/-- All events of the records, by time and then by record. -/
def materialized (config : EngineConfig) (all : List Record) : List (ℤ × EventKind) :=
  sortBy Prod.fst (all.flatMap (Record.events config))

theorem Record.isFeed_of_mem_events {config : EngineConfig} {r : Record} {x : ℤ × EventKind}
    (h : x ∈ r.events config) : x.2.isFeed = true := by
  cases r with
  | l3 update =>
    obtain rfl := List.mem_singleton.1 h
    rfl
  | tick t => rcases List.mem_pair.1 h with rfl | rfl <;> rfl

theorem Record.events_congr {config config' : EngineConfig}
    (h : config'.feedLatencyNs = config.feedLatencyNs) (r : Record) :
    r.events config' = r.events config := by
  cases r with
  | l3 update => rfl
  | tick t => simp only [events, Engine.delivered, Engine.deliveryTs, h]

namespace EventQueue

variable {q q' : EventQueue}

/-- The events that wait, whatever their kind, tell what is popped. -/
theorem pop_of_waiting {x : ℤ × EventKind} {l : List (ℤ × EventKind)}
    (h : q.waiting EventKind.any = x :: l) :
    ∃ event q', q.pop = some (event, q') ∧ event.tsSim = x.1 ∧ event.kind = x.2 ∧
      q'.waiting EventKind.any = l := by
  cases hpop : q.pop with
  | none =>
    have hnil : q.waiting EventKind.any = [] := by simp [waiting, pop_eq_none.1 hpop]
    rw [hnil] at h
    cases h
  | some p =>
    obtain ⟨event, q'⟩ := p
    have hw := waiting_pop hpop EventKind.any
    rw [h] at hw
    obtain ⟨rfl, rfl⟩ := List.cons.inj hw
    exact ⟨event, q', rfl, rfl, rfl, rfl⟩

theorem waiting_eq_nil : q.waiting EventKind.any = [] ↔ q.pop = none := by
  rw [pop_eq_none]
  simp [waiting, EventKind.any]

theorem head_waiting (q : EventQueue) :
    (q.waiting EventKind.any).head?.map Prod.fst = q.peek.map Event.tsSim := by
  have hall : (q.heap.items.filter fun event => EventKind.any event.kind) = q.heap.items :=
    List.filter_eq_self.2 fun _ _ => rfl
  rw [waiting, hall, List.head?_map, Option.map_map]
  rfl

end EventQueue

namespace Engine

variable {T U Q S L R : Type} [QueueModel Q]

/-- Push events one by one. -/
def pushEvents (e : Engine T U Q S L R) (events : List (ℤ × EventKind)) : Engine T U Q S L R :=
  events.foldl (fun e x => e.pushEvent x.1 x.2) e

theorem pushEvents_spec (events : List (ℤ × EventKind)) (e : Engine T U Q S L R) :
    (e.pushEvents events).core = e.core ∧ (e.pushEvents events).ticks = e.ticks ∧
      (e.pushEvents events).l3 = e.l3 ∧
      (e.pushEvents events).queue.waiting EventKind.any =
        insertAll Prod.fst events (e.queue.waiting EventKind.any) ∧
      (e.pushEvents events).trace.filter Effect.isOutcome = e.trace.filter Effect.isOutcome := by
  induction events generalizing e with
  | nil => exact ⟨rfl, rfl, rfl, rfl, rfl⟩
  | cons x events ih =>
    obtain ⟨hcore, hticks, hl3, hwaiting, htrace⟩ := ih (e.pushEvent x.1 x.2)
    refine ⟨hcore, hticks, hl3, ?_, ?_⟩
    · have hpush := e.queue.waiting_push EventKind.any x.1 x.2
      have hany : EventKind.any x.2 = true := rfl
      rw [if_pos hany] at hpush
      change ((e.pushEvent x.1 x.2).pushEvents events).queue.waiting EventKind.any = _
      rw [hwaiting, queue_pushEvent, hpush]
      rfl
    · change ((e.pushEvent x.1 x.2).pushEvents events).trace.filter _ = _
      rw [htrace, trace_pushEvent, List.filter_append]
      exact List.append_nil _

/-- `e'` is the streaming engine `e` with the events of `rest` in its queue. -/
structure Lockstep (config : EngineConfig) (rest : List Record) (e e' : Engine T U Q S L R) :
    Prop where
  core : e'.core = e.core
  queue : LazyQueue.Coupled Prod.fst (fun x : ℤ × EventKind => x.2.isFeed)
    (rest.flatMap (Record.events config)) (e.queue.waiting EventKind.any)
    (e'.queue.waiting EventKind.any)
  outcome : e'.trace.filter Effect.isOutcome = e.trace.filter Effect.isOutcome

namespace Lockstep

variable {config : EngineConfig} {rest : List Record} {e e' : Engine T U Q S L R}

/-- The sources do not matter. -/
theorem congr (h : Lockstep config rest e e') {e₁ e₁' : Engine T U Q S L R}
    (hcore : e₁.core = e.core)
    (hqueue : e₁.queue = e.queue) (htrace : e₁.trace = e.trace) (hcore' : e₁'.core = e'.core)
    (hqueue' : e₁'.queue = e'.queue) (htrace' : e₁'.trace = e'.trace) :
    Lockstep config rest e₁ e₁' := by
  refine ⟨by rw [hcore, hcore', h.core], ?_, by rw [htrace, htrace', h.outcome]⟩
  rw [hqueue, hqueue']
  exact h.queue

/-- The work of a handler is done on both sides. -/
theorem absorb (h : Lockstep config rest e e') {core : Core Q S L R}
    (hwork : ∀ x ∈ core.effects, x.isWork = true) :
    Lockstep config rest (e.absorb core) (e'.absorb core) := by
  refine ⟨?_, ?_, ?_⟩
  · rw [core_absorb, core_absorb]
  · rw [waiting_absorb, waiting_absorb]
    refine h.queue.pushAll fun x hx => ?_
    have hx' := hwork _ (mem_scheduledIn.1 hx).2
    have hmarket : x.2.isMarket = false := by simpa [Effect.isWork] using hx'
    by_contra hfeed
    have := EventKind.isMarket_of_isFeed (eq_true_of_ne_false hfeed)
    rw [hmarket] at this
    cases this
  · rw [trace_absorb, trace_absorb, List.filter_append, List.filter_append, h.outcome]

theorem log (h : Lockstep config rest e e') {x x' : Effect} (hx : x.isOutcome = false)
    (hx' : x'.isOutcome = false) : Lockstep config rest (e.log x) (e'.log x') := by
  refine ⟨h.core, h.queue, ?_⟩
  rw [trace_log, trace_log, List.filter_append, List.filter_append, h.outcome]
  simp [hx, hx']

variable [Strategy S]

theorem flush (h : Lockstep config rest e e') :
    e'.flush.2 = e.flush.2 ∧ Lockstep config rest e.flush.1 e'.flush.1 := by
  have hgrows := Core.grows_flushStrategy (t := e.core.nowTsSim) e.core.cleared
  obtain ⟨new, heffects, hwork, -⟩ := hgrows.effects
  have hwork' : ∀ x ∈ (e.core.cleared.flushStrategy e.core.nowTsSim).1.effects,
      x.isWork = true := by
    rw [heffects]
    exact hwork
  unfold Engine.flush
  rw [h.core]
  exact ⟨rfl, h.absorb hwork'⟩

theorem setPendingWakeup (h : Lockstep config rest e e') (b : Bool) :
    Lockstep config rest (e.setPendingWakeup b) (e'.setPendingWakeup b) :=
  ⟨by simp only [Engine.setPendingWakeup, h.core], h.queue, h.outcome⟩

/-- Both engines see the end of a timestamp when the rest comes later. -/
theorem deferredFlush (h : Lockstep config rest e e') (wakeup : Bool)
    (later : ∀ x ∈ rest.flatMap (Record.events config), e.core.nowTsSim < x.1) :
    (e'.deferredFlush wakeup).2 = (e.deferredFlush wakeup).2 ∧
      Lockstep config rest (e.deferredFlush wakeup).1 (e'.deferredFlush wakeup).1 := by
  have hpeek : e'.queue.peek.map Event.tsSim = some e.core.nowTsSim ↔
      e.queue.peek.map Event.tsSim = some e.core.nowTsSim := by
    rw [← EventQueue.head_waiting, ← EventQueue.head_waiting]
    exact (h.queue.head_key_iff later).symm
  obtain ⟨herr, hflush⟩ := h.flush
  unfold Engine.deferredFlush
  rw [h.core]
  simp only [ne_eq, hpeek]
  split_ifs
  · exact ⟨rfl, h.setPendingWakeup true⟩
  · generalize e.flush = r at herr hflush ⊢
    generalize e'.flush = r' at herr hflush ⊢
    obtain ⟨e₁, err⟩ := r
    obtain ⟨e₁', err'⟩ := r'
    obtain rfl : err' = err := herr
    cases err' with
    | some err => exact ⟨rfl, hflush⟩
    | none => exact ⟨rfl, hflush.setPendingWakeup false⟩
  · exact ⟨rfl, h⟩

variable [LatencyModel L R]

theorem handleEvent (h : Lockstep config rest e e') {event event' : Event}
    (hts : event'.tsSim = event.tsSim) (hkind : event'.kind = event.kind) :
    (e'.handleEvent event').2 = (e.handleEvent event).2 ∧
      Lockstep config rest (e.handleEvent event).1 (e'.handleEvent event').1 := by
  have hgrows := Core.grows_handle (e.core.cleared.atTime event.tsSim) event.kind
  obtain ⟨new, heffects, hwork, -⟩ := hgrows.effects
  have hwork' : ∀ x ∈ ((e.core.cleared.atTime event.tsSim).handle event.kind).1.effects,
      x.isWork = true := by
    rw [heffects]
    exact hwork
  unfold Engine.handleEvent
  rw [h.core, hts, hkind]
  exact ⟨rfl, (h.log rfl rfl).absorb hwork'⟩

theorem dispatch (h : Lockstep config rest e e') {event event' : Event}
    (hts : event'.tsSim = event.tsSim) (hkind : event'.kind = event.kind)
    (later : ∀ x ∈ rest.flatMap (Record.events config), event.tsSim < x.1) :
    (e'.dispatch event').2 = (e.dispatch event).2 ∧
      Lockstep config rest (e.dispatch event).1 (e'.dispatch event').1 := by
  obtain ⟨hflow, hevent⟩ := h.handleEvent hts hkind
  obtain ⟨new, hw, -⟩ := handleEvent_spec e event
  have hnow : (e.handleEvent event).1.core.nowTsSim = event.tsSim := hw.nowTsSim
  unfold Engine.dispatch
  generalize e.handleEvent event = r at hflow hevent hnow ⊢
  generalize e'.handleEvent event' = r' at hflow hevent ⊢
  obtain ⟨e₁, flow⟩ := r
  obtain ⟨e₁', flow'⟩ := r'
  obtain rfl : flow' = flow := hflow
  cases flow' with
  | fail err => exact ⟨rfl, hevent⟩
  | ret => exact ⟨rfl, hevent⟩
  | next wakeup =>
    have hnow' : e₁.core.nowTsSim = event.tsSim := hnow
    exact hevent.deferredFlush wakeup fun x hx => hnow'.symm ▸ later x hx

variable [TickSource T] [L3Source U]

/-- A record is taken in that the materialised engine has in its queue already. -/
theorem schedule {r : Record} (h : Lockstep config (r :: rest) e e')
    (hconfig : e.core.config.feedLatencyNs = config.feedLatencyNs)
    (hwaiting : e.queue.waiting EventKind.any ⊆ scheduledIn EventKind.any e.trace)
    (untied : Effect.Untied config e.trace (.ingested r)) :
    Lockstep config rest (e.schedule r) e' := by
  have hevents : (r.events e.core.config).filter (fun x => EventKind.any x.2) =
      r.events config := by
    rw [Record.events_congr hconfig]
    exact List.filter_eq_self.2 fun _ _ => rfl
  have hfree : ∀ x ∈ e.queue.waiting EventKind.any, x.2.isFeed = false →
      ∀ y ∈ r.events config, x.1 ≠ y.1 := fun x hx hfeed y hy =>
    untied r rfl x.1 x.2 (mem_scheduledIn.1 (hwaiting hx)).2 hfeed y hy
  refine ⟨h.core.trans (core_schedule e r).symm, ?_, ?_⟩
  · rw [waiting_schedule, hevents]
    exact h.queue.takeAll (fun y => Record.isFeed_of_mem_events) hfree
  · obtain ⟨new, htrace, hnew⟩ := trace_schedule e r
    have hnone : (Effect.ingested r :: new).filter Effect.isOutcome = [] := by
      refine List.filter_eq_nil_iff.2 fun x hx => ?_
      rcases List.mem_cons.1 hx with rfl | hx
      · simp [Effect.isOutcome]
      · rcases hnew x hx with rfl | ⟨y, -, rfl⟩ <;> simp [Effect.isOutcome]
    rw [htrace, List.filter_append, hnone, List.append_nil, h.outcome]

end Lockstep

/-! ## Runs -/

section Runs

variable [TickSource T] [L3Source U] [Strategy S] [LatencyModel L R] {config : EngineConfig}
  {rest : List Record} {e e' e₀' : Engine T U Q S L R}

/-- A turn of an engine without sources. -/
theorem turn_of_unfed (h : e.Feeds [] []) :
    (∃ event queue ticks l3, e.queue.pop = some (event, queue) ∧ e.turn =
        ((((e.withSources ticks l3).withQueue queue).dispatch event).1,
          statusOf (((e.withSources ticks l3).withQueue queue).dispatch event).2)) ∨
      (∃ ticks l3, e.queue.pop = none ∧ e.Buffered ∧
        e.turn = ((e.withSources ticks l3).flush.1, statusOf (e.withSources ticks l3).flush.2)) ∨
      ∃ ticks l3, e.queue.pop = none ∧ ¬e.Buffered ∧
        e.turn = (e.withSources ticks l3, .finished) := by
  obtain ⟨l3s', tks', hturn, -⟩ := turn_spec h
  generalize e.turn = r at hturn ⊢
  cases hturn with
  | ingest ticks l3 pick due => cases pick
  | event ticks l3 pop later => exact .inl ⟨_, _, ticks, l3, pop, rfl⟩
  | flush ticks l3 pop later buffered => exact .inr (.inl ⟨ticks, l3, pop, buffered, rfl⟩)
  | finish ticks l3 pop later unbuffered => exact .inr (.inr ⟨ticks, l3, pop, unbuffered, rfl⟩)

theorem feeds_turn_unfed (h : e.Feeds [] []) : e.turn.1.Feeds [] [] := by
  obtain ⟨l3s', tks', hturn, hfeeds⟩ := turn_spec h
  generalize e.turn = r at hturn hfeeds ⊢
  cases hturn with
  | ingest ticks l3 pick due => cases pick
  | _ => exact hfeeds

/-- The materialised engine pops what the streaming one pops. -/
theorem Lockstep.event (h : Lockstep config rest e e') (hfeeds : e'.Feeds [] []) {event : Event}
    {queue : EventQueue} (pop : e.queue.pop = some (event, queue)) (ticks : SourceQueue T)
    (l3 : SourceQueue U) (later : ∀ x ∈ rest.flatMap (Record.events config), event.tsSim < x.1) :
    e'.turn.2 = statusOf (((e.withSources ticks l3).withQueue queue).dispatch event).2 ∧
      Lockstep config rest (((e.withSources ticks l3).withQueue queue).dispatch event).1
        e'.turn.1 := by
  have hwaiting : e.queue.waiting EventKind.any = (event.tsSim, event.kind) ::
      queue.waiting EventKind.any :=
    EventQueue.waiting_pop pop EventKind.any
  have hqueue := h.queue
  rw [hwaiting] at hqueue
  obtain ⟨lazy, heager, hcoupled⟩ := hqueue.head later
  obtain ⟨event', queue', pop', hts, hkind, hlazy⟩ := EventQueue.pop_of_waiting heager
  rcases turn_of_unfed hfeeds with ⟨event'', queue'', ticks', l3', pop'', hturn⟩ |
    ⟨-, -, hnone, -⟩ |
    ⟨-, -, hnone, -⟩
  · obtain ⟨rfl, rfl⟩ := Prod.mk.inj (Option.some.inj (pop''.symm.trans pop'))
    have hstart : Lockstep config rest ((e.withSources ticks l3).withQueue queue)
        ((e'.withSources ticks' l3').withQueue queue'') :=
      ⟨h.core, hlazy.symm ▸ hcoupled, h.outcome⟩
    obtain ⟨herr, hdispatch⟩ := hstart.dispatch hts hkind later
    rw [hturn]
    exact ⟨congrArg statusOf herr, hdispatch⟩
  · rw [pop'] at hnone
    cases hnone
  · rw [pop'] at hnone
    cases hnone

/-- With nothing left, both engines flush or finish. -/
theorem Lockstep.idle (h : Lockstep config [] e e') (hfeeds : e'.Feeds [] [])
    (pop : e.queue.pop = none) (ticks : SourceQueue T) (l3 : SourceQueue U) :
    (e.Buffered → e'.turn.2 = statusOf (e.withSources ticks l3).flush.2 ∧
      Lockstep config [] (e.withSources ticks l3).flush.1 e'.turn.1) ∧
    (¬e.Buffered → e'.turn.2 = .finished ∧
      Lockstep config [] (e.withSources ticks l3) e'.turn.1) := by
  have hqueue := h.queue
  rw [EventQueue.waiting_eq_nil.2 pop, List.flatMap_nil] at hqueue
  have pop' : e'.queue.pop = none := EventQueue.waiting_eq_nil.1 hqueue.eq_nil
  have hbuffered : e'.Buffered ↔ e.Buffered := by rw [Buffered, Buffered, h.core]
  have hstart :
      ∀ ticks' l3', Lockstep config [] (e.withSources ticks l3) (e'.withSources ticks' l3') :=
    fun _ _ => h.congr rfl rfl rfl rfl rfl rfl
  rcases turn_of_unfed hfeeds with ⟨_, _, _, _, hsome, -⟩ | ⟨ticks', l3', -, hb, hturn⟩ |
    ⟨ticks', l3', -, hb, hturn⟩
  · rw [pop'] at hsome
    cases hsome
  · obtain ⟨herr, hflush⟩ := (hstart ticks' l3').flush
    rw [hturn]
    exact ⟨fun _ => ⟨congrArg statusOf herr, hflush⟩, fun hno => absurd (hbuffered.1 hb) hno⟩
  · rw [hturn]
    exact ⟨fun hyes => absurd (hbuffered.2 hyes) hb, fun _ => ⟨rfl, hstart ticks' l3'⟩⟩

/-- The streaming engine in a state of its run, with a materialised engine that follows it. -/
structure Shadowed (config : EngineConfig) (e₀' e : Engine T U Q S L R)
    (st : Status (EngineError (Strategy.Error S))) (l3s : List (List L3Update))
    (tks : List (List Tick)) :
    Prop where
  latency : e.core.config.feedLatencyNs = config.feedLatencyNs
  sorted : ∀ l ∈ records l3s tks, SortedBy Record.tsExchange l
  causal : ∀ l ∈ records l3s tks, ∀ r ∈ l, r.IsCausal config
  waiting : e.queue.waiting EventKind.any ⊆ scheduledIn EventKind.any e.trace
  follows : Always (Effect.Untied config) e.trace → ∃ e', Reaches turn closed e₀' e' st ∧
    e'.Feeds [] [] ∧ Lockstep config (KWayMerge.merge Record.key (records l3s tks)) e e'

namespace Shadowed

variable {st : Status (EngineError (Strategy.Error S))} {l3s l3s' : List (List L3Update)}
  {tks tks' : List (List Tick)} {r : Engine T U Q S L R × Status (EngineError (Strategy.Error S))}

/-- What a handler's work leaves of the invariant. -/
theorem waiting_works {new : List Effect} (hw : Works e e' new)
    (h : e.queue.waiting EventKind.any ⊆ scheduledIn EventKind.any e.trace) :
    e'.queue.waiting EventKind.any ⊆ scheduledIn EventKind.any e'.trace := by
  rw [hw.waiting, hw.trace, scheduledIn_append]
  intro x hx
  rw [(insertAll_perm _ _).mem_iff] at hx
  rcases List.mem_append.1 hx with hx | hx
  · exact List.mem_append_left _ (h hx)
  · exact List.mem_append_right _ hx

theorem later_of_head (h : Shadowed config e₀' e st l3s tks) {t : ℤ}
    (later : ∀ l ∈ records l3s tks, ∀ r ∈ l.head?, t < r.tsExchange) :
    ∀ x ∈ (KWayMerge.merge Record.key (records l3s tks)).flatMap (Record.events config),
    t < x.1 := by
  intro x hx
  obtain ⟨r, hr, hxr⟩ := List.mem_flatMap.1 hx
  rw [(KWayMerge.merge_perm _ _).mem_iff] at hr
  obtain ⟨l, hl, hrl⟩ := List.mem_flatten.1 hr
  have hlt : t < r.tsExchange := KWayMerge.forall_of_head (p := (t < ·)) (fun _ _ => lt_of_lt_of_le)
    (h.sorted l hl) (later l hl) r hrl
  exact hlt.trans_le ((h.causal l hl r hrl).2 x hxr)

/-- Nothing is left once everything left is later than any time. -/
theorem merge_eq_nil (h : Shadowed config e₀' e st l3s tks)
    (later : ∀ l ∈ records l3s tks, ∀ r ∈ l.head?, i64Max < r.tsExchange) :
    KWayMerge.merge Record.key (records l3s tks) = [] := by
  refine KWayMerge.merge_nil (List.flatten_eq_nil_iff.2 fun l hl => ?_)
  cases l with
  | nil => rfl
  | cons r l => exact absurd (later _ hl r rfl) (not_lt.2 (h.causal _ hl r List.mem_cons_self).1)

/-- The materialised engine follows every turn of the streaming one that handles an event, and waits
while a record is taken in. -/
theorem turn (h : Shadowed config e₀' e .running l3s tks) (hturn : Turn e l3s tks r l3s' tks') :
    Shadowed config e₀' r.1 r.2 l3s' tks' := by
  have hearlier : ∀ {f : Engine T U Q S L R} {new : List Effect}, f.trace = e.trace ++ new →
      Always (Effect.Untied config) f.trace → Always (Effect.Untied config) e.trace :=
    fun htrace huntied => fun pre x post hsplit =>
      huntied pre x (post ++ _) (by rw [htrace, hsplit, List.append_assoc]; rfl)
  cases hturn with
  | @ingest r _ _ ticks l3 pick due =>
    have hsorted := KWayMerge.sorted_of_pick pick h.sorted
    have hcausal : ∀ l ∈ records l3s' tks', ∀ r ∈ l, r.IsCausal config := fun l hl r hr => by
      obtain ⟨l', hl', hsuffix⟩ := KWayMerge.suffix_of_pick pick l hl
      exact h.causal l' hl' r (hsuffix.subset hr)
    refine ⟨by simpa [withSources] using h.latency, hsorted, hcausal, ?_, fun huntied => ?_⟩
    · change (e.schedule r).queue.waiting _ ⊆ scheduledIn _ (e.schedule r).trace
      rw [waiting_schedule, scheduledIn_schedule]
      intro x hx
      rw [(insertAll_perm _ _).mem_iff] at hx
      rcases List.mem_append.1 hx with hx | hx
      · exact List.mem_append_left _ (h.waiting hx)
      · exact List.mem_append_right _ hx
    · obtain ⟨new, htrace, -⟩ := trace_schedule e r
      have hold := hearlier (f := (e.schedule r).withSources ticks l3) htrace huntied
      obtain ⟨e', hreaches, hfeeds, hlockstep⟩ := h.follows hold
      rw [KWayMerge.merge_cons pick] at hlockstep
      have hnext := hlockstep.schedule h.latency h.waiting (huntied e.trace _ new htrace)
      exact ⟨e', hreaches, hfeeds, hnext.congr rfl rfl rfl rfl rfl rfl⟩
  | @event event queue ticks l3 pop later =>
    obtain ⟨new, hw, -⟩ := dispatch_spec ((e.withSources ticks l3).withQueue queue) event
    have htrace : (((e.withSources ticks l3).withQueue queue).dispatch event).1.trace =
        e.trace ++ (.popped event e.core.activeBatchTimerId :: new) :=
      hw.trace.trans (List.append_assoc _ [_] _)
    refine ⟨hw.feedLatency.trans h.latency, h.sorted, h.causal, waiting_works hw ?_,
      fun huntied => ?_⟩
    · have hpop := EventQueue.waiting_pop pop EventKind.any
      have hpopped :
        scheduledIn EventKind.any (((e.withSources ticks l3).withQueue queue).popped event).trace =
          scheduledIn EventKind.any e.trace := (scheduledIn_append _ _ _).trans (List.append_nil _)
      rw [hpopped]
      refine List.Subset.trans ?_ h.waiting
      rw [hpop]
      exact List.subset_append_right _ _
    · obtain ⟨e', hreaches, hfeeds, hlockstep⟩ := h.follows (hearlier htrace huntied)
      obtain ⟨hstatus, hnext⟩ := hlockstep.event hfeeds pop ticks l3 (h.later_of_head later)
      exact ⟨e'.turn.1, hstatus ▸ hreaches.turn, feeds_turn_unfed hfeeds, hnext⟩
  | flush ticks l3 pop later buffered =>
    obtain ⟨new, hw, -⟩ := flush_spec (e.withSources ticks l3)
    refine ⟨hw.feedLatency.trans h.latency, h.sorted, h.causal, waiting_works hw h.waiting,
      fun huntied => ?_⟩
    obtain ⟨e', hreaches, hfeeds, hlockstep⟩ := h.follows (hearlier hw.trace huntied)
    rw [h.merge_eq_nil later] at hlockstep ⊢
    obtain ⟨hstatus, hnext⟩ := (hlockstep.idle hfeeds pop ticks l3).1 buffered
    exact ⟨e'.turn.1, hstatus ▸ hreaches.turn, feeds_turn_unfed hfeeds, hnext⟩
  | finish ticks l3 pop later unbuffered =>
    refine ⟨h.latency, h.sorted, h.causal, h.waiting, fun huntied => ?_⟩
    obtain ⟨e', hreaches, hfeeds, hlockstep⟩ := h.follows huntied
    rw [h.merge_eq_nil later] at hlockstep ⊢
    obtain ⟨hstatus, hnext⟩ := (hlockstep.idle hfeeds pop ticks l3).2 unbuffered
    exact ⟨e'.turn.1, hstatus ▸ hreaches.turn, feeds_turn_unfed hfeeds, hnext⟩

end Shadowed

variable [SeedableRng R]

theorem feeds_addTickSources {sources : List T} {tks : List (List Tick)}
    {l3s : List (List L3Update)}
    (yields : List.Forall₂ Yields sources tks) {tks₀ : List (List Tick)} (h : e.Feeds l3s tks₀) :
    (sources.foldl addTickSource e).Feeds l3s (tks₀ ++ tks) := by
  induction yields generalizing e tks₀ with
  | nil => simpa using h
  | cons hyields _ ih =>
    have hnext := ih (h.addTickSource hyields)
    rwa [List.append_assoc] at hnext

theorem addTickSources_frame (sources : List T) (e : Engine T U Q S L R) :
    (sources.foldl addTickSource e).core = e.core ∧
    (sources.foldl addTickSource e).queue = e.queue ∧
      (sources.foldl addTickSource e).trace = e.trace := by
  induction sources generalizing e with
  | nil => exact ⟨rfl, rfl, rfl⟩
  | cons source sources ih => exact ih (e.addTickSource source)

/-- A materialised engine follows every untied run of the streaming one. -/
theorem lockstep_of_run (queueModel : Q) (strategy : S) (config : EngineConfig)
    (latencyModel : L) (currentBatchNs : ℕ → ℤ) {sources : List T} {tks : List (List Tick)}
    (yields : List.Forall₂ Yields sources tks) (sorted : ∀ l ∈ tks, SortedBy Tick.tsExchange l)
    (causal : ∀ l ∈ tks, ∀ tick ∈ l, (Record.tick tick).IsCausal config)
    {st : Status (EngineError (Strategy.Error S))}
    (run : Reaches turn closed
      (sources.foldl addTickSource (.new queueModel strategy config latencyModel currentBatchNs)) e
        st)
    (untied : Always (Effect.Untied config) e.trace) :
    ∃ (e' : Engine T U Q S L R) (rest : List Record), Reaches turn closed
        ((new queueModel strategy config latencyModel currentBatchNs).pushEvents
          (materialized config (KWayMerge.merge Record.key (records [] tks)))) e' st ∧
      Lockstep config rest e e' := by
  let e₁ : Engine T U Q S L R := .new queueModel strategy config latencyModel currentBatchNs
  let all := KWayMerge.merge Record.key (records [] tks)
  have feeds : (sources.foldl addTickSource e₁).Feeds [] tks :=
    feeds_addTickSources yields (feeds_new _ _ _ _ _)
  obtain ⟨hcore, hqueue, htrace⟩ := addTickSources_frame sources e₁
  obtain ⟨hcore', hticks', hl3', hwaiting', htrace'⟩ := pushEvents_spec (materialized config all) e₁
  have hlists : ∀ l ∈ records [] tks, ∃ l' ∈ tks, l = l'.map .tick := fun l hl => by
    obtain ⟨l', hl', rfl⟩ := List.mem_map.1 hl
    exact ⟨l', hl', rfl⟩
  have start :
    Shadowed config (e₁.pushEvents (materialized config all)) (sources.foldl addTickSource e₁)
      .running [] tks := by
    refine ⟨?_, fun l hl => ?_, fun l hl r hr => ?_, ?_, fun _ => ⟨_, .start, ?_, ?_, ?_, ?_⟩⟩
    · rw [hcore]
      rfl
    · obtain ⟨l', hl', rfl⟩ := hlists l hl
      exact List.pairwise_map.2 (sorted l' hl')
    · obtain ⟨l', hl', rfl⟩ := hlists l hl
      obtain ⟨tick, htick, rfl⟩ := List.mem_map.1 hr
      exact causal l' hl' tick htick
    · rw [hqueue]
      exact List.nil_subset _
    · have hnew : e₁.Feeds [] [] := feeds_new _ _ _ _ _
      exact ⟨hl3' ▸ hnew.l3, hticks' ▸ hnew.ticks⟩
    · rw [hcore, hcore']
    · rw [hqueue, hwaiting']
      have hfeed : ∀ x ∈ all.flatMap (Record.events config), x.2.isFeed = true := fun x hx => by
        obtain ⟨r, -, hxr⟩ := List.mem_flatMap.1 hx
        exact Record.isFeed_of_mem_events hxr
      have hsort : insertAll Prod.fst (materialized config all) [] = materialized config all := by
        have hsorted : SortedBy Prod.fst (materialized config all) := sortedBy_sortBy _
        have hall : sortBy Prod.fst ([] ++ materialized config all) =
            insertAll Prod.fst (materialized config all) (sortBy Prod.fst []) := sortBy_append [] _
        exact hall.symm.trans (sortBy_eq_self hsorted)
      change LazyQueue.Coupled _ _ _ _ (insertAll Prod.fst (materialized config all) [])
      rw [hsort]
      exact .start hfeed
    · rw [htrace, htrace']
  obtain ⟨l3s', tks', -, hfinal⟩ := fed_invariant (I := Shadowed config _) run feeds start
    fun _ _ _ _ _ _ h hturn => h.turn hturn
  obtain ⟨e', hreaches, -, hlockstep⟩ := hfinal.follows untied
  exact ⟨e', _, hreaches, hlockstep⟩

/-- The events of an engine that is fed by sources, given to an engine without sources before it
runs, lead to a run with the same outcomes, as long as no tick is taken in while another event waits
for its time. -/
theorem streaming_refines_materialized (queueModel : Q) (strategy : S) (config : EngineConfig)
    (latencyModel : L) (currentBatchNs : ℕ → ℤ) {sources : List T} {tks : List (List Tick)}
    (yields : List.Forall₂ Yields sources tks) (sorted : ∀ l ∈ tks, SortedBy Tick.tsExchange l)
    (causal : ∀ l ∈ tks, ∀ tick ∈ l, (Record.tick tick).IsCausal config)
    {st : Status (EngineError (Strategy.Error S))}
    (run : Reaches turn closed
      (sources.foldl addTickSource (.new queueModel strategy config latencyModel currentBatchNs)) e
        st)
    (untied : Always (Effect.Untied config) e.trace) :
    ∃ e' : Engine T U Q S L R, Reaches turn closed
        ((new queueModel strategy config latencyModel currentBatchNs).pushEvents
          (materialized config (KWayMerge.merge Record.key (records [] tks)))) e' st ∧
      e'.core = e.core ∧ e'.trace.filter Effect.isOutcome = e.trace.filter Effect.isOutcome := by
  obtain ⟨e', rest, hreaches, hlockstep⟩ := lockstep_of_run queueModel strategy config latencyModel
    currentBatchNs yields sorted causal run untied
  exact ⟨e', hreaches, hlockstep.core, hlockstep.outcome⟩

end Runs

/-- The order that is sent at the first tick is acknowledged before the second tick, and filled by
it. -/
theorem streaming_refines_materialized_sample :
    let order : Order := ⟨0, 0, 0, 0, 100, 1, 1, .buy, .limit⟩
    let ticks : List Tick := [⟨1000, 0, 0, 100, 1, 1, .buy, 0⟩, ⟨2000, 0, 1, 100, 1, 1, .sell, 0⟩]
    let e₀ := sample {} 10 [[.submitOrder order]] [ticks]
    let e := (runFor turn 20 e₀).1
    e.core.account.positionQty 1 = 1 ∧
      ∃ e' : Sample, Reaches turn closed ((sample {} 10 [[.submitOrder order]] []).pushEvents
          (materialized {} (KWayMerge.merge Record.key (records [] [ticks])))) e' .finished ∧
        e'.core = e.core ∧ e'.trace.filter Effect.isOutcome = e.trace.filter Effect.isOutcome := by
  intro order ticks e₀ e
  have run : Reaches turn closed e₀ e .finished := reaches_of_runFor 20 (by decide +kernel)
  have untied : Always (Effect.Untied {}) e.trace := by decide +kernel
  have refines := streaming_refines_materialized (U := VecL3Source) (R := Unit)
    (⟨⟩ : ConservativeQueue)
    (⟨[[.submitOrder order]]⟩ : Scripted) {} (⟨10⟩ : ConstantLatency) (fun _ => 0)
    (.cons (yields_list ticks) .nil) (by decide) (by decide) run untied
  exact ⟨by decide +kernel, refines⟩

end Engine

end Backtester
