import Backtester.Engine

/-!
# Runs of the engine

An engine is built by `new`, `add_tick_source`, `add_l3_source` and `push_event`
(`Engine.Built`), and a caller may use the last three between turns as well
(`Engine.External`). `turn_preserves` is the rule for invariants : a turn changes the
sources, logs, pushes a feed event, dispatches the popped event or flushes.

`scheduledIn p` and `poppedIn p` list the events of kind `p` in a trace. What the queue
holds is the stable sort of what was scheduled, less what was popped (`Sorted`), as long as
nothing is scheduled in the past of what was popped.
-/

open Run StableSort

namespace Backtester

/-! ## Kinds of events -/

namespace EventKind

/-- The events that come from sources. -/
def isFeed : EventKind → Bool
  | tick _ | tickDelivery _ | l3Update _ => true
  | _ => false

/-- The events a caller may push : market data and funding. -/
def isMarket : EventKind → Bool
  | tick _ | tickDelivery _ | l2Update _ | l3Update _ | funding _ => true
  | _ => false

/-- The events of orders and their reports. -/
def isOrderEvent : EventKind → Bool
  | order _ | orderAck _ | orderCancel _ | orderCancelAck _ | orderReport _ => true
  | _ => false

/-- What the feed schedules is of the market. -/
theorem isMarket_of_isFeed {kind : EventKind} (h : kind.isFeed = true) : kind.isMarket = true := by
  cases kind <;> simp_all [isFeed, isMarket]

/-- What the feed schedules is about no order. -/
theorem isOrderEvent_of_isFeed {kind : EventKind} (h : kind.isFeed = true) :
    kind.isOrderEvent = false := by
  cases kind <;> simp_all [isFeed, isOrderEvent]

end EventKind

/-! ## What a trace schedules and pops -/

/-- The events of kind `p` that are scheduled, in order. -/
def scheduledIn (p : EventKind → Bool) (l : List Effect) : List (ℤ × EventKind) :=
  l.filterMap fun
    | .scheduled ts kind => if p kind then some (ts, kind) else none
    | _ => none

/-- The events of kind `p` that are popped, in order. -/
def poppedIn (p : EventKind → Bool) (l : List Effect) : List (ℤ × EventKind) :=
  l.filterMap fun
    | .popped event _ => if p event.kind then some (event.tsSim, event.kind) else none
    | _ => none

section Trace

variable (p : EventKind → Bool) (l l' : List Effect)

@[simp] theorem scheduledIn_nil : scheduledIn p [] = [] := rfl

@[simp] theorem poppedIn_nil : poppedIn p [] = [] := rfl

/-- What the parts schedule is what the whole schedules. -/
@[simp] theorem scheduledIn_append :
    scheduledIn p (l ++ l') = scheduledIn p l ++ scheduledIn p l' :=
  List.filterMap_append

/-- What is popped in the parts is what is popped in the whole. -/
@[simp] theorem poppedIn_append : poppedIn p (l ++ l') = poppedIn p l ++ poppedIn p l' :=
  List.filterMap_append

theorem scheduledIn_singleton (ts : ℤ) (kind : EventKind) :
    scheduledIn p [.scheduled ts kind] = if p kind then [(ts, kind)] else [] := by
  simp only [scheduledIn, List.filterMap_cons, List.filterMap_nil]
  split_ifs <;> rfl

theorem poppedIn_singleton (event : Event) (activeTimer : Option ℕ) :
    poppedIn p [.popped event activeTimer] =
      if p event.kind then [(event.tsSim, event.kind)] else [] := by
  simp only [poppedIn, List.filterMap_cons, List.filterMap_nil]
  split_ifs <;> rfl

variable {p l}

/-- An event counts when its kind does and the trace schedules it. -/
theorem mem_scheduledIn {x : ℤ × EventKind} :
    x ∈ scheduledIn p l ↔ p x.2 = true ∧ .scheduled x.1 x.2 ∈ l := by
  simp only [scheduledIn, List.mem_filterMap]
  constructor
  · rintro ⟨effect, hmem, h⟩
    cases effect with
    | scheduled ts kind =>
      simp only [Option.ite_none_right_eq_some, Option.some.injEq] at h
      obtain ⟨hp, rfl⟩ := h
      exact ⟨hp, hmem⟩
    | _ => simp at h
  · rintro ⟨hp, hmem⟩
    exact ⟨_, hmem, by simp [hp]⟩

/-- An event counts when its kind does and the trace pops it. -/
theorem mem_poppedIn {x : ℤ × EventKind} :
    x ∈ poppedIn p l ↔ p x.2 = true ∧
      ∃ event activeTimer, .popped event activeTimer ∈ l ∧ (event.tsSim, event.kind) = x := by
  simp only [poppedIn, List.mem_filterMap]
  constructor
  · rintro ⟨effect, hmem, h⟩
    cases effect with
    | popped event activeTimer =>
      simp only [Option.ite_none_right_eq_some, Option.some.injEq] at h
      obtain ⟨hp, rfl⟩ := h
      exact ⟨hp, event, activeTimer, hmem, rfl⟩
    | _ => simp at h
  · rintro ⟨hp, event, activeTimer, hmem, rfl⟩
    exact ⟨_, hmem, by simp [hp]⟩

end Trace

/-- What a pass of the ingestion loop may do. -/
def Effect.isIntake : Effect → Bool
  | ingested _ | overflow => true
  | scheduled _ kind => kind.isFeed
  | _ => false

/-- Taking in records pops nothing. -/
theorem poppedIn_of_isIntake {l : List Effect} (h : ∀ x ∈ l, x.isIntake = true)
    (p : EventKind → Bool) : poppedIn p l = [] := by
  refine List.eq_nil_iff_forall_not_mem.2 fun x hx => ?_
  obtain ⟨-, event, activeTimer, hmem, -⟩ := mem_poppedIn.1 hx
  cases h _ hmem

/-- Whether a trace has an overflow can be read off it. -/
instance (l : List Effect) : Decidable (Effect.overflow ∈ l) :=
  decidable_of_iff (l.any fun | .overflow => true | _ => false) <| by
    rw [List.any_eq_true]
    constructor
    · rintro ⟨x, hx, h⟩
      cases x with
      | overflow => exact hx
      | _ => cases h
    · exact fun h => ⟨_, h, rfl⟩

namespace Engine

variable {T U Q S L R : Type} [QueueModel Q]

/-! ## Logging and pushing -/

section Record

variable (e : Engine T U Q S L R) (ts : ℤ) (kind : EventKind) (effect : Effect)
  (core : Core Q S L R)

@[simp] theorem core_log : (e.log effect).core = e.core := rfl
@[simp] theorem queue_log : (e.log effect).queue = e.queue := rfl
@[simp] theorem ticks_log : (e.log effect).ticks = e.ticks := rfl
@[simp] theorem l3_log : (e.log effect).l3 = e.l3 := rfl
@[simp] theorem trace_log : (e.log effect).trace = e.trace ++ [effect] := rfl

@[simp] theorem core_pushEvent : (e.pushEvent ts kind).core = e.core := rfl
@[simp] theorem queue_pushEvent : (e.pushEvent ts kind).queue = e.queue.push ts kind := rfl
@[simp] theorem ticks_pushEvent : (e.pushEvent ts kind).ticks = e.ticks := rfl
@[simp] theorem l3_pushEvent : (e.pushEvent ts kind).l3 = e.l3 := rfl
@[simp] theorem trace_pushEvent :
    (e.pushEvent ts kind).trace = e.trace ++ [.scheduled ts kind] := rfl

@[simp] theorem queue_setPendingWakeup (b : Bool) : (e.setPendingWakeup b).queue = e.queue := rfl
@[simp] theorem ticks_setPendingWakeup (b : Bool) : (e.setPendingWakeup b).ticks = e.ticks := rfl
@[simp] theorem l3_setPendingWakeup (b : Bool) : (e.setPendingWakeup b).l3 = e.l3 := rfl
@[simp] theorem trace_setPendingWakeup (b : Bool) : (e.setPendingWakeup b).trace = e.trace := rfl

@[simp] theorem core_record : (e.record effect).core = e.core := by cases effect <;> rfl
@[simp] theorem ticks_record : (e.record effect).ticks = e.ticks := by cases effect <;> rfl
@[simp] theorem l3_record : (e.record effect).l3 = e.l3 := by cases effect <;> rfl
@[simp] theorem trace_record : (e.record effect).trace = e.trace ++ [effect] := by
  cases effect <;> rfl

/-- What holds before the effects are carried out, and after each of them, holds after
all. -/
theorem absorb_induction {I : List Effect → Engine T U Q S L R → Prop}
    (start : I [] { e with core := core.cleared })
    (step : ∀ done effect e', effect ∈ core.effects → I done e' →
      I (done ++ [effect]) (e'.record effect)) : I core.effects (e.absorb core) := by
  suffices h : ∀ (rest done : List Effect) (e' : Engine T U Q S L R),
      (∀ effect ∈ rest, effect ∈ core.effects) → I done e' →
        I (done ++ rest) (rest.foldl record e') from
    h core.effects [] _ (fun _ h => h) start
  intro rest
  induction rest with
  | nil =>
    intro done e' _ h
    simpa using h
  | cons effect rest ih =>
    intro done e' hmem h
    have := ih (done ++ [effect]) (e'.record effect) (fun x hx => hmem x (by simp [hx]))
      (step done effect e' (hmem effect (by simp)) h)
    simpa using this

@[simp] theorem core_absorb : (e.absorb core).core = core.cleared :=
  absorb_induction (I := fun _ e' => e'.core = core.cleared) e core rfl
    fun _ _ _ _ h => by simpa using h

@[simp] theorem ticks_absorb : (e.absorb core).ticks = e.ticks :=
  absorb_induction (I := fun _ e' => e'.ticks = e.ticks) e core rfl
    fun _ _ _ _ h => by simpa using h

@[simp] theorem l3_absorb : (e.absorb core).l3 = e.l3 :=
  absorb_induction (I := fun _ e' => e'.l3 = e.l3) e core rfl fun _ _ _ _ h => by simpa using h

@[simp] theorem trace_absorb : (e.absorb core).trace = e.trace ++ core.effects :=
  absorb_induction (I := fun done e' => e'.trace = e.trace ++ done) e core (by simp)
    fun _ _ _ _ h => by simp [h]

/-- The queue takes the scheduled events one by one. -/
theorem waiting_absorb (p : EventKind → Bool) : (e.absorb core).queue.waiting p =
    insertAll Prod.fst (scheduledIn p core.effects) (e.queue.waiting p) :=
  absorb_induction (I := fun done e' => e'.queue.waiting p =
      insertAll Prod.fst (scheduledIn p done) (e.queue.waiting p)) e core rfl
    fun done effect e' _ h => by
      cases effect with
      | scheduled ts kind =>
        rw [record, queue_pushEvent, EventQueue.waiting_push, scheduledIn_append,
          scheduledIn_singleton, insertAll_append_right, h]
        split_ifs <;> rfl
      | _ => simpa [record, scheduledIn] using h

end Record

/-- A turn that pops an event does not finish the run. -/
theorem statusOf_ne_finished {ε : Type} (o : Option ε) : statusOf o ≠ .finished := by
  cases o <;> simp [statusOf]

/-- The run fails with the error of the turn. -/
theorem statusOf_eq_failed {ε : Type} {o : Option ε} {err : ε} :
    statusOf o = .failed err ↔ o = some err := by
  cases o <;> simp [statusOf]

theorem statusOf_eq_running {ε : Type} {o : Option ε} : statusOf o = .running ↔ o = none := by
  cases o <;> simp [statusOf]

/-! ## Building and running -/

/-- What a caller may do to an engine. -/
inductive External [TickSource T] [L3Source U] (allowed : ℤ → EventKind → Prop)
    (e : Engine T U Q S L R) : Engine T U Q S L R → Prop
  | addTickSource (source : T) : External allowed e (e.addTickSource source)
  | addL3Source (source : U) : External allowed e (e.addL3Source source)
  | pushEvent {ts : ℤ} {kind : EventKind} :
      allowed ts kind → External allowed e (e.pushEvent ts kind)

/-- An engine that has not run yet. -/
inductive Built [TickSource T] [L3Source U] [SeedableRng R] (allowed : ℤ → EventKind → Prop) :
    Engine T U Q S L R → Prop
  | new (queueModel : Q) (strategy : S) (config : EngineConfig) (latencyModel : L)
      (currentBatchNs : ℕ → ℤ) :
      Built allowed (.new queueModel strategy config latencyModel currentBatchNs)
  | external {e e' : Engine T U Q S L R} :
      Built allowed e → External allowed e e' → Built allowed e'

/-- An engine may be built with fewer events than are allowed. -/
theorem Built.mono [TickSource T] [L3Source U] [SeedableRng R]
    {allowed allowed' : ℤ → EventKind → Prop} {e : Engine T U Q S L R} (h : Built allowed e)
    (hallowed : ∀ ts kind, allowed ts kind → allowed' ts kind) : Built allowed' e := by
  induction h with
  | new => exact .new _ _ _ _ _
  | external _ hext ih =>
    refine ih.external ?_
    cases hext with
    | addTickSource source => exact .addTickSource source
    | addL3Source source => exact .addL3Source source
    | pushEvent h => exact .pushEvent (hallowed _ _ h)

section Built

variable [TickSource T] [L3Source U] [SeedableRng R] {e : Engine T U Q S L R}

/-- An engine that has not run has popped nothing, and holds no event that the caller did not
push. -/
theorem Built.poppedIn_trace {allowed : ℤ → EventKind → Prop} (h : Built allowed e)
    (p : EventKind → Bool) : poppedIn p e.trace = [] := by
  induction h with
  | new => rfl
  | external _ hext ih =>
    cases hext with
    | addTickSource source => exact ih
    | addL3Source source => exact ih
    | pushEvent hallowed => simpa [poppedIn] using ih

/-- At the start only allowed events wait. -/
theorem Built.waiting {allowed : ℤ → EventKind → Prop} (h : Built allowed e)
    {p : EventKind → Bool} (hp : ∀ ts kind, allowed ts kind → p kind = false) :
    e.queue.waiting p = [] := by
  induction h with
  | new => rfl
  | external _ hext ih =>
    cases hext with
    | addTickSource source => exact ih
    | addL3Source source => exact ih
    | pushEvent hallowed => simpa [EventQueue.waiting_push, hp _ _ hallowed] using ih

end Built

/-- An engine over lists, with a scripted strategy and a constant latency. -/
abbrev Sample := Engine (List Tick) VecL3Source ConservativeQueue Scripted ConstantLatency Unit

/-- A sample engine fed by lists. -/
def sample (config : EngineConfig) (orderLatencyNs : ℤ) (script : List (List Command))
    (tks : List (List Tick)) : Sample :=
  tks.foldl addTickSource (.new ⟨⟩ ⟨script⟩ config ⟨orderLatencyNs⟩ fun _ => 0)

variable [TickSource T] [L3Source U] [Strategy S] [LatencyModel L R]

/-- The invariant rule for runs during which the caller may act. -/
theorem open_invariant [SeedableRng R] {allowed : ℤ → EventKind → Prop}
    {I : Engine T U Q S L R → Prop} {e₀ e : Engine T U Q S L R}
    {st : Status (EngineError (Strategy.Error S))} (built : Built allowed e₀)
    (h : Reaches turn (External allowed) e₀ e st)
    (new : ∀ queueModel strategy config latencyModel currentBatchNs,
      I (.new queueModel strategy config latencyModel currentBatchNs))
    (external : ∀ e e', I e → External allowed e e' → I e') (step : ∀ e, I e → I e.turn.1) :
    I e := by
  refine h.invariant ?_ step external
  clear h
  induction built with
  | new => exact new _ _ _ _ _
  | external _ he ih => exact external _ _ ih he

omit [Strategy S] [LatencyModel L R] in
/-- What a pass of the ingestion loop does, as a rule for invariants : it changes the sources, logs
a record or an overflow, and pushes feed events. -/
theorem ingest_preserves {ε : Type} {I : Engine T U Q S L R → Prop} {e : Engine T U Q S L R}
    (h : I e)
    (sources : ∀ (e : Engine T U Q S L R) ticks l3, I e → I { e with ticks := ticks, l3 := l3 })
    (ingested : ∀ e record, I e → I (e.log (.ingested record)))
    (overflow : ∀ e, I e → I (e.log .overflow))
    (push : ∀ e ts kind, kind.isFeed = true → I e → I (e.pushEvent ts kind)) :
    I (e.ingest (ε := ε)).1 := by
  have hl3 : ∀ (e : Engine T U Q S L R) (i : ℕ), I e → I (e.ingestL3 (ε := ε) i).1 := by
    intro e i h
    rw [ingestL3]
    split
    · exact h
    · exact sources e e.ticks _ h
    · next update l3 _ =>
      have h' := push _ update.tsExchange (.l3Update update) rfl
        (ingested _ (.l3 update) (sources e e.ticks l3 h))
      dsimp only
      split
      · exact h'
      · exact sources _ e.ticks _ h'
  have htick : ∀ (e : Engine T U Q S L R) (i : ℕ), I e → I (e.ingestTick (ε := ε) i).1 := by
    intro e i h
    rw [ingestTick]
    split
    · exact h
    · exact sources e _ e.l3 h
    · next tick ticks _ =>
      have h' := ingested _ (.tick tick) (sources e ticks e.l3 h)
      have hsched : ∀ (e : Engine T U Q S L R) tick, I e → I (e.scheduleTick tick) := by
        intro e tick h
        have hp := push e tick.tsExchange (.tick tick) rfl h
        refine push _ _ _ rfl ?_
        unfold noteDelivery
        split_ifs
        · exact overflow _ hp
        · exact hp
      dsimp only
      split
      · exact hsched _ tick h'
      · exact sources _ _ _ (hsched _ tick h')
  rw [ingest]
  split
  · exact h
  · dsimp only
    split
    · exact sources e _ e.l3 h
    · split
      · exact hl3 _ _ (sources e _ _ h)
      · exact htick _ _ (sources e _ _ h)
      · exact sources e _ _ h

omit [Strategy S] [LatencyModel L R] in
/-- Taking in records leaves the core as it is. -/
theorem ingest_frame (e : Engine T U Q S L R) {ε : Type} :
    (e.ingest (ε := ε)).1.core = e.core ∧ ∃ new, (e.ingest (ε := ε)).1.trace = e.trace ++ new ∧
      ∀ x ∈ new, x.isIntake = true := by
  let I (e' : Engine T U Q S L R) : Prop := e'.core = e.core ∧ ∃ new, e'.trace = e.trace ++ new ∧
    ∀ x ∈ new, x.isIntake = true
  have hlog : ∀ (e' e'' : Engine T U Q S L R) (x : Effect), I e' → e''.core = e'.core →
      e''.trace = e'.trace ++ [x] → x.isIntake = true → I e'' := by
    rintro e' e'' x ⟨hcore, new, htrace, hnew⟩ hcore' htrace' hx
    refine ⟨hcore'.trans hcore, new ++ [x], by rw [htrace', htrace, List.append_assoc],
      fun y hy => ?_⟩
    rcases List.mem_append.1 hy with hy | hy
    · exact hnew y hy
    · exact List.mem_singleton.1 hy ▸ hx
  refine ingest_preserves (I := I) ⟨rfl, [], by simp⟩ (fun _ _ _ h => h) ?_ ?_ ?_
  · exact fun e' record h => hlog e' _ (.ingested record) h rfl rfl rfl
  · exact fun e' h => hlog e' _ .overflow h rfl rfl rfl
  · exact fun e' ts kind hkind h => hlog e' _ (.scheduled ts kind) h rfl rfl hkind

/-- A turn is a pass of the ingestion loop, and when it has settled, an event, a flush or the
end. -/
theorem turn_cases (e : Engine T U Q S L R) :
    ∃ (e₁ : Engine T U Q S L R) (pass : Pass (Strategy.Error S)), e.ingest = (e₁, pass) ∧
      (pass ≠ .settled ∧ e.turn.1 = e₁ ∧ e.turn.2 ≠ .finished ∨
      pass = .settled ∧ (∃ event queue, e₁.queue.pop = some (event, queue) ∧
        e.turn = (({ e₁ with queue := queue }.dispatch event).1,
          statusOf ({ e₁ with queue := queue }.dispatch event).2)) ∨
      pass = .settled ∧ e₁.queue.pop = none ∧ e.turn = (e₁.flush.1, statusOf e₁.flush.2) ∨
      pass = .settled ∧ e₁.queue.pop = none ∧ e.turn = (e₁, .finished) ∧
        ¬(e₁.core.config.mode = .batch ∧
          (e₁.core.tickBuffer.isEmpty = false ∨ e₁.core.reportBuffer.isEmpty = false))) := by
  rw [turn]
  split
  · next e₁ heq => exact ⟨e₁, _, heq, .inl ⟨by simp, rfl, by simp⟩⟩
  · next e₁ err heq => exact ⟨e₁, _, heq, .inl ⟨by simp, rfl, by simp⟩⟩
  · next e₁ heq =>
    refine ⟨e₁, _, heq, .inr ?_⟩
    split
    · next event queue hpop => exact .inl ⟨rfl, event, queue, hpop, rfl⟩
    · next hpop =>
      split_ifs with hleft
      · exact .inr (.inl ⟨rfl, hpop, rfl⟩)
      · exact .inr (.inr ⟨rfl, hpop, rfl, hleft⟩)

/-- What a turn does, as a rule for invariants : it changes the sources, logs a record or an
overflow, pushes a feed event, dispatches the popped event, or flushes. -/
theorem turn_preserves {I : Engine T U Q S L R → Prop} {e : Engine T U Q S L R} (h : I e)
    (sources : ∀ (e : Engine T U Q S L R) ticks l3, I e → I { e with ticks := ticks, l3 := l3 })
    (ingested : ∀ e record, I e → I (e.log (.ingested record)))
    (overflow : ∀ e, I e → I (e.log .overflow))
    (push : ∀ e ts kind, kind.isFeed = true → I e → I (e.pushEvent ts kind))
    (dispatch : ∀ (e : Engine T U Q S L R) event queue, I e →
      e.queue.pop = some (event, queue) → I ({ e with queue := queue }.dispatch event).1)
    (flush : ∀ e, I e → e.queue.pop = none → I e.flush.1) : I e.turn.1 := by
  obtain ⟨e₁, pass, heq, hturn⟩ := turn_cases e
  have he₁ : I e₁ := by
    have hingest := ingest_preserves (ε := Strategy.Error S) h sources ingested overflow push
    rwa [heq] at hingest
  rcases hturn with ⟨-, hturn, -⟩ | ⟨-, event, queue, hpop, hturn⟩ | ⟨-, hpop, hturn⟩ |
    ⟨-, -, hturn, -⟩
  · exact hturn ▸ he₁
  · rw [hturn]
    exact dispatch e₁ event queue he₁ hpop
  · rw [hturn]
    exact flush e₁ he₁ hpop
  · rw [hturn]
    exact he₁

end Engine

end Backtester
