import Backtester.Tuner
import Backtester.Wakeups

/-!
# How long a tick waits

In batch mode the first tick of a batch starts the timer, and the timer asks for the flush. A tick
is then handed over no later than one batch length after its delivery (`batch_delay_bounded`), as
long as no turn leaves a pending wakeup behind (`KeepsWakeup`).

The reason is that a buffered tick is never forgotten (`Prompt.timely`) : either the wakeup is
pending, and then the next event popped is of the present time, or the active timer waits in the
queue and is due in time. A flush takes the ticks and the timer away together, so an active timer
has a tick to serve (`Prompt.armed`), and this tick was delivered before any later one.
-/

open Run StableSort History

set_option linter.unusedSectionVars false

namespace Backtester

/-- The ticks of the strategy that it does not have yet. -/
def ticksOwed (l : List Effect) : List Tick := (ticksPopped l).drop (ticksHanded l).length

/-- No event is popped and nothing is handed over more than `m` after a tick that is owed. -/
def Effect.InTime (m : ℤ) (pre : List Effect) : Effect → Prop
  | popped event _ => ∀ tick ∈ ticksOwed pre, event.tsSim ≤ tick.tsLocal + m
  | called call ts _ => ∀ tick ∈ call.ticks, tick.tsLocal ≤ ts ∧ ts ≤ tick.tsLocal + m
  | _ => True

/-- The ticks that the effects hand over at the time `t` are delivered before `t`, by `m` at
most. -/
theorem always_inTime_append {m t : ℤ} {l new : List Effect} (h : Always (Effect.InTime m) l)
    (hpopped : poppedIn EventKind.any new = []) (hkeeps : ∀ x ∈ new, x.KeepsTo t)
    (hticks : ∀ tick ∈ ticksHanded new, tick.tsLocal ≤ t ∧ t ≤ tick.tsLocal + m) :
    Always (Effect.InTime m) (l ++ new) := by
  refine always_append h fun pre x post hsplit => ?_
  have hx : x ∈ new := by simp [hsplit]
  cases x with
  | popped event activeTimer =>
    have hmem : (event.tsSim, event.kind) ∈ poppedIn EventKind.any new :=
      mem_poppedIn.2 ⟨rfl, event, activeTimer, hx, rfl⟩
    rw [hpopped] at hmem
    cases hmem
  | called call ts market =>
    obtain rfl : ts = t := hkeeps _ hx
    refine fun tick htick => hticks tick ?_
    rw [hsplit, ticksHanded_append]
    exact List.mem_append_right _ (List.mem_append_left _ htick)
  | _ => trivial

/-! ## The tick buffer and the timer -/

namespace Core

variable {Q S L R : Type} [QueueModel Q] {c : Core Q S L R} [Strategy S]

theorem scheduled_mem_pushEffects (ts delay pushed : ℤ) (kind : EventKind) :
    .scheduled pushed kind ∈ pushEffects ts delay pushed kind := by
  unfold pushEffects
  split_ifs <;> simp

theorem overflow_mem_pushEffects {ts delay : ℤ} (h : ¬MachineInt.InRange 64 (ts + delay))
    (pushed : ℤ) (kind : EventKind) : .overflow ∈ pushEffects ts delay pushed kind := by
  unfold pushEffects
  rw [if_neg h]
  exact List.mem_cons_self

/-- An event that is no delivery leaves the tick buffer as it is, and the timer unless it is that
timer. -/
theorem timer_handle [LatencyModel L R] {kind : EventKind}
    (hkind : ∀ tick, kind ≠ .tickDelivery tick) : (c.handle kind).1.tickBuffer = c.tickBuffer ∧
      ((c.handle kind).1.activeBatchTimerId = c.activeBatchTimerId ∨
        (c.handle kind).1.activeBatchTimerId = none ∧
        kind.isWakeup c.activeBatchTimerId = true) := by
  have quiet : ∀ {t : ℤ} {c' : Core Q S L R}, Quiet t c c' → c'.tickBuffer = c.tickBuffer ∧
      (c'.activeBatchTimerId = c.activeBatchTimerId ∨
        c'.activeBatchTimerId = none ∧ kind.isWakeup c.activeBatchTimerId = true) :=
    fun hq => ⟨hq.tickBuffer, .inl hq.activeBatchTimerId⟩
  have wake : ∀ {t : ℤ} {c' : Core Q S L R} (call : Call) (ts : ℤ) (wakeup : Bool), Quiet t c c' →
      (c'.wake call ts wakeup).1.tickBuffer = c.tickBuffer ∧
      ((c'.wake call ts wakeup).1.activeBatchTimerId = c.activeBatchTimerId ∨
        (c'.wake call ts wakeup).1.activeBatchTimerId = none ∧
          kind.isWakeup c.activeBatchTimerId = true) := by
    intro t c' call ts wakeup hq
    rcases wake_spec c' call ts wakeup with ⟨err, h⟩ | ⟨strategy, commands, h⟩
    · rw [h]
      exact ⟨hq.tickBuffer, .inl hq.activeBatchTimerId⟩
    · have hcommands := quiet_handleCommands (t := ts) (c'.afterCall call ts strategy) commands
      rw [h]
      exact ⟨hcommands.tickBuffer.trans hq.tickBuffer,
        .inl (hcommands.activeBatchTimerId.trans hq.activeBatchTimerId)⟩
  cases kind with
  | tick tick => exact quiet (quiet_onTickEvent c tick)
  | tickDelivery tick => exact absurd rfl (hkind tick)
  | l2Update update => exact quiet (quiet_onL2Update (t := 0) c update)
  | l3Update update => exact quiet (quiet_onL3Update (t := 0) c update)
  | order order => exact quiet (quiet_onOrder c order)
  | orderAck orderId => exact quiet (quiet_onOrderAck c orderId)
  | orderCancel orderId => exact quiet (quiet_onOrderCancel c orderId)
  | orderCancelAck orderId => exact quiet (quiet_onOrderCancelAck c orderId)
  | orderReport report =>
    have hforget : Quiet 0 c (c.forget report) := quiet_forget c report
    simp only [handle, onOrderReport]
    split
    · exact wake _ _ _ hforget
    · exact ⟨hforget.tickBuffer, .inl hforget.activeBatchTimerId⟩
  | funding event => exact wake _ _ _ (quiet_applyFunding (t := 0) c event)
  | timer timerId =>
    simp only [handle, onTimer]
    split_ifs with htimer
    · exact ⟨rfl, .inr ⟨rfl, by simpa [EventKind.isWakeup] using htimer.2⟩⟩
    · exact ⟨rfl, .inl rfl⟩

/-- A delivery starts the timer, unless it is active already. -/
theorem timer_onTickDelivery (batch : c.config.mode = .batch) (pos : 0 < c.config.maxBatchNs)
    (tick : Tick) : (c.onTickDelivery tick).1.tickBuffer = c.tickBuffer ++ [tick] ∧
      (c.onTickDelivery tick).2 = .next false ∧
      ((∃ id, c.activeBatchTimerId = some id) ∧
          (c.onTickDelivery tick).1.activeBatchTimerId = c.activeBatchTimerId ∨
        c.activeBatchTimerId = none ∧ ∃ id ts, (c.onTickDelivery tick).1.activeBatchTimerId =
          some id ∧
          .scheduled ts (.timer id) ∈ (c.onTickDelivery tick).1.effects ∧
          (.overflow ∉ (c.onTickDelivery tick).1.effects →
            ts = tick.tsLocal + c.config.maxBatchNs)) := by
  have hmode : (c.observeDelivery tick).config.mode = .batch := batch
  simp only [onTickDelivery, hmode]
  cases hactive : c.activeBatchTimerId with
  | some id =>
    rw [if_neg fun h => by simp [bufferTick, observeDelivery, hactive] at h]
    exact ⟨rfl, rfl, .inl ⟨⟨id, rfl⟩, hactive⟩⟩
  | none =>
    rw [if_pos ⟨by simp [bufferTick, observeDelivery, hactive], pos⟩]
    unfold armTimer
    rw [pushAfter_eq]
    refine ⟨rfl, rfl, .inr ⟨rfl, c.nextTimerId, addI64 tick.tsLocal c.config.maxBatchNs, rfl, ?_,
      fun hno => ?_⟩⟩
    · exact List.mem_append_right _ (scheduled_mem_pushEffects _ _ _ _)
    · refine MachineInt.wrap_eq_self (by norm_num) ?_
      by_contra hout
      exact hno (List.mem_append_right _ (overflow_mem_pushEffects hout _ _))

/-- In batch mode an event only adds the ticks it brings. -/
theorem tickBuffer_handle [LatencyModel L R] (batch : c.config.mode = .batch)
    (pos : 0 < c.config.maxBatchNs) (kind : EventKind) :
    (c.handle kind).1.tickBuffer = c.tickBuffer ++ kind.ticks := by
  by_cases hdelivery : ∃ tick, kind = .tickDelivery tick
  · obtain ⟨tick, rfl⟩ := hdelivery
    exact (timer_onTickDelivery batch pos tick).1
  · rw [not_exists] at hdelivery
    have hticks : kind.ticks = [] := by
      cases kind with
      | tickDelivery tick => exact absurd rfl (hdelivery tick)
      | _ => rfl
    rw [hticks, List.append_nil]
    exact (timer_handle hdelivery).1

/-- In batch mode an event hands over no tick. -/
theorem ticksHanded_handle [LatencyModel L R] (batch : c.config.mode = .batch)
    (pos : 0 < c.config.maxBatchNs) (kind : EventKind) :
    ticksHanded (c.handle kind).1.effects = ticksHanded c.effects := by
  have hreceives := (receives_handle (unbuffered_of_batch batch) kind).1.ticks
  rw [tickBuffer_handle batch pos, List.append_assoc] at hreceives
  exact List.append_cancel_right hreceives

/-- A flush hands over buffered ticks only. -/
theorem ticksHanded_flushStrategy (c : Core Q S L R) (t : ℤ) :
    ∃ ticks, ticksHanded (c.flushStrategy t).1.effects = ticksHanded c.effects ++ ticks ∧
      ticks ⊆ c.tickBuffer := by
  cases hst : (c.flushStrategy t).2 with
  | none =>
    obtain ⟨hreceives, htick, -⟩ := receives_flushStrategy hst
    have hticks := hreceives.ticks
    rw [htick, List.append_nil, List.append_nil] at hticks
    exact ⟨c.tickBuffer, hticks, List.Subset.refl _⟩
  | some err =>
    rcases flushStrategy_spec c t with
      ⟨-, -, h⟩ | ⟨strategy, calls, tickBuffer, err', ⟨⟨rest, hcalls⟩, -⟩, h⟩ |
        ⟨strategy, commands, h⟩
    · rw [h] at hst
      cases hst
    · refine ⟨calls.flatMap Call.ticks, ?_, ?_⟩
      · rw [h]
        change ticksHanded (c.effects ++ calls.map (Effect.called · t c.market)) = _
        rw [ticksHanded_append, ticksHanded_calls]
      · rw [← handover_ticks, ← hcalls, List.flatMap_append]
        exact List.subset_append_left _ _
    · rw [h] at hst
      cases hst

/-- A flush that has something to hand over stops the timer. -/
theorem timer_flushStrategy {t : ℤ} (h : (c.flushStrategy t).2 = none) :
    (c.flushStrategy t).1.activeBatchTimerId = none ∨
      (c.flushStrategy t).1.activeBatchTimerId = c.activeBatchTimerId ∧ c.tickBuffer = [] := by
  rcases flushStrategy_spec c t with
    ⟨htick, -, heq⟩ | ⟨strategy, calls, tickBuffer, err, -, heq⟩ | ⟨strategy, commands, heq⟩
  · rw [heq]
    exact .inr ⟨rfl, htick⟩
  · rw [heq] at h
    cases h
  · have hq := quiet_handleCommands (t := t) (c.disarmed.handed t strategy c.handover [] [])
      commands
    have htune : ∀ c' : Core Q S L R, c'.tune.activeBatchTimerId = c'.activeBatchTimerId := by
      intro c'
      unfold tune
      split_ifs <;> rfl
    rw [heq]
    exact .inl ((htune _).trans hq.activeBatchTimerId)

end Core

/-! ## Turns -/

namespace Engine

variable {T U Q S L R : Type} [QueueModel Q] {e : Engine T U Q S L R} {event : Event} {m : ℤ}
  {tick : Tick}

/-- The active timer waits, and is due no later than `m` after the tick. -/
def Served (m : ℤ) (e : Engine T U Q S L R) (tick : Tick) : Prop :=
  ∃ id ts, e.core.activeBatchTimerId = some id ∧ (ts, .timer id) ∈ e.queue.waiting EventKind.any ∧
    ts ≤ tick.tsLocal + m

/-- An active timer has a tick to serve. -/
def Armed (e : Engine T U Q S L R) : Prop :=
  ∀ id, e.core.activeBatchTimerId = some id → e.core.tickBuffer ≠ []

/-- The buffered ticks were delivered at most `m` ago. -/
def Fresh (m : ℤ) (e : Engine T U Q S L R) : Prop :=
  ∀ tick ∈ e.core.tickBuffer, tick.tsLocal ≤ e.core.nowTsSim ∧ e.core.nowTsSim ≤ tick.tsLocal + m

section Handlers

variable [Strategy S]

theorem flush_inTime (h : Always (Effect.InTime m) e.trace) (fresh : e.Fresh m) :
    Always (Effect.InTime m) e.flush.1.trace := by
  obtain ⟨new, hworks, hkeeps⟩ := flush_attends e
  obtain ⟨ticks, hhanded, hsub⟩ := Core.ticksHanded_flushStrategy e.core.cleared e.core.nowTsSim
  have hnew : (e.core.cleared.flushStrategy e.core.nowTsSim).1.effects = new :=
    List.append_cancel_left ((trace_absorb e _).symm.trans hworks.trace)
  rw [hnew] at hhanded
  rw [hworks.trace]
  refine always_inTime_append h (hworks.poppedIn_eq_nil _) hkeeps fun tick htick => ?_
  rw [hhanded] at htick
  exact fresh tick (hsub htick)

theorem handleEvent_inTime [LatencyModel L R] (batch : e.core.config.mode = .batch)
    (pos : 0 < e.core.config.maxBatchNs)
    (h : Always (Effect.InTime m) (e.trace ++ [.popped event e.core.activeBatchTimerId])) :
    Always (Effect.InTime m) (e.handleEvent event).1.trace := by
  obtain ⟨⟨new, hworks, hkeeps⟩, -⟩ := handleEvent_attends batch event
  have hhanded := Core.ticksHanded_handle (c := e.core.cleared.atTime event.tsSim) batch pos
    event.kind
  have hnew : ((e.core.cleared.atTime event.tsSim).handle event.kind).1.effects = new :=
    List.append_cancel_left ((trace_absorb _ _).symm.trans hworks.trace)
  rw [hnew] at hhanded
  rw [hworks.trace]
  refine always_inTime_append h (hworks.poppedIn_eq_nil _) hkeeps fun tick htick => ?_
  rw [hhanded] at htick
  cases htick

end Handlers

/-- What holds after the handler of an event, when the flush it may ask for is still to come. -/
structure Due (m : ℤ) (e : Engine T U Q S L R) (wakeup : Bool) : Prop where
  received : e.Received
  batch : e.core.config.mode = .batch
  inTime : Always (Effect.InTime m) e.trace
  fresh : e.Fresh m
  armed : e.Armed
  served : wakeup = true ∨ e.core.pendingWakeup = true ∨ ∀ tick ∈ e.core.tickBuffer, e.Served m tick

theorem ticksOwed_eq (h : e.Received) : ticksOwed e.trace = e.core.tickBuffer := by
  rw [ticksOwed, ← h.ticks, List.drop_left]

variable [TickSource T] [L3Source U] [Strategy S] [LatencyModel L R]

/-- What holds as long as a run in batch mode goes on : the ticks are served, or the wakeup is
pending and the next event popped is of the present time. -/
structure Prompt (m : ℤ) (e : Engine T U Q S L R) : Prop where
  due : e.Due m false
  atOnce : e.core.pendingWakeup = true → e.Buffered → e.AtOnce

/-- After a flush nothing is buffered, and no timer is active. -/
theorem Due.flush {wakeup : Bool} (h : e.Due m wakeup) (hnone : e.flush.2 = none) (pending : Bool) :
    (e.flush.1.setPendingWakeup pending).Prompt m := by
  obtain ⟨hreceived, htick, hreport⟩ := h.received.flush hnone
  obtain ⟨new, hworks, -⟩ := flush_spec e
  have hunarmed : e.flush.1.core.activeBatchTimerId = none := by
    change (e.absorb _).core.activeBatchTimerId = none
    rw [core_absorb]
    rcases Core.timer_flushStrategy hnone with hnone | ⟨hsame, hempty⟩
    · exact hnone
    · cases hactive : e.core.activeBatchTimerId with
      | none => exact hsame.trans hactive
      | some id => exact absurd hempty (h.armed id hactive)
  have hno : ∀ tick, tick ∉ e.flush.1.core.tickBuffer := fun tick htick' => by
    rw [htick] at htick'
    cases htick'
  refine ⟨⟨hreceived.setPendingWakeup pending, hworks.mode.trans h.batch,
    flush_inTime h.inTime h.fresh,
    fun tick htick' => absurd htick' (hno tick), fun id hid => ?_,
    .inr (.inr fun tick htick' => absurd htick' (hno tick))⟩, fun _ hbuffered => ?_⟩
  · exact absurd (hunarmed.symm.trans hid) (by simp)
  · change e.flush.1.core.config.mode = .batch ∧ (e.flush.1.core.tickBuffer.isEmpty = false ∨
      e.flush.1.core.reportBuffer.isEmpty = false) at hbuffered
    simp [htick, hreport] at hbuffered

/-- The end of `step` flushes, or leaves the flush to the next event of the time. -/
theorem Due.deferredFlush {wakeup : Bool} (h : e.Due m wakeup)
    (atOnce : e.queue.peek.map Event.tsSim = some e.core.nowTsSim →
      (e.setPendingWakeup true).AtOnce) :
    Always (Effect.InTime m) (e.deferredFlush wakeup).1.trace ∧
      ((e.deferredFlush wakeup).2 = none → (e.deferredFlush wakeup).1.Prompt m) := by
  have hflush := flush_inTime h.inTime h.fresh
  have hprompt := fun hnone => h.flush hnone false
  unfold Engine.deferredFlush
  split_ifs with hasked hlast
  · split
    · next heq =>
      rw [heq] at hflush
      exact ⟨hflush, fun hnone => by cases hnone⟩
    · next heq =>
      rw [heq] at hflush hprompt
      exact ⟨hflush, hprompt⟩
  · exact ⟨h.inTime,
      fun _ => ⟨⟨h.received.setPendingWakeup true, h.batch, h.inTime, h.fresh, h.armed,
      .inr (.inl rfl)⟩, fun _ _ => atOnce (not_ne_iff.1 hlast)⟩⟩
  · have hidle : ¬(wakeup = true ∨ e.core.pendingWakeup = true) := fun hor => hasked ⟨h.batch, hor⟩
    rw [not_or] at hidle
    refine ⟨h.inTime, fun _ => ⟨⟨h.received, h.batch, h.inTime, h.fresh, h.armed, ?_⟩,
      fun hpending => absurd hpending hidle.2⟩⟩
    exact .inr (h.served.resolve_left hidle.1)

/-- Taking in records keeps the ticks served. -/
theorem Due.ingest {ε : Type} (h : e.Due m false) : (e.ingest (ε := ε)).1.Due m false := by
  obtain ⟨hcore, new, htrace, hintake⟩ := e.ingest_frame (ε := ε)
  have hno : ∀ call t market, Effect.called call t market ∉ new := fun call t market hmem => by
    cases hintake _ hmem
  have hwaits : ∀ x ∈ e.queue.waiting EventKind.any,
      x ∈ (e.ingest (ε := ε)).1.queue.waiting EventKind.any := by
    intro x hx
    refine ingest_preserves (I := fun e' => x ∈ e'.queue.waiting EventKind.any) hx
      (fun _ _ _ h => h)
      (fun _ _ h => h) (fun _ h => h) fun e' ts kind _ h => ?_
    rw [queue_pushEvent, EventQueue.waiting_push, if_pos (show kind.any = true from rfl),
      mem_insertLast]
    exact .inr h
  refine ⟨h.received.ingest, hcore ▸ h.batch, ?_, ?_, ?_, ?_⟩
  · rw [htrace]
    refine always_inTime_append (t := e.core.nowTsSim) h.inTime (poppedIn_of_isIntake hintake _)
      (fun x hx => Effect.keepsTo_of_isIntake (hintake x hx) _) fun tick htick => ?_
    rw [ticksHanded_eq_nil hno] at htick
    cases htick
  · unfold Fresh
    rw [hcore]
    exact h.fresh
  · unfold Armed
    rw [hcore]
    exact h.armed
  · rw [hcore]
    refine h.served.imp_right (Or.imp_right fun hserved tick htick => ?_)
    obtain ⟨id, ts, hid, hwaiting, hle⟩ := hserved tick htick
    exact ⟨id, ts, hcore ▸ hid, hwaits _ hwaiting, hle⟩

section Event

variable {queue : EventQueue}

/-- Nothing is popped too late for a buffered tick. -/
theorem Due.le_of_pop (h : e.Due m false) (pop : e.queue.pop = some (event, queue))
    (next : e.core.pendingWakeup = true → e.Buffered → event.tsSim = e.core.nowTsSim)
    {tick : Tick} (htick : tick ∈ e.core.tickBuffer) : event.tsSim ≤ tick.tsLocal + m := by
  rcases h.served with hfalse | hpending | hserved
  · cases hfalse
  · have hbuffered : e.Buffered :=
      ⟨h.batch, .inl (List.isEmpty_eq_false_iff.2 (List.ne_nil_of_mem htick))⟩
    rw [next hpending hbuffered]
    exact (h.fresh tick htick).2
  · obtain ⟨id, ts, -, hwaiting, hle⟩ := hserved tick htick
    refine le_trans ?_ hle
    obtain ⟨-, event', hmem, heq⟩ := EventQueue.mem_waiting.1 hwaiting
    rw [(EventQueue.pop_eq_some.1 pop).1] at hmem
    obtain rfl : event'.tsSim = ts := congrArg Prod.fst heq
    rcases List.mem_cons.1 hmem with rfl | hmem
    · exact le_rfl
    · exact EventQueue.tsSim_le_of_pop pop event' hmem

/-- The handler of an event leaves every tick served, or asks for the flush. -/
theorem Due.handleEvent (h : e.Due m false) (pop : e.queue.pop = some (event, queue))
    (next : e.core.pendingWakeup = true → e.Buffered → event.tsSim = e.core.nowTsSim)
    (within : e.core.BatchWithin m) (dated : event.kind.IsDated event.tsSim)
    (past : ∀ tick ∈ e.core.tickBuffer, tick.tsLocal ≤ event.tsSim)
    (hno : Effect.overflow ∉ ((e.withQueue queue).handleEvent event).1.trace) :
    ((e.withQueue queue).handleEvent event).1.Due m
      (event.kind.isWakeup e.core.activeBatchTimerId) := by
  let e₁ := e.withQueue queue
  let c := e.core.cleared.atTime event.tsSim
  have hcore : (e₁.handleEvent event).1.core = (c.handle event.kind).1.cleared := core_absorb _ _
  obtain ⟨⟨new, hworks, -⟩, hpending⟩ := handleEvent_attends (e := e₁) h.batch event
  have hnew : (c.handle event.kind).1.effects = new :=
    List.append_cancel_left ((trace_absorb _ _).symm.trans hworks.trace)
  have hnow : (e₁.handleEvent event).1.core.nowTsSim = event.tsSim := hworks.nowTsSim
  have hbuffer : (e₁.handleEvent event).1.core.tickBuffer = e.core.tickBuffer ++
      event.kind.ticks := by
    rw [hcore]
    exact Core.tickBuffer_handle (c := c) h.batch within.pos event.kind
  have hbrought : ∀ tick ∈ event.kind.ticks, event.kind = .tickDelivery tick ∧
      event.tsSim = tick.tsLocal := by
    intro tick htick
    cases hkind : event.kind with
    | tickDelivery tick' =>
      rw [hkind] at htick dated
      obtain rfl := List.mem_singleton.1 htick
      exact ⟨rfl, dated.1⟩
    | _ =>
      rw [hkind] at htick
      cases htick
  have hm : 0 ≤ m := within.pos.le.trans within.le
  have hreceived : e₁.Received := ⟨h.received.ticks, h.received.reports, h.received.unbuffered⟩
  -- a timer that waits goes on waiting, unless it is popped
  have hwaits : ∀ {id : ℕ} {ts : ℤ}, (ts, .timer id) ∈ e.queue.waiting EventKind.any →
      event.kind = .timer id ∨ (ts, .timer id) ∈ (e₁.handleEvent event).1.queue.waiting
        EventKind.any := by
    intro id ts hmem
    rw [EventQueue.waiting_pop pop] at hmem
    rcases List.mem_cons.1 hmem with heq | hmem
    · exact .inl (congrArg Prod.snd heq).symm
    · rw [hworks.waiting, (insertAll_perm _ _).mem_iff]
      exact .inr (List.mem_append_left _ hmem)
  refine ⟨hreceived.handleEvent event, hworks.mode.trans h.batch, ?_, ?_, ?_, ?_⟩
  · refine handleEvent_inTime (e := e₁) h.batch within.pos (always_snoc.2 ⟨h.inTime, ?_⟩)
    intro tick htick
    change tick ∈ ticksOwed e.trace at htick
    rw [ticksOwed_eq h.received] at htick
    exact h.le_of_pop pop next htick
  · intro tick htick
    rw [hbuffer] at htick
    rw [hnow]
    rcases List.mem_append.1 htick with htick | htick
    · exact ⟨past tick htick, h.le_of_pop pop next htick⟩
    · obtain ⟨-, hts⟩ := hbrought tick htick
      exact ⟨hts.ge, by rw [hts]; exact le_add_of_nonneg_right hm⟩
  · intro id hid
    rw [hbuffer]
    rw [hcore] at hid
    change (c.handle event.kind).1.activeBatchTimerId = some id at hid
    by_cases hdelivery : ∃ tick, event.kind = .tickDelivery tick
    · obtain ⟨tick, hkind⟩ := hdelivery
      simp [hkind, EventKind.ticks]
    · rw [not_exists] at hdelivery
      rcases (Core.timer_handle (c := c) hdelivery).2 with hsame | ⟨hnone, -⟩
      · rw [hsame] at hid
        exact List.append_ne_nil_of_left_ne_nil (h.armed id hid) _
      · rw [hnone] at hid
        cases hid
  · by_cases hpend : e.core.pendingWakeup = true
    · exact .inr (.inl (hpending.trans hpend))
    have hserved := (h.served.resolve_left Bool.false_ne_true).resolve_left hpend
    have hkeep : ∀ {tick : Tick}, (e₁.handleEvent event).1.core.activeBatchTimerId =
        e.core.activeBatchTimerId → (∀ id, event.kind ≠ .timer id) → e.Served m tick →
        (e₁.handleEvent event).1.Served m tick := by
      rintro tick hsame htimer ⟨id, ts, hid, hwaiting, hle⟩
      exact ⟨id, ts, hsame.trans hid, (hwaits hwaiting).resolve_left (htimer id), hle⟩
    by_cases hdelivery : ∃ tick, event.kind = .tickDelivery tick
    · obtain ⟨tick, hkind⟩ := hdelivery
      have hts : event.tsSim = tick.tsLocal := (hbrought tick (by simp [hkind, EventKind.ticks])).2
      have htimer : ∀ id, event.kind ≠ .timer id := by simp [hkind]
      refine .inr (.inr fun tick' htick' => ?_)
      rw [hbuffer, hkind] at htick'
      rcases (Core.timer_onTickDelivery (c := c) h.batch within.pos tick).2.2 with
        ⟨⟨id, hid⟩, hsame⟩ | ⟨hnone, id, ts, hid, hmem, hdue⟩
      · have hsame' : (e₁.handleEvent event).1.core.activeBatchTimerId =
          e.core.activeBatchTimerId := by
          rw [hcore, hkind]
          exact hsame
        rcases List.mem_append.1 htick' with htick' | htick'
        · exact hkeep hsame' htimer (hserved tick' htick')
        · -- the timer serves an older tick
          obtain rfl := List.mem_singleton.1 htick'
          obtain ⟨older, holder⟩ := List.exists_mem_of_ne_nil _ (h.armed id hid)
          obtain ⟨id', ts', hid', hwaiting, hle⟩ := hkeep hsame' htimer (hserved older holder)
          have hpast := past older holder
          exact ⟨id', ts', hid', hwaiting, by omega⟩
      · rcases List.mem_append.1 htick' with htick' | htick'
        · obtain ⟨id', -, hid', -⟩ := hserved tick' htick'
          exact absurd (hnone.symm.trans hid') (by simp)
        · obtain rfl := List.mem_singleton.1 htick'
          have heffects : (c.onTickDelivery tick').1.effects = new := by
            rw [← hnew, hkind]
            rfl
          rw [heffects] at hmem hdue
          have hle := within.le
          refine ⟨id, ts, ?_, ?_, ?_⟩
          · rw [hcore, hkind]
            exact hid
          · rw [hworks.waiting, (insertAll_perm _ _).mem_iff]
            exact List.mem_append_right _ (mem_scheduledIn.2 ⟨rfl, hmem⟩)
          · rw [hdue fun hover => hno (hworks.trace ▸ List.mem_append_right _ hover)]
            exact Int.add_le_add_left hle _
    · rw [not_exists] at hdelivery
      have hticks : event.kind.ticks = [] :=
        List.eq_nil_iff_forall_not_mem.2 fun tick htick => hdelivery tick (hbrought tick htick).1
      rcases (Core.timer_handle (c := c) hdelivery).2 with hsame | ⟨-, hwakeup⟩
      · by_cases htimer : event.kind.isWakeup e.core.activeBatchTimerId = true
        · exact .inl htimer
        · refine .inr (.inr fun tick htick => ?_)
          rw [hbuffer, hticks, List.append_nil] at htick
          obtain ⟨id, ts, hid, hwaiting, hle⟩ := hserved tick htick
          refine ⟨id, ts, ?_, (hwaits hwaiting).resolve_left fun hkind => htimer ?_, hle⟩
          · rw [hcore]
            exact hsame.trans hid
          · simp [hkind, EventKind.isWakeup, hid]
      · exact .inl hwakeup

/-- An event is handled in time, and leaves every tick served. -/
theorem Due.dispatch (h : e.Due m false) (pop : e.queue.pop = some (event, queue))
    (next : e.core.pendingWakeup = true → e.Buffered → event.tsSim = e.core.nowTsSim)
    (within : e.core.BatchWithin m) (dated : event.kind.IsDated event.tsSim)
    (past : ∀ tick ∈ e.core.tickBuffer, tick.tsLocal ≤ event.tsSim)
    (keeps : ∀ orderId, event.kind = .orderAck orderId ∨ event.kind = .orderCancel orderId →
      e.core.orderSymbolById[orderId]? = none → e.core.pendingWakeup = true → e.Buffered →
      queue.peek.map Event.tsSim = some event.tsSim ∨
        queue.peek = none ∧ (e.withQueue queue).nextRecord = none)
    (atOnce : ∀ e' : Engine T U Q S L R, e'.ticks = e.ticks → e'.l3 = e.l3 →
      e'.core.nowTsSim = event.tsSim →
      e'.queue.peek.map Event.tsSim = some event.tsSim ∨
        e'.queue.peek = none ∧ e'.nextRecord = none → e'.AtOnce)
    (hno : Effect.overflow ∉ ((e.withQueue queue).dispatch event).1.trace) :
    Always (Effect.InTime m) ((e.withQueue queue).dispatch event).1.trace ∧
      (((e.withQueue queue).dispatch event).2 = none →
        ((e.withQueue queue).dispatch event).1.Prompt m) := by
  let e₁ := e.withQueue queue
  obtain ⟨⟨new, hworks, -⟩, -⟩ := handleEvent_attends (e := e₁) h.batch event
  have hnow : (e₁.handleEvent event).1.core.nowTsSim = event.tsSim := hworks.nowTsSim
  have hsources : (e₁.handleEvent event).1.ticks = e.ticks ∧
      (e₁.handleEvent event).1.l3 = e.l3 := by
    simp [Engine.handleEvent, e₁, withQueue]
  have hdue := h.handleEvent pop next within dated past
  have hret : (e₁.handleEvent event).2 = .ret → _ := handleEvent_ret
  have hwakeup := Core.flow_of_isWakeup (c := e₁.core.cleared.atTime event.tsSim) h.batch event.kind
  change event.kind.isWakeup e.core.activeBatchTimerId = true →
    (∃ err, (e₁.handleEvent event).2 = .fail err) ∨ (e₁.handleEvent event).2 = .next true at hwakeup
  change Effect.overflow ∉ (e₁.handleEvent event).1.trace → (e₁.handleEvent event).1.Due m _ at hdue
  change Effect.overflow ∉ (e₁.dispatch event).1.trace at hno
  change Always (Effect.InTime m) (e₁.dispatch event).1.trace ∧
    ((e₁.dispatch event).2 = none → (e₁.dispatch event).1.Prompt m)
  clear hworks
  unfold Engine.dispatch at hno ⊢
  generalize e₁.handleEvent event = handled at *
  obtain ⟨e', err | _ | wakeup⟩ := handled
  · exact ⟨(hdue hno).inTime, fun hnone => by cases hnone⟩
  · obtain ⟨rfl, orderId, hkind, hunknown⟩ := hret rfl
    have hidle : event.kind.isWakeup e.core.activeBatchTimerId = false := by
      rcases hkind with hkind | hkind <;> rw [hkind] <;> rfl
    rw [hidle] at hdue
    refine ⟨(hdue hno).inTime, fun _ => ⟨hdue hno, fun hpending hbuffered => ?_⟩⟩
    exact atOnce _ rfl rfl rfl (keeps orderId hkind hunknown hpending hbuffered)
  · obtain ⟨new', hworks, -⟩ := deferredFlush_spec e' wakeup
    have hdue' := hdue fun hover => hno (by rw [hworks.trace]; exact List.mem_append_left _ hover)
    have hasked : e'.Due m wakeup := by
      refine ⟨hdue'.received, hdue'.batch, hdue'.inTime, hdue'.fresh, hdue'.armed, ?_⟩
      refine hdue'.served.imp_left fun hwake => ?_
      rcases hwakeup hwake with ⟨err, hflow⟩ | hflow
      · cases hflow
      · cases hflow
        rfl
    refine hasked.deferredFlush fun hpeek => ?_
    rw [hnow] at hpeek
    exact atOnce _ hsources.1 hsources.2 hnow (.inl hpeek)

end Event

/-- The next event popped is not before any buffered tick. -/
theorem Clock.tsLocal_le_of_pop {l3s : List (List L3Update)} {tks : List (List Tick)}
    (h : e.Clock l3s tks)
    (received : e.Received) {queue : EventQueue} (pop : e.queue.pop = some (event, queue)) :
    ∀ tick ∈ e.core.tickBuffer, tick.tsLocal ≤ event.tsSim := by
  intro tick htick
  have hmem : tick ∈ ticksPopped e.trace := by
    rw [← received.ticks]
    exact List.mem_append_right _ htick
  obtain ⟨x, hx, hxtick⟩ := List.mem_flatMap.1 hmem
  have hdated := h.dated x ((h.agenda _).scheduled_of_popped hx)
  obtain ⟨ts, kind⟩ := x
  cases kind with
  | tickDelivery tick' =>
    obtain rfl := List.mem_singleton.1 hxtick
    exact hdated.1 ▸ h.popped_le_tsSim pop _ hx
  | _ => cases hxtick

/-- A turn of a run that keeps its wakeups is in time, and leaves every tick served. -/
theorem Prompt.turn {l3s : List (List L3Update)} {tks : List (List Tick)} (h : e.Prompt m)
    (hkeeps : e.KeepsWakeup) (clock : e.Clock l3s tks) (within : e.core.BatchWithin m)
    (hno : Effect.overflow ∉ e.turn.1.trace) :
    Always (Effect.InTime m) e.turn.1.trace ∧ (e.turn.2 = .running → e.turn.1.Prompt m) := by
  obtain ⟨e₁, pass, hingest, hturn⟩ := turn_cases e
  have hdue := h.due.ingest (ε := Strategy.Error S)
  have hcore := (e.ingest_frame (ε := Strategy.Error S)).1
  rw [hingest] at hdue hcore
  rcases hturn with ⟨hpass, hturn, -⟩ | ⟨rfl, event, queue, hpop, hturn⟩ | ⟨rfl, hpop, hturn⟩ |
    ⟨rfl, hpop, hturn, -⟩
  · rw [hturn]
    refine ⟨hdue.inTime, fun hrunning => ⟨hdue, fun hpending hbuffered => ?_⟩⟩
    unfold Buffered at hbuffered
    rw [hcore] at hpending hbuffered
    have honly := (h.atOnce hpending hbuffered).1
    rw [hingest] at honly
    rw [Engine.turn, hingest] at hrunning
    cases pass with
    | ingested => exact absurd rfl honly
    | settled => exact absurd rfl hpass
    | fault err => cases hrunning
  · obtain ⟨⟨hqueue, -, -⟩, -, -⟩ := ingest_settled hingest
    have hpop' : e.queue.pop = some (event, queue) := hqueue ▸ hpop
    have hts : e₁.nextQueueTs = event.tsSim := by
      rw [nextQueueTs, EventQueue.peek_of_pop hpop]
      rfl
    have hmem : (event.tsSim, event.kind) ∈ e.queue.waiting EventKind.any := by
      rw [EventQueue.waiting_pop hpop']
      exact List.mem_cons_self
    rw [hturn] at hno ⊢
    have hdispatch := hdue.dispatch hpop
      (fun hpending hbuffered => by
        unfold Buffered at hbuffered
        rw [hcore] at hpending hbuffered ⊢
        have honly := (h.atOnce hpending hbuffered).2
        rw [hingest] at honly
        exact honly event queue hpop)
      (hcore ▸ within) (clock.dated _ ((clock.agenda _).scheduled_of_waiting hmem))
      (hcore ▸ clock.tsLocal_le_of_pop h.due.received hpop')
      (fun orderId hkind hunknown hpending hbuffered => by
        unfold Buffered at hbuffered
        rw [hcore] at hunknown hpending hbuffered
        exact hkeeps e₁ event queue orderId hingest hpop hkind hunknown hpending hbuffered)
      (fun e' hticks hl3 hnow hpeek => by
        rw [← hnow] at hpeek
        exact atOnce_of_peek hingest hticks hl3 (hts.trans hnow.symm) hpeek) hno
    exact ⟨hdispatch.1, fun hrunning => hdispatch.2 (statusOf_eq_running.1 hrunning)⟩
  · rw [hturn]
    refine ⟨flush_inTime hdue.inTime hdue.fresh, fun hrunning => ?_⟩
    exact hdue.flush (statusOf_eq_running.1 hrunning) _
  · rw [hturn]
    exact ⟨hdue.inTime, fun hrunning => by cases hrunning⟩

/-- An engine that has not run owes no tick. -/
theorem Built.prompt [SeedableRng R] {allowed : ℤ → EventKind → Prop} (h : Built allowed e)
    (batch : e.core.config.mode = .batch) : e.Prompt m := by
  have hstart : e.core.tickBuffer = [] ∧ e.core.activeBatchTimerId = none ∧
    e.core.pendingWakeup = false ∧
      Always (Effect.InTime m) e.trace := by
    clear batch
    induction h with
    | new => exact ⟨rfl, rfl, rfl, always_nil⟩
    | external _ hext ih =>
      cases hext with
      | addTickSource source => exact ih
      | addL3Source source => exact ih
      | pushEvent hallowed => exact ⟨ih.1, ih.2.1, ih.2.2.1, always_snoc.2 ⟨ih.2.2.2, trivial⟩⟩
  obtain ⟨hbuffer, hactive, hpending, htime⟩ := hstart
  refine ⟨⟨h.received, batch, htime, fun tick htick => ?_, fun id hid => ?_,
    .inr (.inr fun tick htick => ?_)⟩,
    fun hp => ?_⟩
  · rw [hbuffer] at htick
    cases htick
  · exact absurd (hactive.symm.trans hid) (by simp)
  · rw [hbuffer] at htick
    cases htick
  · exact absurd (hpending.symm.trans hp) Bool.false_ne_true

/-- In a run in batch mode that leaves no pending wakeup behind, every tick is handed over at most
one batch length after its delivery, and the time does not move further while the tick is owed. -/
theorem batch_delay_bounded [SeedableRng R] {l3s : List (List L3Update)} {tks : List (List Tick)}
    {e₀ : Engine T U Q S L R} {st : Status (EngineError (Strategy.Error S))}
    (built : Built (fun _ kind => kind.isBackground = true) e₀) (feeds : e₀.Feeds l3s tks)
    (paced : e₀.Paced l3s tks) (batch : e₀.core.config.mode = .batch)
    (within : e₀.core.BatchWithin m)
    (h : ReachesWhile KeepsWakeup turn closed e₀ e st) (hno : Effect.overflow ∉ e.trace) :
    Always (Effect.InTime m) e.trace := by
  suffices hrun : ∃ l3s tks, e.Feeds l3s tks ∧ (Effect.overflow ∉ e.trace → e.Clock l3s tks ∧
      e.core.BatchWithin m ∧ Always (Effect.InTime m) e.trace ∧ (st = .running → e.Prompt m)) by
    obtain ⟨_, _, _, hinv⟩ := hrun
    exact (hinv hno).2.2.1
  clear hno
  induction h with
  | start =>
    have hprompt := built.prompt (m := m) batch
    exact ⟨l3s, tks, feeds, fun _ =>
      ⟨built.clock paced, within, hprompt.due.inTime, fun _ => hprompt⟩⟩
  | turn _ hok ih =>
    obtain ⟨l3s, tks, hfeeds, hinv⟩ := ih
    obtain ⟨l3s', tks', hturn, hfeeds'⟩ := turn_spec hfeeds
    refine ⟨l3s', tks', hfeeds', fun hno => ?_⟩
    obtain ⟨hclock, hwithin, -, hprompt⟩ := hinv (hturn.overflow hno)
    exact ⟨hclock.turn hturn hno, batchWithin_turn hwithin,
      (hprompt rfl).turn hok hclock hwithin hno⟩
  | env _ hf => exact hf.elim

/-- The second tick waits for the timer that the first one started, and a report hands over the
third. -/
theorem batch_delay_bounded_sample :
    let order : Order := ⟨0, 0, 0, 0, 100, 1, 1, .buy, .limit⟩
    let ticks :
      List Tick := [⟨1000, 1000, 0, 100, 1, 1, .buy, 0⟩, ⟨1050, 1060, 1, 100, 1, 1, .buy, 0⟩,
      ⟨1105, 1108, 2, 100, 1, 1, .buy, 0⟩]
    let e₀ := sample { mode := .batch, maxBatchNs := 100 } 10 [[.submitOrder order]] [ticks]
    let e := (runFor turn 20 e₀).1
    (runFor turn 20 e₀).2 = .finished ∧ Always (Effect.InTime 100) e.trace ∧
      ticksHanded e.trace = ticks := by
  intro order ticks e₀ e
  have built : Built (fun _ kind => kind.isBackground = true) e₀ :=
    .external (.new _ _ _ _ _) (.addTickSource ticks)
  have feeds : e₀.Feeds [] [ticks] := (feeds_new _ _ _ _ _).addTickSource (yields_list ticks)
  have paced : e₀.Paced [] [ticks] := ⟨by decide +kernel, by decide +kernel, by decide, by decide⟩
  have pos : 0 < e₀.core.config.maxBatchNs := by decide +kernel
  have within : e₀.core.BatchWithin 100 := Core.batchWithin_of_not_autoTune pos rfl
  exact ⟨by decide +kernel, batch_delay_bounded built feeds paced rfl within
    (reachesWhile_runFor e₀ 20 fun n hn => keepsWakeup_of_waiting (by revert n; decide +kernel))
      (by decide +kernel), by decide +kernel⟩

end Engine

end Backtester
