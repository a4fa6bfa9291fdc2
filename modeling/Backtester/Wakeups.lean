import Backtester.Delivery
import Backtester.Library.History
import Backtester.Posting

/-!
# Wakeups of batch mode

A report, a funding event or the active timer asks for the strategy in batch mode. The flush waits
for the last event of the timestamp, and `pending_wakeup` remembers it. `Answered` says that a
popped event was followed, before any event of another time, by calls that hand over everything
buffered.

An acknowledgement or a cancel of an order that is not registered returns from `step` before the
flush. When it is the last event of the timestamp, the pending wakeup waits for an event of a later
time (`late_wakeup`). When no turn of the run does that (`KeepsWakeup`), all wakeups are answered in
time (`wakeups_on_time`) : a wakeup is answered, or it is pending, and then the next event popped is
of the present time (`Punctual`).
-/

open Run StableSort History

set_option linter.unusedSectionVars false

namespace Backtester

/-- The events that ask for the strategy in batch mode. -/
def EventKind.isWakeup (activeTimer : Option ℕ) : EventKind → Bool
  | orderReport _ | funding _ => true
  | timer timerId => activeTimer = some timerId
  | _ => false

/-- At the time `t` : the popped events are of that time, and the strategy is told that time. -/
def Effect.KeepsTo (t : ℤ) : Effect → Prop
  | popped event _ => event.tsSim = t
  | called _ ts _ => ts = t
  | _ => True

/-- The event an effect pops, with the timer that was active. -/
def Effect.poppedEvent : Effect → Option (Event × Option ℕ)
  | popped event activeTimer => some (event, activeTimer)
  | _ => none

/-- A quiet effect keeps to every time. -/
theorem Effect.keepsTo_of_isQuiet {x : Effect} (h : x.isQuiet = true) (t : ℤ) : x.KeepsTo t := by
  cases x with
  | popped _ _ => cases h
  | called _ _ _ => cases h
  | _ => trivial

/-- A record that is taken in keeps to every time. -/
theorem Effect.keepsTo_of_isIntake {x : Effect} (h : x.isIntake = true) (t : ℤ) : x.KeepsTo t := by
  cases x with
  | popped _ _ => cases h
  | called _ _ _ => cases h
  | _ => trivial

/-- Everything popped for the strategy is handed over. -/
def HandedOver (l : List Effect) : Prop :=
  ticksHanded l = ticksPopped l ∧ reportsHanded l = reportsPopped l

/-- After `event` everything is handed over, before the time moves on. -/
def Answered (pre : List Effect) (event : Event) (activeTimer : Option ℕ) (post : List Effect) :
    Prop :=
  ∃ mid, mid <+: post ∧ (∀ x ∈ mid, x.KeepsTo event.tsSim) ∧
    HandedOver (pre ++ .popped event activeTimer :: mid)

/-- Every wakeup of the trace is in the relation `P` to what precedes and what follows it. -/
def Wakeups (P : List Effect → Event → Option ℕ → List Effect → Prop) (l : List Effect) : Prop :=
  Everywhere (fun pre x post => ∀ event activeTimer, x = .popped event activeTimer →
    event.kind.isWakeup activeTimer = true → P pre event activeTimer post) l

/-- An event of a time after that of `event` follows. -/
def MovesOn (event : Event) (post : List Effect) : Prop :=
  ∃ later activeTimer, .popped later activeTimer ∈ post ∧ event.tsSim < later.tsSim

/-- Every wakeup is answered before an event of a later time is popped, and before the run ends. -/
def WakeupsOnTime (finished : Prop) (l : List Effect) : Prop :=
  Wakeups (fun pre event activeTimer post => finished ∨ MovesOn event post →
    Answered pre event activeTimer post) l

/-- Every wakeup is answered, or it is of the present time. -/
def Attended (now : ℤ) (l : List Effect) : Prop :=
  Wakeups (fun pre event activeTimer post => Answered pre event activeTimer post ∨
    event.tsSim = now ∧ ∀ x ∈ post, x.KeepsTo now) l

instance (t : ℤ) : DecidablePred (Effect.KeepsTo t) := fun x => by
  cases x <;> unfold Effect.KeepsTo <;> infer_instance

instance (event : Event) (post : List Effect) : Decidable (MovesOn event post) :=
  decidable_of_iff (post.any fun | .popped later _ => event.tsSim < later.tsSim | _ => false) <| by
    rw [List.any_eq_true]
    constructor
    · rintro ⟨x, hx, h⟩
      cases x with
      | popped later activeTimer => exact ⟨later, activeTimer, hx, of_decide_eq_true h⟩
      | _ => cases h
    · rintro ⟨later, activeTimer, hmem, hlt⟩
      exact ⟨_, hmem, decide_eq_true hlt⟩

instance (l : List Effect) : Decidable (HandedOver l) := by unfold HandedOver; infer_instance

instance (pre : List Effect) (event : Event) (activeTimer : Option ℕ) (post : List Effect) :
    Decidable (Answered pre event activeTimer post) :=
  decidable_of_iff (∃ mid ∈ post.inits, (∀ x ∈ mid, x.KeepsTo event.tsSim) ∧
    HandedOver (pre ++ .popped event activeTimer :: mid)) (by simp [Answered])

section Wakeups

variable {l l' : List Effect} {now : ℤ} {event : Event} {activeTimer : Option ℕ}

/-- A wakeup that is answered stays answered. -/
theorem Answered.append {pre post : List Effect} (h : Answered pre event activeTimer post)
    (post' : List Effect) : Answered pre event activeTimer (post ++ post') := by
  obtain ⟨mid, hmid, hrest⟩ := h
  exact ⟨mid, hmid.trans (List.prefix_append _ _), hrest⟩

/-- Wakeups stay answered while there are no new ones. -/
theorem wakeups_answered_append (h : Wakeups Answered l)
    (hno : ∀ event activeTimer, .popped event activeTimer ∈ l' →
      event.kind.isWakeup activeTimer = false) : Wakeups Answered (l ++ l') := by
  refine everywhere_append (fun pre x post heq event activeTimer hx hwakeup =>
    (h pre x post heq event activeTimer hx hwakeup).append l') ?_
  rintro pre x post rfl event activeTimer rfl hwakeup
  rw [hno event activeTimer (by simp)] at hwakeup
  cases hwakeup

/-- Work wakes nobody. -/
theorem wakeups_answered_work (h : Wakeups Answered l) (hwork : ∀ x ∈ l', x.isWork = true) :
    Wakeups Answered (l ++ l') := by
  refine wakeups_answered_append h fun event activeTimer hmem => ?_
  cases hwork _ hmem

/-- Effects of the present keep the last wakeup attended. -/
theorem Attended.append (h : Attended now l) (hkeeps : ∀ x ∈ l', x.KeepsTo now) :
    Attended now (l ++ l') := by
  refine everywhere_append (fun pre x post heq event activeTimer hx hwakeup => ?_)
    (fun pre x post heq event activeTimer hx _ => .inr ?_)
  · rcases h pre x post heq event activeTimer hx hwakeup with hans | ⟨hts, hpost⟩
    · exact .inl (hans.append l')
    · exact .inr ⟨hts, fun y hy => (List.mem_append.1 hy).elim (hpost y) (hkeeps y)⟩
  · subst heq hx
    exact ⟨hkeeps (.popped event activeTimer) (by simp), fun y hy => hkeeps y (by simp [hy])⟩

/-- When all wakeups are answered, none waits. -/
theorem attended_of_answered (h : Wakeups Answered l) (now : ℤ) : Attended now l :=
  fun pre x post heq event activeTimer hx hwakeup =>
    .inl (h pre x post heq event activeTimer hx hwakeup)

/-- Only the wakeups of the present time wait for their answer. -/
theorem Attended.onTime (h : Attended now l) : WakeupsOnTime False l := by
  intro pre x post heq event activeTimer hx hwakeup hmoves
  obtain ⟨later, timer, hmem, hlt⟩ := hmoves.resolve_left not_false
  rcases h pre x post heq event activeTimer hx hwakeup with hans | ⟨hts, hpost⟩
  · exact hans
  · have hlater : later.tsSim = now := hpost _ hmem
    omega

/-- A trace on time, at its entry `n`. -/
theorem WakeupsOnTime.answered_of_getElem {finished : Prop} {n : ℕ} (h : WakeupsOnTime finished l)
    (hpopped : l[n]?.bind Effect.poppedEvent = some (event, activeTimer))
    (hwakeup : event.kind.isWakeup activeTimer = true)
    (hmoves : finished ∨ MovesOn event (l.drop (n + 1))) :
    Answered (l.take n) event activeTimer (l.drop (n + 1)) := by
  obtain ⟨x, hx, heq⟩ := Option.bind_eq_some_iff.1 hpopped
  obtain ⟨hlt, rfl⟩ := List.getElem?_eq_some_iff.1 hx
  have hsplit : l = l.take n ++ l[n] :: l.drop (n + 1) := by
    rw [← List.drop_eq_getElem_cons, List.take_append_drop]
  refine h _ _ _ hsplit event activeTimer ?_ hwakeup hmoves
  cases hn : l[n] with
  | popped _ _ =>
    rw [hn] at heq
    cases heq
    rfl
  | _ =>
    rw [hn] at heq
    cases heq

/-- When everything is handed over, all wakeups are answered. -/
theorem Attended.answered (h : Attended now l) (hhanded : HandedOver l) : Wakeups Answered l := by
  intro pre x post heq event activeTimer hx hwakeup
  rcases h pre x post heq event activeTimer hx hwakeup with hans | ⟨hts, hpost⟩
  · exact hans
  · exact ⟨post, List.prefix_refl _, hts ▸ hpost, by rw [← hx, ← heq]; exact hhanded⟩

end Wakeups

/-! ## The handlers in batch mode -/

namespace Core

variable {Q S L R : Type} [QueueModel Q]

/-- Between `c` and `c'` the strategy is told the present time only, and a pending wakeup stays
pending. -/
structure Attends (c c' : Core Q S L R) : Prop where
  nowTsSim : c'.nowTsSim = c.nowTsSim
  pendingWakeup : c'.pendingWakeup = c.pendingWakeup
  effects : ∃ new, c'.effects = c.effects ++ new ∧ ∀ x ∈ new, x.KeepsTo c.nowTsSim

variable {t : ℤ} {c c' c'' : Core Q S L R}

namespace Attends

/-- A core that changes neither the time nor the pending wakeup nor the effects attends. -/
theorem of_eq (hnow : c'.nowTsSim = c.nowTsSim) (hpending : c'.pendingWakeup = c.pendingWakeup)
    (heffects : c'.effects = c.effects) : Attends c c' :=
  ⟨hnow, hpending, [], by simp [heffects], by simp⟩

theorem refl (c : Core Q S L R) : Attends c c := of_eq rfl rfl rfl

/-- Attending twice. -/
theorem trans (h : Attends c c') (h' : Attends c' c'') : Attends c c'' := by
  obtain ⟨new, heq, hnew⟩ := h.effects
  obtain ⟨new', heq', hnew'⟩ := h'.effects
  refine ⟨h'.nowTsSim.trans h.nowTsSim, h'.pendingWakeup.trans h.pendingWakeup, new ++ new',
    by rw [heq', heq, List.append_assoc], fun x hx => ?_⟩
  rcases List.mem_append.1 hx with hx | hx
  · exact hnew x hx
  · exact h.nowTsSim ▸ hnew' x hx

/-- The exchange side attends to the present. -/
theorem of_quiet (h : Quiet t c c') : Attends c c' := by
  obtain ⟨new, heq, hquiet, -⟩ := h.effects
  exact ⟨h.nowTsSim, h.pendingWakeup, new, heq,
    fun x hx => Effect.keepsTo_of_isQuiet (hquiet x hx) _⟩

end Attends

/-- A push attends to the present. -/
theorem attends_pushAfter (c : Core Q S L R) (ts delay : ℤ) (kind : EventKind) :
    Attends c (c.pushAfter ts delay kind) := by
  rw [pushAfter_eq]
  refine ⟨rfl, rfl, _, rfl, fun x hx => ?_⟩
  unfold pushEffects at hx
  split_ifs at hx
  · obtain rfl := List.mem_singleton.1 hx
    trivial
  · rcases List.mem_pair.1 hx with rfl | rfl <;> trivial

variable [Strategy S]

/-- Waking the strategy attends to the present. -/
theorem attends_wake (c : Core Q S L R) (call : Call) (wakeup : Bool) :
    Attends c (c.wake call c.nowTsSim wakeup).1 := by
  have hcall : ∀ strategy, Attends c (c.afterCall call c.nowTsSim strategy) := fun strategy =>
    ⟨rfl, rfl, [.called call c.nowTsSim c.market], rfl, by simp [Effect.KeepsTo]⟩
  rcases wake_spec c call c.nowTsSim wakeup with ⟨err, h⟩ | ⟨strategy, commands, h⟩
  · rw [h]
    exact hcall _
  · rw [h]
    exact (hcall strategy).trans (.of_quiet (quiet_handleCommands (t := c.nowTsSim) _ commands))

/-- Waking the strategy does not return early. -/
theorem ne_ret_of_wake (c : Core Q S L R) (call : Call) (t : ℤ) (wakeup : Bool) :
    (c.wake call t wakeup).2 ≠ .ret := by
  rcases wake_spec c call t wakeup with ⟨err, h⟩ | ⟨strategy, commands, h⟩
  · simp [h]
  · simp [h]

/-- A flush attends to the present. -/
theorem attends_flushStrategy (c : Core Q S L R) : Attends c (c.flushStrategy c.nowTsSim).1 := by
  have hcalls : ∀ strategy (calls : List Call) tickBuffer reportBuffer,
      Attends c (c.disarmed.handed c.nowTsSim strategy calls tickBuffer reportBuffer) :=
    fun strategy calls _ _ => ⟨rfl, rfl, calls.map (Effect.called · c.nowTsSim c.market), rfl,
      by simp [Effect.KeepsTo]⟩
  have htune : ∀ c' : Core Q S L R, Attends c' c'.tune := by
    intro c'
    unfold tune
    split_ifs
    · exact .of_eq rfl rfl rfl
    · exact .refl c'
  rcases flushStrategy_spec c c.nowTsSim with
    ⟨-, -, h⟩ | ⟨strategy, calls, tickBuffer, err, -, h⟩ | ⟨strategy, commands, h⟩
  · rw [h]
    exact .refl c
  · rw [h]
    exact hcalls _ _ _ _
  · rw [h]
    exact ((hcalls _ _ _ _).trans
      (.of_quiet (quiet_handleCommands (t := c.nowTsSim) _ commands))).trans (htune _)

/-- Every handler attends to the present in batch mode. -/
theorem attends_handle [LatencyModel L R] (batch : c.config.mode = .batch) (kind : EventKind) :
    Attends c (c.handle kind).1 := by
  cases kind with
  | tick tick => exact .of_quiet (quiet_onTickEvent c tick)
  | tickDelivery tick =>
    have hbuffer : Attends c ((c.observeDelivery tick).bufferTick tick) := .of_eq rfl rfl rfl
    simp only [handle, onTickDelivery]
    split
    · next htick =>
      have hmode : c.config.mode = .tick := htick
      rw [batch] at hmode
      cases hmode
    · split_ifs
      · let c' := (c.observeDelivery tick).bufferTick tick
        have htimer : Attends c c'.nextTimer := hbuffer.trans (.of_eq rfl rfl rfl)
        exact htimer.trans (attends_pushAfter c'.nextTimer _ _ (.timer c'.nextTimerId))
      · exact hbuffer
  | l2Update update => exact .of_quiet (quiet_onL2Update (t := 0) c update)
  | l3Update update => exact .of_quiet (quiet_onL3Update (t := 0) c update)
  | order order => exact .of_quiet (quiet_onOrder c order)
  | orderAck orderId => exact .of_quiet (quiet_onOrderAck c orderId)
  | orderCancel orderId => exact .of_quiet (quiet_onOrderCancel c orderId)
  | orderCancelAck orderId => exact .of_quiet (quiet_onOrderCancelAck c orderId)
  | orderReport report =>
    have hforget : Attends c (c.forget report) := .of_quiet (quiet_forget (t := 0) c report)
    simp only [handle, onOrderReport]
    split
    · exact hforget.trans (attends_wake _ _ _)
    · exact hforget.trans (.of_eq rfl rfl rfl)
  | funding event =>
    have hfunding : Attends c (c.applyFunding event) :=
      .of_quiet (quiet_applyFunding (t := 0) c event)
    exact hfunding.trans (attends_wake _ _ _)
  | timer timerId =>
    simp only [handle, onTimer]
    split_ifs
    · exact .of_eq rfl rfl rfl
    · exact .refl c

/-- A wakeup asks for the flush, unless the strategy fails. -/
theorem flow_of_isWakeup [LatencyModel L R] (batch : c.config.mode = .batch) (kind : EventKind)
    (h : kind.isWakeup c.activeBatchTimerId = true) :
    (∃ err, (c.handle kind).2 = .fail err) ∨ (c.handle kind).2 = .next true := by
  cases kind with
  | orderReport report =>
    have hmode : (c.forget report).config.mode = .batch := by
      rw [(quiet_forget (t := 0) c report).config, batch]
    exact .inr (by simp only [handle, onOrderReport, hmode])
  | funding event =>
    have hmode : (c.applyFunding event).config.mode = .batch := by
      rw [(quiet_applyFunding (t := 0) c event).config, batch]
    simp only [handle, onFunding, hmode, decide_true]
    rcases wake_spec (c.applyFunding event) (.onFunding event) (c.applyFunding event).nowTsSim
      true with ⟨err, heq⟩ | ⟨strategy, commands, heq⟩
    · exact .inl ⟨_, congrArg Prod.snd heq⟩
    · exact .inr (congrArg Prod.snd heq)
  | timer timerId =>
    refine .inr ?_
    simp only [EventKind.isWakeup, decide_eq_true_eq] at h
    simp only [handle, onTimer, batch, h]
    rfl
  | _ => cases h

/-- `step` returns early at an acknowledgement or a cancel of an order that is not registered. -/
theorem unregistered_of_ret [LatencyModel L R] {kind : EventKind} (h : (c.handle kind).2 = .ret) :
    (c.handle kind).1 = c ∧ ∃ orderId, (kind = .orderAck orderId ∨ kind = .orderCancel orderId) ∧
      c.orderSymbolById[orderId]? = none := by
  cases kind with
  | orderAck orderId =>
    simp only [handle, onOrderAck] at h ⊢
    split at h
    · next hnone => exact ⟨rfl, orderId, .inl rfl, hnone⟩
    · split at h
      · cases h
      · split at h <;> cases h
  | orderCancel orderId =>
    simp only [handle, onOrderCancel] at h ⊢
    split at h
    · next hnone => exact ⟨rfl, orderId, .inr rfl, hnone⟩
    · split at h <;> cases h
  | orderCancelAck orderId =>
    simp only [handle, onOrderCancelAck] at h
    split at h
    · cases h
    · split at h <;> cases h
  | tickDelivery tick =>
    simp only [handle, onTickDelivery] at h
    split at h
    · exact absurd h (ne_ret_of_wake _ _ _ _)
    · split_ifs at h
  | l2Update update =>
    simp only [handle, onL2Update] at h
    split_ifs at h
  | l3Update update =>
    simp only [handle, onL3Update] at h
    split_ifs at h
    split at h <;> cases h
  | orderReport report =>
    simp only [handle, onOrderReport] at h
    split at h
    · exact absurd h (ne_ret_of_wake _ _ _ _)
    · cases h
  | funding event => exact absurd h (ne_ret_of_wake _ _ _ _)
  | timer timerId =>
    simp only [handle, onTimer] at h
    split_ifs at h
  | tick tick => cases h
  | order order => cases h

end Core

/-! ## Turns -/

namespace Engine

variable {T U Q S L R : Type} [QueueModel Q] {e : Engine T U Q S L R} {event : Event} {now : ℤ}

section Handlers

variable [Strategy S]

/-- A flush is work of the present. -/
theorem flush_attends (e : Engine T U Q S L R) : ∃ new, Works e e.flush.1 new ∧
    (∀ x ∈ new, x.KeepsTo e.core.nowTsSim) := by
  obtain ⟨new, hworks, -⟩ := flush_spec e
  obtain ⟨new', heq, hkeeps⟩ := (Core.attends_flushStrategy e.core.cleared).effects
  have hsame : new' = new := by
    refine List.append_cancel_left (Eq.trans ?_ hworks.trace)
    rw [← show (e.core.cleared.flushStrategy e.core.nowTsSim).1.effects = new' from heq]
    exact (trace_absorb e _).symm
  exact ⟨new, hworks, hsame ▸ hkeeps⟩

/-- An event is work of its time and leaves the pending wakeup alone. -/
theorem handleEvent_attends [LatencyModel L R] (batch : e.core.config.mode = .batch)
    (event : Event) :
    (∃ new, Works (e.popped event) (e.handleEvent event).1 new ∧
      ∀ x ∈ new, x.KeepsTo event.tsSim) ∧
    (e.handleEvent event).1.core.pendingWakeup = e.core.pendingWakeup := by
  let c := e.core.cleared.atTime event.tsSim
  have hattends : Core.Attends c (c.handle event.kind).1 :=
    Core.attends_handle (c := c) batch event.kind
  obtain ⟨new, hworks, -⟩ := handleEvent_spec e event
  obtain ⟨new', heq, hkeeps⟩ := hattends.effects
  have hsame : new' = new := by
    refine List.append_cancel_left (Eq.trans ?_ hworks.trace)
    rw [← show (c.handle event.kind).1.effects = new' from heq]
    exact (trace_absorb _ _).symm
  refine ⟨⟨new, hworks, hsame ▸ hkeeps⟩, ?_⟩
  have hcore : (e.handleEvent event).1.core = (c.handle event.kind).1.cleared := core_absorb _ _
  rw [hcore]
  exact hattends.pendingWakeup

end Handlers

variable [TickSource T] [L3Source U]

/-- Taking a record in hands nothing over. -/
theorem Received.ingest (h : e.Received) {ε : Type} : (e.ingest (ε := ε)).1.Received := by
  obtain ⟨hcore, new, htrace, hintake⟩ := e.ingest_frame (ε := ε)
  have hno : ∀ call t market, Effect.called call t market ∉ new := by
    intro call t market hmem
    cases hintake _ hmem
  have hpopped := poppedIn_of_isIntake hintake EventKind.any
  refine ⟨?_, ?_, hcore ▸ h.unbuffered⟩
  · rw [hcore, htrace, ticksHanded_append, ticksPopped_append, ticksHanded_eq_nil hno, ticksPopped,
      ticksPopped, hpopped, List.append_nil, List.flatMap_nil, List.append_nil]
    exact h.ticks
  · rw [hcore, htrace, reportsHanded_append, reportsPopped_append, reportsHanded_eq_nil hno,
      reportsPopped, reportsPopped, hpopped, List.append_nil, List.flatMap_nil, List.append_nil]
    exact h.reports

/-- With nothing buffered, everything is handed over. -/
theorem Received.handedOver (h : e.Received) (htick : e.core.tickBuffer = [])
    (hreport : e.core.reportBuffer = []) : HandedOver e.trace := by
  constructor
  · rw [← h.ticks, htick, List.append_nil]
  · rw [← h.reports, hreport, List.append_nil]

/-- Taking an update in is not settled. -/
theorem ingestL3_ne_settled {ε : Type} (e : Engine T U Q S L R) (i : ℕ) :
    (e.ingestL3 (ε := ε) i).2 ≠ .settled := by
  unfold ingestL3
  split
  · simp
  · simp
  · dsimp only
    split <;> simp

/-- Taking a tick in is not settled. -/
theorem ingestTick_ne_settled {ε : Type} (e : Engine T U Q S L R) (i : ℕ) :
    (e.ingestTick (ε := ε) i).2 ≠ .settled := by
  unfold ingestTick
  split
  · simp
  · simp
  · dsimp only
    split <;> simp

/-- The next record depends on the sources and on the next time of the queue. -/
theorem nextRecord_congr {e' : Engine T U Q S L R} (hticks : e'.ticks = e.ticks)
    (hl3 : e'.l3 = e.l3) (hts : e'.nextQueueTs = e.nextQueueTs) : e'.nextRecord = e.nextRecord := by
  unfold nextRecord
  rw [hticks, hl3, hts]

/-- A pass that takes nothing in changes the sources only, and the next pass takes nothing in either
unless the head of the queue has another time. -/
theorem ingest_settled {ε : Type} {e₁ : Engine T U Q S L R}
    (h : e.ingest (ε := ε) = (e₁, .settled)) :
    (e₁.queue = e.queue ∧ e₁.core = e.core ∧ e₁.trace = e.trace) ∧ e₁.nextRecord = none ∧
      ∀ e₂ : Engine T U Q S L R, e₂.ticks = e₁.ticks → e₂.l3 = e₁.l3 → e₂.nextRecord = none →
        e₂.ingest (ε := ε) = (e₂, .settled) := by
  cases hticks : e.ticks.init with
  | error err =>
    rw [ingest, hticks] at h
    cases h
  | ok ticks =>
    cases hl3 : e.l3.init with
    | error err =>
      simp only [ingest, hticks, hl3] at h
      cases h
    | ok l3 =>
      simp only [ingest, hticks, hl3] at h
      split at h
      · next pe hnext => exact absurd (congrArg Prod.snd h) (ingestL3_ne_settled _ _)
      · next pe hnext => exact absurd (congrArg Prod.snd h) (ingestTick_ne_settled _ _)
      · next hnext =>
        cases h
        refine ⟨⟨rfl, rfl, rfl⟩, hnext, fun e₂ hticks₂ hl3₂ hnext₂ => ?_⟩
        obtain ⟨core₂, queue₂, ticks₂, l3₂, trace₂⟩ := e₂
        obtain rfl : ticks₂ = ticks := hticks₂
        obtain rfl : l3₂ = l3 := hl3₂
        simp only [ingest, SourceQueue.init_init hticks, SourceQueue.init_init hl3, hnext₂]

variable [Strategy S] [LatencyModel L R]

/-- No record is taken in next, and the event popped next is of the present time. -/
def AtOnce (e : Engine T U Q S L R) : Prop :=
  (e.ingest (ε := Strategy.Error S)).2 ≠ .ingested ∧
    ∀ event queue, (e.ingest (ε := Strategy.Error S)).1.queue.pop = some (event, queue) →
      event.tsSim = e.core.nowTsSim

/-- A turn does not leave a pending wakeup behind : when it pops an acknowledgement or a cancel of
an order that is not registered while something is buffered, another event of that time waits, or
nothing is left to pop. -/
def KeepsWakeup (e : Engine T U Q S L R) : Prop :=
  ∀ e₁ event queue orderId, e.ingest (ε := Strategy.Error S) = (e₁, .settled) →
    e₁.queue.pop = some (event, queue) →
    event.kind = .orderAck orderId ∨ event.kind = .orderCancel orderId →
    e.core.orderSymbolById[orderId]? = none → e.core.pendingWakeup = true → e.Buffered →
    queue.peek.map Event.tsSim = some event.tsSim ∨
      queue.peek = none ∧ (e₁.withQueue queue).nextRecord = none

/-- What holds as long as a run in batch mode goes on : all wakeups are answered, or one is pending
and the next event popped is of its time. -/
structure Punctual (e : Engine T U Q S L R) : Prop where
  received : e.Received
  batch : e.core.config.mode = .batch
  wakeups : Wakeups Answered e.trace ∨
    e.core.pendingWakeup = true ∧ Attended e.core.nowTsSim e.trace ∧ e.AtOnce

/-- A punctual engine attends to its last wakeup. -/
theorem Punctual.attended (h : e.Punctual) : Attended e.core.nowTsSim e.trace := by
  rcases h.wakeups with hanswered | ⟨-, hattended, -⟩
  · exact attended_of_answered hanswered _
  · exact hattended

/-- While the sources stay settled, an event of the present time at the head of the queue is popped
next. -/
theorem atOnce_of_peek {e₁ e₂ : Engine T U Q S L R}
    (h : e.ingest (ε := Strategy.Error S) = (e₁, .settled)) (hticks : e₂.ticks = e₁.ticks)
    (hl3 : e₂.l3 = e₁.l3) (hnow : e₁.nextQueueTs = e₂.core.nowTsSim)
    (hpeek : e₂.queue.peek.map Event.tsSim = some e₂.core.nowTsSim ∨
      e₂.queue.peek = none ∧ e₂.nextRecord = none) : e₂.AtOnce := by
  obtain ⟨-, hnext, hsettles⟩ := ingest_settled h
  have hnext₂ : e₂.nextRecord = none := by
    rcases hpeek with hpeek | ⟨-, hnext₂⟩
    · have hts : e₂.nextQueueTs = e₁.nextQueueTs := by
        rw [hnow, nextQueueTs, hpeek, Option.getD_some]
      rw [nextRecord_congr hticks hl3 hts, hnext]
    · exact hnext₂
  have hingest := hsettles e₂ hticks hl3 hnext₂
  refine ⟨by simp [hingest], fun event queue hpop => ?_⟩
  rw [hingest] at hpop
  have hhead := EventQueue.peek_of_pop hpop
  rcases hpeek with hpeek | ⟨hpeek, -⟩
  · rw [hhead] at hpeek
    exact Option.some_inj.1 hpeek
  · rw [hhead] at hpeek
    cases hpeek

/-- The end of `step` answers the pending wakeups, or leaves them to the next event of the time. -/
theorem punctual_deferredFlush (wakeup : Bool) (received : e.Received)
    (batch : e.core.config.mode = .batch) (attended : Attended e.core.nowTsSim e.trace)
    (answered : wakeup = false → e.core.pendingWakeup = false → Wakeups Answered e.trace)
    (atOnce : e.queue.peek.map Event.tsSim = some e.core.nowTsSim →
      (e.setPendingWakeup true).AtOnce) :
    Attended e.core.nowTsSim (e.deferredFlush wakeup).1.trace ∧
      ((e.deferredFlush wakeup).2 = none → (e.deferredFlush wakeup).1.Punctual) := by
  obtain ⟨new, hworks, hkeeps⟩ := flush_attends e
  have hflush : Attended e.core.nowTsSim e.flush.1.trace := hworks.trace ▸ attended.append hkeeps
  unfold deferredFlush
  split_ifs with hasked hlast
  · split
    · next e' err heq =>
      rw [heq] at hflush
      exact ⟨hflush, fun hnone => by cases hnone⟩
    · next e' heq =>
      obtain ⟨hreceived, htick, hreport⟩ := received.flush (congrArg Prod.snd heq)
      rw [heq] at hreceived htick hreport hflush hworks
      refine ⟨hflush, fun _ => ⟨hreceived.setPendingWakeup false, hworks.mode.trans batch, .inl ?_⟩⟩
      exact hflush.answered (hreceived.handedOver htick hreport)
  · refine ⟨attended, fun _ => ⟨received.setPendingWakeup true, batch, .inr ⟨rfl, attended, ?_⟩⟩⟩
    exact atOnce (not_ne_iff.1 hlast)
  · have hidle : ¬(wakeup = true ∨ e.core.pendingWakeup = true) := fun h => hasked ⟨batch, h⟩
    rw [not_or, Bool.not_eq_true, Bool.not_eq_true] at hidle
    exact ⟨attended, fun _ => ⟨received, batch, .inl (answered hidle.1 hidle.2)⟩⟩

section Event

/-- An event of the same time keeps the last wakeup attended. -/
theorem attended_handleEvent (batch : e.core.config.mode = .batch)
    (h : Attended event.tsSim e.trace) :
    Attended event.tsSim (e.handleEvent event).1.trace := by
  obtain ⟨⟨new, hworks, hnew⟩, -⟩ := handleEvent_attends batch event
  rw [hworks.trace]
  have hpopped : Attended event.tsSim (e.trace ++ [.popped event e.core.activeBatchTimerId]) :=
    h.append (by simp [Effect.KeepsTo])
  exact hpopped.append hnew

/-- An event that wakes nobody leaves all wakeups answered. -/
theorem answered_handleEvent (batch : e.core.config.mode = .batch) (h : Wakeups Answered e.trace)
    (hno : event.kind.isWakeup e.core.activeBatchTimerId = false) :
    Wakeups Answered (e.handleEvent event).1.trace := by
  obtain ⟨⟨new, hworks, -⟩, -⟩ := handleEvent_attends batch event
  rw [hworks.trace]
  refine wakeups_answered_work (wakeups_answered_append h fun event' timer hmem => ?_) hworks.isWork
  obtain ⟨rfl, rfl⟩ : event' = event ∧ timer = e.core.activeBatchTimerId := by simpa using hmem
  exact hno

/-- An early return leaves everything but the time as it is. -/
theorem handleEvent_ret (h : (e.handleEvent event).2 = .ret) :
    (e.handleEvent event).1 = { e.popped event with core := (e.core.atTime event.tsSim).cleared } ∧
      ∃ orderId, (event.kind = .orderAck orderId ∨ event.kind = .orderCancel orderId) ∧
        e.core.orderSymbolById[orderId]? = none := by
  obtain ⟨hsame, hid⟩ := Core.unregistered_of_ret (c := e.core.cleared.atTime event.tsSim) h
  refine ⟨?_, hid⟩
  change (e.log _).absorb ((e.core.cleared.atTime event.tsSim).handle event.kind).1 = _
  rw [hsame]
  rfl

/-- An event handled while no wakeup is late leaves no wakeup late. -/
theorem punctual_dispatch (received : e.Received) (batch : e.core.config.mode = .batch)
    (wakeups : Wakeups Answered e.trace ∨
      e.core.pendingWakeup = true ∧ Attended event.tsSim e.trace)
    (keeps : ∀ orderId, event.kind = .orderAck orderId ∨ event.kind = .orderCancel orderId →
      e.core.orderSymbolById[orderId]? = none → e.core.pendingWakeup = true → e.Buffered →
      e.queue.peek.map Event.tsSim = some event.tsSim ∨
        e.queue.peek = none ∧ e.nextRecord = none)
    (atOnce : ∀ e' : Engine T U Q S L R, e'.ticks = e.ticks → e'.l3 = e.l3 →
      e'.core.nowTsSim = event.tsSim →
      e'.queue.peek.map Event.tsSim = some event.tsSim ∨
        e'.queue.peek = none ∧ e'.nextRecord = none → e'.AtOnce) :
    Attended event.tsSim (e.dispatch event).1.trace ∧
      ((e.dispatch event).2 = none → (e.dispatch event).1.Punctual) := by
  have hattended : Attended event.tsSim e.trace := by
    rcases wakeups with hanswered | ⟨-, hattended⟩
    · exact attended_of_answered hanswered _
    · exact hattended
  have hattended' := attended_handleEvent batch hattended
  have hreceived := received.handleEvent event
  obtain ⟨⟨new, hworks, -⟩, hpending⟩ := handleEvent_attends batch event
  have hnow : (e.handleEvent event).1.core.nowTsSim = event.tsSim := hworks.nowTsSim
  have hmode : (e.handleEvent event).1.core.config.mode = .batch := hworks.mode.trans batch
  have hsources : (e.handleEvent event).1.ticks = e.ticks ∧ (e.handleEvent event).1.l3 = e.l3 := by
    simp [handleEvent]
  have hret : (e.handleEvent event).2 = .ret → _ := handleEvent_ret
  have hwakeup := Core.flow_of_isWakeup (c := e.core.cleared.atTime event.tsSim) batch
    event.kind
  change event.kind.isWakeup e.core.activeBatchTimerId = true →
    (∃ err, (e.handleEvent event).2 = .fail err) ∨ (e.handleEvent event).2 = .next true at hwakeup
  have hanswered : Wakeups Answered e.trace →
    event.kind.isWakeup e.core.activeBatchTimerId = false →
      Wakeups Answered (e.handleEvent event).1.trace := answered_handleEvent batch
  unfold dispatch
  generalize e.handleEvent event = handled at *
  obtain ⟨e', err | _ | wakeup⟩ := handled
  · exact ⟨hattended', fun hnone => by cases hnone⟩
  · obtain ⟨rfl, orderId, hkind, hunknown⟩ := hret rfl
    refine ⟨hattended', fun _ => ⟨hreceived, hmode, ?_⟩⟩
    rcases wakeups with hans | ⟨hpend, -⟩
    · have hno : event.kind.isWakeup e.core.activeBatchTimerId = false := by
        rcases hkind with h | h <;> rw [h] <;> rfl
      exact .inl (hanswered hans hno)
    · by_cases hbuffered : e.Buffered
      · refine .inr ⟨hpend, hattended', atOnce _ rfl rfl rfl ?_⟩
        exact keeps orderId hkind hunknown hpend hbuffered
      · have hempty : e.core.tickBuffer = [] ∧ e.core.reportBuffer = [] := by
          simpa using not_or.1 fun h => hbuffered ⟨batch, h⟩
        exact .inl (hattended'.answered (hreceived.handedOver hempty.1 hempty.2))
  · have hflush := punctual_deferredFlush wakeup hreceived hmode (hnow ▸ hattended')
    rw [hnow] at hflush
    refine hflush ?_ fun hpeek => atOnce _ hsources.1 hsources.2 hnow (.inl hpeek)
    rintro rfl hidle
    rcases wakeups with hans | ⟨hpend, -⟩
    · refine hanswered hans (Bool.eq_false_iff.2 fun h => ?_)
      rcases hwakeup h with ⟨err, hflow⟩ | hflow <;> cases hflow
    · rw [hpending, hpend] at hidle
      cases hidle

end Event

/-- A turn of a run that keeps its wakeups leaves no wakeup late, and answers all when it is the
last. -/
theorem Punctual.turn (h : e.Punctual) (hkeeps : e.KeepsWakeup) :
    (∃ now, Attended now e.turn.1.trace) ∧ (e.turn.2 = .running → e.turn.1.Punctual) ∧
      (e.turn.2 = .finished → Wakeups Answered e.turn.1.trace) := by
  obtain ⟨e₁, pass, hingest, hturn⟩ := turn_cases e
  have hreceived := h.received.ingest (ε := Strategy.Error S)
  obtain ⟨hcore, new, htrace, hintake⟩ := e.ingest_frame (ε := Strategy.Error S)
  rw [hingest] at hreceived hcore htrace
  have hattended : Attended e.core.nowTsSim e₁.trace := by
    rw [htrace]
    exact h.attended.append fun x hx => Effect.keepsTo_of_isIntake (hintake x hx) _
  have hbatch : e₁.core.config.mode = .batch := by rw [hcore, h.batch]
  rcases hturn with ⟨hpass, hturn, hst⟩ | ⟨rfl, event, queue, hpop, hturn⟩ | ⟨rfl, hpop, hturn⟩ |
    ⟨rfl, hpop, hturn, hleft⟩
  · refine ⟨⟨_, hturn ▸ hattended⟩, fun hrunning => ?_, fun hf => absurd hf hst⟩
    rw [hturn]
    refine ⟨hreceived, hbatch, ?_⟩
    rcases h.wakeups with hanswered | ⟨-, -, honly, -⟩
    · rw [htrace]
      refine .inl (wakeups_answered_append hanswered fun event timer hmem => ?_)
      cases hintake _ hmem
    · rw [hingest] at honly
      rw [Engine.turn, hingest] at hrunning
      cases pass with
      | ingested => exact absurd rfl honly
      | settled => exact absurd rfl hpass
      | fault err => cases hrunning
  · obtain ⟨⟨hqueue, -, htrace₁⟩, hnext, -⟩ := ingest_settled hingest
    have hts : e₁.nextQueueTs = event.tsSim := by
      rw [nextQueueTs, EventQueue.peek_of_pop hpop]
      rfl
    have hwakeups : Wakeups Answered e₁.trace ∨
        e₁.core.pendingWakeup = true ∧ Attended event.tsSim e₁.trace := by
      rw [hcore, htrace₁]
      rcases h.wakeups with hanswered | ⟨hpending, hattended, -, honly⟩
      · exact .inl hanswered
      · rw [hingest] at honly
        rw [honly event queue hpop]
        exact .inr ⟨hpending, hattended⟩
    obtain ⟨hlate, hpunctual⟩ := punctual_dispatch (e := e₁.withQueue queue)
      ⟨hreceived.ticks, hreceived.reports, hreceived.unbuffered⟩ hbatch hwakeups
      (fun orderId hkind hunknown hpending hbuffered => by
        change e₁.core.orderSymbolById[orderId]? = none at hunknown
        change e₁.core.pendingWakeup = true at hpending
        change e₁.Buffered at hbuffered
        rw [Buffered, hcore] at hbuffered
        rw [hcore] at hunknown hpending
        exact hkeeps e₁ event queue orderId hingest hpop hkind hunknown hpending hbuffered)
      (fun e' hticks hl3 hnow hpeek => by
        rw [← hnow] at hpeek
        exact atOnce_of_peek hingest hticks hl3 (hts.trans hnow.symm) hpeek)
    rw [hturn]
    refine ⟨⟨_, hlate⟩, fun hrunning => hpunctual ?_, fun hf => absurd hf (statusOf_ne_finished _)⟩
    exact statusOf_eq_running.1 hrunning
  · obtain ⟨new', hworks, hkeeps'⟩ := flush_attends e₁
    have hflush : Attended e.core.nowTsSim e₁.flush.1.trace := by
      rw [hworks.trace]
      exact hattended.append (hcore ▸ hkeeps')
    rw [hturn]
    refine ⟨⟨_, hflush⟩, fun hrunning => ?_, fun hf => absurd hf (statusOf_ne_finished _)⟩
    obtain ⟨hreceived', htick, hreport⟩ := hreceived.flush (statusOf_eq_running.1 hrunning)
    exact ⟨hreceived', hworks.mode.trans hbatch,
      .inl (hflush.answered (hreceived'.handedOver htick hreport))⟩
  · have hempty : e₁.core.tickBuffer = [] ∧ e₁.core.reportBuffer = [] := by
      simpa using not_or.1 fun h => hleft ⟨hbatch, h⟩
    rw [hturn]
    exact ⟨⟨_, hattended⟩, fun hrunning => (by cases hrunning),
      fun _ => hattended.answered (hreceived.handedOver hempty.1 hempty.2)⟩

/-- In a run in batch mode, a wakeup is answered before an event of a later time is popped and
before the run ends, as long as no turn leaves a pending wakeup behind. -/
theorem wakeups_on_time [SeedableRng R] {allowed : ℤ → EventKind → Prop} {e₀ : Engine T U Q S L R}
    {st : Status (EngineError (Strategy.Error S))} (built : Built allowed e₀)
    (batch : e₀.core.config.mode = .batch) (h : ReachesWhile KeepsWakeup turn closed e₀ e st) :
    WakeupsOnTime (st = .finished) e.trace := by
  have start : e₀.Punctual := by
    refine ⟨built.received, batch, .inl ?_⟩
    have hnil := built.poppedIn_trace EventKind.any
    rintro pre x post heq event timer rfl -
    have hmem : (event.tsSim, event.kind) ∈ poppedIn EventKind.any e₀.trace :=
      mem_poppedIn.2 ⟨rfl, event, timer, by simp [heq], rfl⟩
    rw [hnil] at hmem
    cases hmem
  have hrun : (∃ now, Attended now e.trace) ∧ (st = .running → e.Punctual) ∧
      (st = .finished → Wakeups Answered e.trace) := by
    induction h with
    | start => exact ⟨⟨_, start.attended⟩, fun _ => start, fun hf => (by cases hf)⟩
    | turn _ hok ih => exact (ih.2.1 rfl).turn hok
    | env _ hf => exact hf.elim
  obtain ⟨⟨now, hattended⟩, -, hfinished⟩ := hrun
  intro pre x post heq event timer hx hwakeup hmoves
  rcases hmoves with hst | hmoves
  · exact hfinished hst pre x post heq event timer hx hwakeup
  · exact hattended.onTime pre x post heq event timer hx hwakeup (.inr hmoves)

/-- With no wakeup pending, or no acknowledgement and no cancel in the queue, there is nothing to
leave behind. -/
theorem keepsWakeup_of_waiting (h : e.core.pendingWakeup = false ∨
    e.queue.waiting (fun | .orderAck _ | .orderCancel _ => true | _ => false) = []) :
    e.KeepsWakeup := by
  intro e₁ event queue orderId hingest hpop hkind _ hpending _
  rcases h with h | h
  · rw [hpending] at h
    cases h
  · rw [← (ingest_settled hingest).1.1, EventQueue.waiting_pop hpop] at h
    rcases hkind with hkind | hkind <;> simp [hkind] at h

/-- The strategy answers a funding event with an order, and the flush waits for that order. -/
theorem wakeups_on_time_sample :
    let tick : Tick := ⟨1000, 1000, 0, 100, 1, 1, .buy, 0⟩
    let order : Order := ⟨0, 0, 0, 0, 100, 1, 1, .buy, .limit⟩
    let e₀ := (sample { mode := .batch } 10 [[.submitOrder order]] [[tick]]).pushEvent 2000
      (.funding ⟨2000, 1, 1⟩)
    WakeupsOnTime ((runFor turn 15 e₀).2 = .finished) (runFor turn 15 e₀).1.trace := by
  intro tick order e₀
  have built : Built (fun _ _ => True) e₀ :=
    .external (.external (.new _ _ _ _ _) (.addTickSource [tick])) (.pushEvent trivial)
  have hturns : ∀ n < 15, (runFor turn n e₀).1.core.pendingWakeup = false ∨
      (runFor turn n e₀).1.queue.waiting
        (fun | .orderAck _ | .orderCancel _ => true | _ => false) = [] := by decide +kernel
  exact wakeups_on_time built rfl
    (reachesWhile_runFor e₀ 15 fun n hn => keepsWakeup_of_waiting (hturns n hn))

/-- The strategy answers a funding event at `2000` with a cancel of an unknown order : the tick that
is buffered at `2000` is handed over at `3000`. -/
theorem late_wakeup :
    let first : Tick := ⟨1000, 1000, 0, 100, 1, 1, .buy, 0⟩
    let second : Tick := ⟨3000, 3000, 1, 100, 1, 1, .buy, 0⟩
    let e₀ := (sample { mode := .batch } 10 [[.cancelOrder 99]] [[first, second]]).pushEvent 2000
      (.funding ⟨2000, 1, 1⟩)
    ∃ e, Reaches turn closed e₀ e .finished ∧ ¬WakeupsOnTime False e.trace := by
  intro first second e₀
  have hpopped : (runFor turn 15 e₀).1.trace[6]?.bind Effect.poppedEvent =
      some (⟨⟨2000, 0⟩, .funding ⟨2000, 1, 1⟩⟩, none) := by decide +kernel
  have hmoves :
      MovesOn ⟨⟨2000, 0⟩, .funding ⟨2000, 1, 1⟩⟩ ((runFor turn 15 e₀).1.trace.drop 7) := by
    decide +kernel
  have hlate :
    ¬Answered ((runFor turn 15 e₀).1.trace.take 6) ⟨⟨2000, 0⟩, .funding ⟨2000, 1, 1⟩⟩ none
      ((runFor turn 15 e₀).1.trace.drop 7) := by decide +kernel
  exact ⟨(runFor turn 15 e₀).1, reaches_of_runFor 15 (by decide +kernel),
    fun h => hlate (h.answered_of_getElem hpopped rfl (.inr hmoves))⟩

end Engine

end Backtester
