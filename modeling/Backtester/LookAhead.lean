import Backtester.ReportProtocol

/-!
# No look-ahead

The strategy is shown nothing but ticks whose delivery was popped (`Engine.Shown`), and it is called
at a time that is not earlier than anything popped before (`Engine.Chronicled`). A delivery is
scheduled after its tick and not for an earlier time, so it is popped after the tick was
(`Engine.Heralds`). In the other direction, an order is sent when it is submitted, arrives then, and
is acknowledged one latency later, before any of its fills (`Life.ack_of_filled`). The ACK is due at
the sum of the two unless the sum saturates, which a run without overflow excludes
(`Engine.InRange`).
-/

open Run StableSort History

set_option linter.unusedSectionVars false

namespace Backtester

/-! ## What the strategy sees -/

/-- The ticks that a call hands over, and those of the market view, satisfy `P`. -/
def Effect.Shows (P : Tick → Prop) : Effect → Prop
  | called call _ market =>
    (∀ tick ∈ call.ticks, P tick) ∧ ∀ s tick, market.lastTrade s = some tick → P tick
  | _ => True

/-- What shows only ticks of a kind shows only ticks of any larger kind. -/
theorem Effect.Shows.mono {P P' : Tick → Prop} {x : Effect} (h : x.Shows P)
    (hPP' : ∀ tick, P tick → P' tick) : x.Shows P' := by
  cases x with
  | called call t market => exact ⟨fun tick ht => hPP' tick (h.1 tick ht), fun s tick ht =>
      hPP' tick (h.2 s tick ht)⟩
  | _ => trivial

/-- Quiet effects show nothing. -/
theorem Effect.shows_of_isQuiet {P : Tick → Prop} {x : Effect} (h : x.isQuiet = true) :
    x.Shows P := by
  cases x with
  | called call t market => cases h
  | _ => trivial

namespace Core

variable {Q S L R : Type} [QueueModel Q]

/-- The ticks that the core keeps for the strategy satisfy `P`. -/
structure Knows (P : Tick → Prop) (c : Core Q S L R) : Prop where
  market : ∀ s tick, c.market.lastTrade s = some tick → P tick
  buffer : ∀ tick ∈ c.tickBuffer, P tick

/-- Between `c` and `c'` the strategy sees ticks that satisfy `P`. -/
structure Reveals (P : Tick → Prop) (c c' : Core Q S L R) : Prop where
  knows : c'.Knows P
  effects : ∃ new, c'.effects = c.effects ++ new ∧ ∀ x ∈ new, x.Shows P

variable {P P' : Tick → Prop} {t : ℤ} {c c' c'' : Core Q S L R}

/-- What knows only ticks of a kind knows only ticks of any larger kind. -/
theorem Knows.mono (h : c.Knows P) (hPP' : ∀ tick, P tick → P' tick) : c.Knows P' :=
  ⟨fun s tick ht => hPP' tick (h.market s tick ht), fun tick ht => hPP' tick (h.buffer tick ht)⟩

namespace Reveals

/-- Nothing is revealed by doing nothing. -/
theorem refl (h : c.Knows P) : Reveals P c c := ⟨h, [], (List.append_nil _).symm, by simp⟩

/-- What is revealed first and what is revealed next. -/
theorem trans (h : Reveals P c c') (h' : Reveals P c' c'') : Reveals P c c'' := by
  obtain ⟨new, heq, hnew⟩ := h.effects
  obtain ⟨new', heq', hnew'⟩ := h'.effects
  exact ⟨h'.knows, new ++ new', by rw [heq', heq, List.append_assoc],
    fun x hx => (List.mem_append.1 hx).elim (hnew x) (hnew' x)⟩

/-- Quiet work reveals nothing. -/
theorem of_quiet (h : c.Knows P) (hq : Quiet t c c') : Reveals P c c' := by
  obtain ⟨new, heq, hquiet, -⟩ := hq.effects
  refine ⟨⟨?_, ?_⟩, new, heq, fun x hx => Effect.shows_of_isQuiet (hquiet x hx)⟩
  · rw [hq.market]
    exact h.market
  · rw [hq.tickBuffer]
    exact h.buffer

end Reveals

variable [Strategy S]

/-- Waking the strategy reveals the ticks of the call and the market view. -/
theorem reveals_wake (h : c.Knows P) {call : Call} (hcall : ∀ tick ∈ call.ticks, P tick) (t : ℤ)
    (wakeup : Bool) : Reveals P c (c.wake call t wakeup).1 := by
  have hmade : ∀ strategy, Reveals P c (c.afterCall call t strategy) := fun strategy =>
    ⟨⟨h.market, h.buffer⟩, [.called call t c.market], rfl, by
      rintro x hx
      obtain rfl := List.mem_singleton.1 hx
      exact ⟨hcall, h.market⟩⟩
  rcases wake_spec c call t wakeup with ⟨err, heq⟩ | ⟨strategy, commands, heq⟩
  · rw [heq]
    exact hmade c.strategy
  · rw [heq]
    exact (hmade strategy).trans
      (.of_quiet (hmade strategy).knows (quiet_handleCommands (t := t) _ commands))

/-- A flush shows what was buffered. -/
theorem reveals_flushStrategy (h : c.Knows P) (t : ℤ) : Reveals P c (c.flushStrategy t).1 := by
  have hmade : ∀ strategy calls tickBuffer reportBuffer, calls <+: c.handover →
      tickBuffer ⊆ c.tickBuffer →
      Reveals P c (c.disarmed.handed t strategy calls tickBuffer reportBuffer) := by
    intro strategy calls tickBuffer reportBuffer hcalls hbuffer
    refine ⟨⟨h.market, fun tick ht => h.buffer tick (hbuffer ht)⟩,
      calls.map (Effect.called · t c.market), rfl, fun x hx => ?_⟩
    obtain ⟨call, hcall, rfl⟩ := List.mem_map.1 hx
    refine ⟨fun tick ht => h.buffer tick ?_, h.market⟩
    rw [← handover_ticks]
    exact List.mem_flatMap.2 ⟨call, hcalls.subset hcall, ht⟩
  have htune : ∀ c' : Core Q S L R, c'.Knows P → Reveals P c' c'.tune := by
    intro c' h'
    unfold tune
    split_ifs
    · exact ⟨⟨h'.market, h'.buffer⟩, [], (List.append_nil _).symm, by simp⟩
    · exact .refl h'
  rcases flushStrategy_spec c t with
    ⟨-, -, heq⟩ | ⟨strategy, calls, tickBuffer, err, ⟨hcalls, hbuffer⟩, heq⟩ |
      ⟨strategy, commands, heq⟩
  · rw [heq]
    exact .refl h
  · rw [heq]
    exact hmade strategy calls tickBuffer _ hcalls hbuffer
  · rw [heq]
    have hhanded := hmade strategy c.handover [] [] (List.prefix_refl _) (List.nil_subset _)
    have hcarried := hhanded.trans
      (.of_quiet hhanded.knows (quiet_handleCommands (t := t) _ commands))
    exact hcarried.trans (htune _ hcarried.knows)

/-- The delivery of a tick reveals it. -/
theorem reveals_onTickDelivery (h : c.Knows P) {tick : Tick} (htick : P tick) :
    Reveals P c (c.onTickDelivery tick).1 := by
  have hmarket : ∀ s t, (c.market.onTickDelivery tick).lastTrade s = some t → P t := by
    intro s t ht
    rw [MarketView.lastTrade_onTickDelivery] at ht
    split_ifs at ht
    · exact Option.some.inj ht ▸ htick
    · exact h.market s t ht
  have hobserve : (c.observeDelivery tick).Knows P := ⟨hmarket, h.buffer⟩
  have hbuffer : ((c.observeDelivery tick).bufferTick tick).Knows P :=
    ⟨hmarket, fun t ht => (List.mem_append.1 ht).elim (h.buffer t) fun ht =>
      List.mem_singleton.1 ht ▸ htick⟩
  unfold onTickDelivery
  dsimp only
  split
  · have hcall : ∀ t ∈ (Call.onTick tick).ticks, P t := fun t ht => List.mem_singleton.1 ht ▸ htick
    have hwake := reveals_wake hobserve hcall tick.tsLocal false
    exact ⟨hwake.knows, hwake.effects⟩
  · split_ifs
    · unfold armTimer
      rw [pushAfter_eq]
      refine ⟨⟨hbuffer.market, hbuffer.buffer⟩, _, rfl, fun x hx => ?_⟩
      unfold pushEffects at hx
      split_ifs at hx
      · obtain rfl := List.mem_singleton.1 hx
        trivial
      · rcases List.mem_pair.1 hx with rfl | rfl <;> trivial
    · exact ⟨hbuffer, [], (List.append_nil _).symm, by simp⟩

/-- A handler shows what was kept, and the ticks of its event. -/
theorem reveals_handle [LatencyModel L R] (h : c.Knows P) {kind : EventKind}
    (hkind : ∀ tick ∈ kind.ticks, P tick) : Reveals P c (c.handle kind).1 := by
  cases kind with
  | tick tick => exact .of_quiet h (quiet_onTickEvent c tick)
  | tickDelivery tick => exact reveals_onTickDelivery h (hkind tick (List.mem_singleton_self _))
  | l2Update update => exact .of_quiet h (quiet_onL2Update (t := 0) c update)
  | l3Update update => exact .of_quiet h (quiet_onL3Update (t := 0) c update)
  | order order => exact .of_quiet h (quiet_onOrder c order)
  | orderAck orderId => exact .of_quiet h (quiet_onOrderAck c orderId)
  | orderCancel orderId => exact .of_quiet h (quiet_onOrderCancel c orderId)
  | orderCancelAck orderId => exact .of_quiet h (quiet_onOrderCancelAck c orderId)
  | orderReport report =>
    have hforget := Reveals.of_quiet (t := 0) h (quiet_forget c report)
    simp only [handle, onOrderReport]
    split
    · exact hforget.trans (reveals_wake hforget.knows (by simp [Call.ticks]) _ _)
    · exact ⟨⟨hforget.knows.market, hforget.knows.buffer⟩, hforget.effects⟩
  | funding event =>
    have hfunding := Reveals.of_quiet (t := 0) h (quiet_applyFunding c event)
    exact hfunding.trans (reveals_wake hfunding.knows (by simp [Call.ticks]) _ _)
  | timer timerId =>
    simp only [handle, onTimer]
    split_ifs
    · exact ⟨⟨h.market, h.buffer⟩, [], (List.append_nil _).symm, by simp⟩
    · exact .refl h

end Core

namespace Engine

variable {T U Q S L R : Type} [QueueModel Q] [TickSource T] [L3Source U]

/-- The ticks that the strategy was shown were popped before, and so were those that it may be
shown. -/
structure Shown (e : Engine T U Q S L R) : Prop where
  trace : Always (fun pre x => x.Shows (· ∈ ticksPopped pre)) e.trace
  core : e.core.Knows (· ∈ ticksPopped e.trace)

variable {e e' : Engine T U Q S L R}

/-- What was popped stays popped. -/
theorem mem_ticksPopped_append {l : List Effect} {tick : Tick} (h : tick ∈ ticksPopped l)
    (l' : List Effect) :
    tick ∈ ticksPopped (l ++ l') := by
  rw [ticksPopped_append]
  exact List.mem_append_left _ h

namespace Shown

/-- An effect that is no call. -/
theorem snoc (h : e.Shown) {x : Effect} (hcore : e'.core.Knows (· ∈ ticksPopped e.trace))
    (htrace : e'.trace = e.trace ++ [x]) (hx : ∀ P, x.Shows P) : e'.Shown := by
  refine ⟨?_, hcore.mono fun tick ht => ?_⟩
  · rw [htrace]
    exact always_snoc.2 ⟨h.trace, hx _⟩
  · rw [htrace]
    exact mem_ticksPopped_append ht [x]

/-- A core that reveals what was popped is absorbed. -/
theorem absorb (h : e.Shown) {c core : Core Q S L R} (heffects : c.effects = [])
    (hreveals : Core.Reveals (· ∈ ticksPopped e.trace) c core) : (e.absorb core).Shown := by
  obtain ⟨new, heq, hnew⟩ := hreveals.effects
  rw [heffects, List.nil_append] at heq
  have htrace : (e.absorb core).trace = e.trace ++ new := by rw [trace_absorb, heq]
  constructor
  · rw [htrace]
    refine always_append h.trace fun pre x post hsplit => (hnew x ?_).mono fun tick ht => ?_
    · rw [hsplit]
      exact List.mem_append_right _ List.mem_cons_self
    · exact mem_ticksPopped_append ht pre
  · rw [core_absorb, htrace]
    have hcore : core.cleared.Knows (· ∈ ticksPopped e.trace) :=
      ⟨hreveals.knows.market, hreveals.knows.buffer⟩
    exact hcore.mono fun tick ht => mem_ticksPopped_append ht new

variable [Strategy S]

/-- A flush shows what was popped. -/
theorem flush (h : e.Shown) : e.flush.1.Shown := by
  have hcleared : e.core.cleared.Knows (· ∈ ticksPopped e.trace) := ⟨h.core.market, h.core.buffer⟩
  exact h.absorb rfl (Core.reveals_flushStrategy hcleared _)

/-- A flush that may be put off shows what was popped. -/
theorem deferredFlush (h : e.Shown) (wakeup : Bool) : (e.deferredFlush wakeup).1.Shown := by
  have hflush := h.flush
  unfold Engine.deferredFlush
  split_ifs
  · split
    · next heq => rwa [heq] at hflush
    · next heq =>
      rw [heq] at hflush
      exact ⟨hflush.trace, ⟨hflush.core.market, hflush.core.buffer⟩⟩
  · exact ⟨h.trace, ⟨h.core.market, h.core.buffer⟩⟩
  · exact h

variable [LatencyModel L R]

/-- An event is popped before it is shown. -/
theorem handleEvent (h : e.Shown) (event : Event) : (e.handleEvent event).1.Shown := by
  let e₁ := e.log (.popped event e.core.activeBatchTimerId)
  have h₁ : e₁.Shown := h.snoc h.core rfl fun _ => trivial
  have hcore : (e.core.cleared.atTime event.tsSim).Knows (· ∈ ticksPopped e₁.trace) :=
    ⟨h₁.core.market, h₁.core.buffer⟩
  refine h₁.absorb rfl (Core.reveals_handle hcore fun tick ht => ?_)
  have hpopped : ticksPopped e₁.trace = ticksPopped e.trace ++ event.kind.ticks := by
    change ticksPopped (e.trace ++ [.popped event _]) = _
    rw [ticksPopped_append]
    congr 1
    rw [ticksPopped, poppedIn_singleton]
    exact List.append_nil _
  rw [hpopped]
  exact List.mem_append_right _ ht

/-- An event with its flush shows what was popped. -/
theorem dispatch (h : e.Shown) (event : Event) : (e.dispatch event).1.Shown := by
  have hhandled := h.handleEvent event
  unfold Engine.dispatch
  split
  · next heq => rwa [heq] at hhandled
  · next heq => rwa [heq] at hhandled
  · next heq =>
    rw [heq] at hhandled
    exact hhandled.deferredFlush _

/-- A turn shows what was popped. -/
theorem turn (h : e.Shown) : e.turn.1.Shown := by
  have hlog : ∀ (e e' : Engine T U Q S L R) (x : Effect), e.Shown → e'.core = e.core →
      e'.trace = e.trace ++ [x] → (∀ P, x.Shows P) → e'.Shown :=
    fun e e' x h hcore htrace hx => h.snoc (hcore ▸ h.core) htrace hx
  refine turn_preserves h (fun _ _ _ h => ⟨h.trace, h.core⟩) ?_ ?_ ?_ ?_ ?_
  · exact fun e record h => hlog e _ (.ingested record) h rfl rfl fun _ => trivial
  · exact fun e h => hlog e _ .overflow h rfl rfl fun _ => trivial
  · exact fun e ts kind _ h => hlog e _ (.scheduled ts kind) h rfl rfl fun _ => trivial
  · intro e event queue h _
    have hqueue : Shown { e with queue := queue } := ⟨h.trace, h.core⟩
    exact hqueue.dispatch event
  · exact fun e h _ => h.flush

end Shown

/-- At the start nothing was shown. -/
theorem Built.shown [SeedableRng R] {allowed : ℤ → EventKind → Prop} (h : Built allowed e) :
    e.Shown := by
  induction h with
  | new => exact ⟨always_nil, ⟨by simp [Engine.new, MarketView.lastTrade], by simp [Engine.new]⟩⟩
  | external _ hext ih =>
    cases hext with
    | addTickSource source => exact ⟨ih.trace, ih.core⟩
    | addL3Source source => exact ⟨ih.trace, ⟨ih.core.market, ih.core.buffer⟩⟩
    | pushEvent hallowed => exact ih.snoc ih.core rfl fun _ => trivial

end Engine

/-! ## The order of time -/

namespace Effect

/-- When an effect happens that others may come after. -/
def occursAt : Effect → Option ℤ
  | popped event _ => some event.tsSim
  | called _ t _ => some t
  | filled fill => some fill.tsExchange
  | _ => none

/-- The time that an effect is not earlier than anything before it : when it happens, or when an
order that it sends is due. -/
def notBefore : Effect → Option ℤ
  | scheduled ts (.order _) => some ts
  | x => x.occursAt

/-- The effect is not earlier than what came before it. -/
def Follows (pre : List Effect) (x : Effect) : Prop :=
  ∀ t ∈ x.notBefore, ∀ y ∈ pre, ∀ t' ∈ y.occursAt, t' ≤ t

/-- An effect that nothing must precede may follow anything. -/
theorem follows_of_none {pre : List Effect} {x : Effect} (h : x.notBefore = none) :
    x.Follows pre := by
  intro t ht
  rw [h] at ht
  cases ht

/-- Scheduling the market has no time of its own. -/
theorem timeless_of_isMarket {ts : ℤ} {kind : EventKind} (h : kind.isMarket = true) :
    (scheduled ts kind).notBefore = none ∧ (scheduled ts kind).occursAt = none := by
  cases kind <;> first | exact ⟨rfl, rfl⟩ | cases h

/-- Work at time `t` happens at `t`, and sends orders that are due then or later. -/
theorem Timely.times {t latency : ℤ} {x : Effect} (h : x.Timely t latency)
    (hwork : x.isWork = true) :
    (∀ t' ∈ x.occursAt, t' = t) ∧ ∀ t' ∈ x.notBefore, t ≤ t' := by
  cases x with
  | scheduled ts kind =>
    refine ⟨by simp [occursAt], ?_⟩
    cases kind with
    | order o =>
      rintro t' ⟨⟩
      exact h
    | _ => simp [notBefore, occursAt]
  | called call ts market =>
    obtain rfl : ts = t := h
    exact ⟨by rintro t' ⟨⟩; rfl, by rintro t' ⟨⟩; exact le_rfl⟩
  | filled fill =>
    obtain rfl : fill.tsExchange = t := h
    exact ⟨by rintro t' ⟨⟩; rfl, by rintro t' ⟨⟩; exact le_rfl⟩
  | popped event activeTimer => cases hwork
  | _ => exact ⟨by simp [occursAt], by simp [notBefore, occursAt]⟩

end Effect

/-- A record schedules events of the market. -/
theorem Record.isMarket_of_mem_events {r : Record} {config : EngineConfig} {x : ℤ × EventKind}
    (h : x ∈ r.events config) : x.2.isMarket = true := by
  cases r with
  | l3 update =>
    obtain rfl := List.mem_singleton.1 h
    rfl
  | tick tick => rcases List.mem_pair.1 h with rfl | rfl <;> rfl

namespace Engine

variable {T U Q S L R : Type} [QueueModel Q] [TickSource T] [L3Source U] {e e' : Engine T U Q S L R}
  {l3s l3s' : List (List L3Update)} {tks tks' : List (List Tick)}

/-- The trace is in the order of time, and nothing in it is later than all popped events. -/
structure Chronicled (e : Engine T U Q S L R) : Prop where
  follows : Always (fun pre x => x.Follows pre) e.trace
  popped : ∀ x ∈ e.trace, ∀ t ∈ x.occursAt, ∃ y ∈ poppedIn EventKind.any e.trace, t ≤ y.1

namespace Chronicled

/-- Effects that happen at no time. -/
theorem timeless (h : e.Chronicled) {new : List Effect} (htrace : e'.trace = e.trace ++ new)
    (hnew : ∀ x ∈ new, x.notBefore = none ∧ x.occursAt = none) : e'.Chronicled := by
  constructor
  · rw [htrace]
    refine always_append h.follows fun pre x post hsplit => Effect.follows_of_none (hnew x ?_).1
    rw [hsplit]
    exact List.mem_append_right _ List.mem_cons_self
  · rw [htrace]
    intro x hx t ht
    rcases List.mem_append.1 hx with hx | hx
    · obtain ⟨y, hy, hle⟩ := h.popped x hx t ht
      exact ⟨y, by rw [poppedIn_append]; exact List.mem_append_left _ hy, hle⟩
    · rw [(hnew x hx).2] at ht
      cases ht

/-- Work at a time that is not before anything popped. -/
theorem works (h : e.Chronicled) {t : ℤ} {new : List Effect} (hw : Works e e' new)
    (htime : TimelyAt t e new) (hno : Effect.overflow ∉ e'.trace)
    (hpast : ∀ y ∈ poppedIn EventKind.any e.trace, y.1 ≤ t)
    (hnow : ∃ y ∈ poppedIn EventKind.any e.trace, y.1 = t) : e'.Chronicled := by
  have hnew : Effect.overflow ∉ new := fun hmem =>
    hno (by rw [hw.trace]; exact List.mem_append_right _ hmem)
  have htimes : ∀ x ∈ new, (∀ t' ∈ x.occursAt, t' = t) ∧ ∀ t' ∈ x.notBefore, t ≤ t' :=
    fun x hx => (htime hnew x hx).times (hw.isWork x hx)
  constructor
  · rw [hw.trace]
    refine always_append h.follows fun pre x post hsplit t' ht' y hy t'' ht'' => ?_
    have hmem : ∀ z ∈ pre ++ [x], z ∈ new := fun z hz => by
      rw [hsplit]
      rcases List.mem_append.1 hz with hz | hz
      · exact List.mem_append_left _ hz
      · obtain rfl := List.mem_singleton.1 hz
        exact List.mem_append_right _ List.mem_cons_self
    have hle := (htimes x (hmem x (by simp))).2 t' ht'
    refine le_trans ?_ hle
    rcases List.mem_append.1 hy with hy | hy
    · obtain ⟨z, hz, hle'⟩ := h.popped y hy t'' ht''
      exact hle'.trans (hpast z hz)
    · exact ((htimes y (hmem y (by simp [hy]))).1 t'' ht'').le
  · rw [hw.poppedIn_trace, hw.trace]
    intro x hx t' ht'
    rcases List.mem_append.1 hx with hx | hx
    · exact h.popped x hx t' ht'
    · obtain ⟨y, hy, hyt⟩ := hnow
      exact ⟨y, hy, by rw [hyt, (htimes x hx).1 t' ht']⟩

/-- The head of the queue is popped. -/
theorem pop (h : e.Chronicled) (hclock : e.Clock l3s tks) {event : Event} {queue : EventQueue}
    (pop : e.queue.pop = some (event, queue)) : ((e.withQueue queue).popped event).Chronicled := by
  have htrace : ((e.withQueue queue).popped event).trace =
    e.trace ++ [.popped event e.core.activeBatchTimerId] := rfl
  have hpopped : poppedIn EventKind.any ((e.withQueue queue).popped event).trace =
      poppedIn EventKind.any e.trace ++ [(event.tsSim, event.kind)] := by
    rw [htrace, poppedIn_append, poppedIn_singleton]
    rfl
  constructor
  · rw [htrace]
    refine always_snoc.2 ⟨h.follows, ?_⟩
    rintro t ⟨⟩ y hy t' ht'
    obtain ⟨z, hz, hle⟩ := h.popped y hy t' ht'
    exact hle.trans (hclock.popped_le_tsSim pop z hz)
  · rw [hpopped, htrace]
    intro x hx t ht
    rcases List.mem_append.1 hx with hx | hx
    · obtain ⟨y, hy, hle⟩ := h.popped x hx t ht
      exact ⟨y, List.mem_append_left _ hy, hle⟩
    · obtain rfl := List.mem_singleton.1 hx
      obtain rfl := Option.some.inj ht
      exact ⟨_, List.mem_append_right _ (List.mem_singleton_self _), le_rfl⟩

variable [Strategy S] [LatencyModel L R]
  {r : Engine T U Q S L R × Status (EngineError (Strategy.Error S))}

/-- A turn goes on with the chronicle. -/
theorem turn (h : e.Chronicled) (hclock : e.Clock l3s tks) (hreporting : e.Reporting .running)
    (hturn : Turn e l3s tks r l3s' tks') (hno : Effect.overflow ∉ r.1.trace) : r.1.Chronicled := by
  cases hturn with
  | @ingest r l3s' tks' ticks l3 pick due =>
    obtain ⟨rest, htrace, hrest⟩ := trace_schedule e r
    refine h.timeless htrace fun x hx => ?_
    rcases List.mem_cons.1 hx with rfl | hx
    · exact ⟨rfl, rfl⟩
    · rcases hrest x hx with rfl | ⟨y, hy, rfl⟩
      · exact ⟨rfl, rfl⟩
      · exact Effect.timeless_of_isMarket (Record.isMarket_of_mem_events hy)
  | @event event queue ticks l3 pop later =>
    let e₁ := (e.withSources ticks l3).withQueue queue
    have hclock₁ := (hclock.withSources ticks l3).pop pop later
    have hchron₁ : (e₁.popped event).Chronicled :=
      Chronicled.pop (e := e.withSources ticks l3) ⟨h.follows, h.popped⟩
        (hclock.withSources ticks l3) pop
    obtain ⟨new, hw, htime⟩ := dispatch_spec e₁ event
    refine hchron₁.works hw (htime (hclock.workTime_of_pop pop)) hno hclock₁.now
      ⟨(event.tsSim, event.kind), ?_, rfl⟩
    change _ ∈ poppedIn EventKind.any (e.trace ++ [.popped event e.core.activeBatchTimerId])
    rw [poppedIn_append, poppedIn_singleton]
    exact List.mem_append_right _ (List.mem_singleton_self _)
  | flush ticks l3 pop later buffered =>
    have hchron₁ : (e.withSources ticks l3).Chronicled := ⟨h.follows, h.popped⟩
    obtain ⟨new, hw, htime⟩ := flush_spec (e.withSources ticks l3)
    have hreceived := hreporting.received (by simp)
    exact hchron₁.works hw htime hno hclock.now
      (hreporting.inOrder.now.resolve_left fun hnil => hreceived.popped_of_buffered buffered hnil.1)
  | finish ticks l3 pop later unbuffered => exact ⟨h.follows, h.popped⟩

end Chronicled

/-- At the start nothing has happened yet. -/
theorem Built.chronicled [SeedableRng R] (h : Built (fun _ kind => kind.isBackground = true) e) :
    e.Chronicled := by
  induction h with
  | new => exact ⟨always_nil, by simp [Engine.new]⟩
  | external _ hext ih =>
    cases hext with
    | addTickSource source => exact ⟨ih.follows, ih.popped⟩
    | addL3Source source => exact ⟨ih.follows, ih.popped⟩
    | @pushEvent ts kind hallowed =>
      refine ih.timeless (trace_pushEvent _ ts kind) fun x hx => ?_
      obtain rfl := List.mem_singleton.1 hx
      refine Effect.timeless_of_isMarket ?_
      cases kind <;> first | rfl | cases hallowed

/-! ## The truth before the delivery -/

/-- A delivery comes after the tick that it delivers. -/
def Heralded (config : EngineConfig) (pre : List (ℤ × EventKind)) (x : ℤ × EventKind) : Prop :=
  ∀ tick, x.2 = .tickDelivery tick →
    ∃ truth, tick = delivered config truth ∧ (truth.tsExchange, .tick truth) ∈ pre

/-- The deliveries are scheduled after their ticks, with the feed latency of `config`. -/
structure Heralds (config : EngineConfig) (e : Engine T U Q S L R) : Prop where
  scheduled : Always (Heralded config) (scheduledIn EventKind.any e.trace)
  feedLatency : e.core.config.feedLatencyNs = config.feedLatencyNs

variable {config : EngineConfig}

/-- Events that are no deliveries need no herald. -/
theorem always_heralded_append {l new : List (ℤ × EventKind)} (h : Always (Heralded config) l)
    (hnew : ∀ x ∈ new, x.2.isDelivery = false) : Always (Heralded config) (l ++ new) := by
  refine always_append h fun pre x post hsplit tick htick => ?_
  have hx := hnew x (by rw [hsplit]; exact List.mem_append_right _ List.mem_cons_self)
  rw [htick] at hx
  cases hx

namespace Heralds

/-- Events that are no deliveries may be scheduled. -/
theorem frame (h : e.Heralds config)
    (hcore : e'.core.config.feedLatencyNs = e.core.config.feedLatencyNs)
    {new : List (ℤ × EventKind)}
    (htrace : scheduledIn EventKind.any e'.trace = scheduledIn EventKind.any e.trace ++ new)
    (hnew : ∀ x ∈ new, x.2.isDelivery = false) : e'.Heralds config :=
  ⟨htrace ▸ always_heralded_append h.scheduled hnew, hcore.trans h.feedLatency⟩

/-- Work schedules no delivery. -/
theorem works (h : e.Heralds config) {new : List Effect} (hw : Works e e' new) :
    e'.Heralds config := by
  refine h.frame hw.feedLatency (by rw [hw.trace, scheduledIn_append]) fun x hx => ?_
  have hwork := hw.isWork _ (mem_scheduledIn.1 hx).2
  cases hkind : x.2 with
  | tickDelivery tick => rw [hkind] at hwork; cases hwork
  | _ => rfl

/-- A record schedules its truth before its delivery. -/
theorem schedule (h : e.Heralds config) (r : Record) : (e.schedule r).Heralds config := by
  have htrace := scheduledIn_schedule e r EventKind.any
  cases r with
  | l3 update =>
    refine h.frame (by rw [core_schedule]) htrace fun x hx => ?_
    obtain rfl := List.mem_singleton.1 (List.mem_of_mem_filter hx)
    rfl
  | tick tick =>
    refine ⟨?_, by rw [core_schedule]; exact h.feedLatency⟩
    have htruth : Always (Heralded config)
        (scheduledIn EventKind.any e.trace ++ [(tick.tsExchange, .tick tick)]) :=
      always_heralded_append h.scheduled fun x hx => by rw [List.mem_singleton.1 hx]; rfl
    have hevents : scheduledIn EventKind.any (e.schedule (.tick tick)).trace =
        (scheduledIn EventKind.any e.trace ++ [(tick.tsExchange, .tick tick)]) ++
          [(deliveryTs e.core.config tick, .tickDelivery (delivered e.core.config tick))] := by
      rw [htrace, List.append_assoc]
      rfl
    rw [hevents]
    refine always_snoc.2 ⟨htruth, ?_⟩
    rintro tick' ⟨⟩
    exact ⟨tick, by rw [delivered_congr h.feedLatency],
      List.mem_append_right _ (List.mem_singleton_self _)⟩

variable [Strategy S] [LatencyModel L R]
  {r : Engine T U Q S L R × Status (EngineError (Strategy.Error S))}

/-- A turn keeps every delivery heralded. -/
theorem turn (h : e.Heralds config) (hturn : Turn e l3s tks r l3s' tks') : r.1.Heralds config := by
  cases hturn with
  | ingest ticks l3 pick due => exact ⟨(h.schedule _).scheduled, (h.schedule _).feedLatency⟩
  | @event event queue ticks l3 pop later =>
    obtain ⟨new, hw, -⟩ := dispatch_spec ((e.withSources ticks l3).withQueue queue) event
    have hpopped : (((e.withSources ticks l3).withQueue queue).popped event).Heralds config := by
      refine ⟨?_, h.feedLatency⟩
      change Always _ (scheduledIn _ (e.trace ++ [.popped event e.core.activeBatchTimerId]))
      rw [scheduledIn_append]
      exact always_heralded_append h.scheduled (by simp [scheduledIn])
    exact hpopped.works hw
  | flush ticks l3 pop later buffered =>
    obtain ⟨new, hw, -⟩ := flush_spec (e.withSources ticks l3)
    have hsources : (e.withSources ticks l3).Heralds config := ⟨h.scheduled, h.feedLatency⟩
    exact hsources.works hw
  | finish ticks l3 pop later unbuffered => exact ⟨h.scheduled, h.feedLatency⟩

/-- On the clock, a tick is popped before its delivery is. -/
theorem popped (h : e.Heralds config) (hclock : e.Clock l3s tks) :
    Always (Heralded config) (poppedIn EventKind.any e.trace ++ e.queue.waiting EventKind.any) := by
  rw [hclock.agenda EventKind.any]
  have hmono : ∀ (pre pre' : List (ℤ × EventKind)) (x : ℤ × EventKind), pre ⊆ pre' →
      Heralded config pre x → Heralded config pre' x := fun pre pre' x hsub h tick htick => by
    obtain ⟨truth, heq, hmem⟩ := h tick htick
    exact ⟨truth, heq, hsub hmem⟩
  refine always_sortBy hmono fun pre x post hsplit tick htick => ?_
  obtain ⟨truth, rfl, hmem⟩ := h.scheduled pre x post hsplit tick htick
  have hdated := hclock.dated x (by rw [hsplit]; exact List.mem_append_right _ List.mem_cons_self)
  rw [htick] at hdated
  obtain ⟨hdue, hle⟩ := hdated
  refine ⟨truth, rfl, List.mem_filter.2 ⟨hmem, ?_⟩⟩
  rw [hdue]
  exact decide_eq_true hle

end Heralds

/-- At the start no delivery is scheduled. -/
theorem Built.heralds [SeedableRng R] (h : Built (fun _ kind => kind.isBackground = true) e) :
    e.Heralds e.core.config := by
  refine ⟨?_, rfl⟩
  induction h with
  | new => exact always_nil
  | external _ hext ih =>
    cases hext with
    | addTickSource source => exact ih
    | addL3Source source => exact ih
    | @pushEvent ts kind hallowed =>
      rw [trace_pushEvent, scheduledIn_append]
      refine always_heralded_append ih fun x hx => ?_
      obtain ⟨-, hmem⟩ := mem_scheduledIn.1 hx
      obtain ⟨-, rfl⟩ : x.1 = ts ∧ x.2 = kind := by simpa using hmem
      cases hkind : x.2 with
      | tickDelivery tick => rw [hkind] at hallowed; cases hallowed
      | _ => rfl

end Engine

/-! ## From the submission to the fill -/

namespace Life

variable {n : ℕ} {l l' : List Effect} {o : Order} {ph : Phase}

/-- An order arrives when its event is popped. -/
theorem popped_of_arriving (h : Life n (l ++ l') (.arriving o)) : Life n l (.arriving o) ∨
    ∃ event activeTimer, .popped event activeTimer ∈ l' ∧ event.kind = .order o ∧
      event.tsSim = o.tsSubmit := by
  induction l' using List.reverseRecOn with
  | nil => exact .inl (by simpa using h)
  | append_singleton l' x ih =>
    rw [← List.append_assoc] at h
    rcases h.snoc_cases with ⟨h, -⟩ | ⟨ph₁, -, hx⟩
    · rcases ih h with h | ⟨event, activeTimer, hmem, hkind⟩
      · exact .inl h
      · exact .inr ⟨event, activeTimer, List.mem_append_left _ hmem, hkind⟩
    · cases hx with
      | @arrive o event activeTimer moves time kind =>
        exact .inr ⟨event, activeTimer, List.mem_append_right _ (List.mem_singleton_self _),
          kind, time⟩

/-- An order that was accepted is sent, unless it was accepted just now. -/
theorem sent_of_accepted {pre post : List Effect} (h : Life n (pre ++ .accepted o :: post) ph)
    (hid : o.orderId = n) : ph = .registered o ∨ .scheduled o.tsSubmit (.order o) ∈ post := by
  induction post using List.reverseRecOn generalizing ph with
  | nil =>
    rcases h.snoc_cases with ⟨-, hx⟩ | ⟨ph₁, -, hx⟩
    · simp [Effect.concerns, hid] at hx
    · cases hx with
      | accept id => exact .inl rfl
  | append_singleton post y ih =>
    rw [← List.cons_append, ← List.append_assoc] at h
    rcases h.snoc_cases with ⟨h, -⟩ | ⟨ph₁, h, hx⟩
    · exact (ih h).imp_right (List.mem_append_left _)
    · rcases ih h with rfl | hmem
      · cases hx with
        | send id => exact .inr (List.mem_append_right _ (List.mem_singleton_self _))
      · exact .inr (List.mem_append_left _ hmem)

/-- An order is filled after its ACK, which is popped one latency after the order was submitted. -/
theorem ack_of_filled {pre post : List Effect} {fill : TradeFill}
    (h : Life n (pre ++ .filled fill :: post) ph) (hid : fill.orderId = n) :
    ∃ o dt, .accepted o ∈ pre ∧ o.orderId = n ∧ .orderLatency n dt ∈ pre ∧
      ∃ event activeTimer, .popped event activeTimer ∈ pre ∧
        event.tsSim = satAddI64 o.tsSubmit dt := by
  obtain ⟨ph₁, hlife, hmove⟩ := h.split
  obtain ⟨ph₂, hx⟩ := hmove (by simp [Effect.concerns, hid])
  have hacked : ∃ o dt, ph₁.accepted = some o ∧ ph₁.latency = some dt ∧
      ph₁.ackTime = some (satAddI64 o.tsSubmit dt) := by
    cases hx with
    | fill id => exact ⟨_, _, rfl, rfl, rfl⟩
    | marketFill market id => exact ⟨_, _, rfl, rfl, rfl⟩
  obtain ⟨o, dt, ho, hdt, hack⟩ := hacked
  obtain ⟨haccepted, hoid⟩ := hlife.accepted_iff.1 ho
  refine ⟨o, dt, haccepted, hoid, hlife.latency_iff.1 hdt, ?_⟩
  have hmem : satAddI64 o.tsSubmit dt ∈ pre.filterMap (ackOf n) := by
    rw [hlife.ack_eq, hack]
    exact List.mem_singleton_self _
  obtain ⟨x, hx, hsome⟩ := List.mem_filterMap.1 hmem
  cases x with
  | popped event activeTimer =>
    obtain ⟨-, htime⟩ := Option.ite_none_right_eq_some.1 hsome
    exact ⟨event, activeTimer, hx, Option.some.inj htime⟩
  | _ => cases hsome

end Life

/-! ## Latencies that do not overflow -/

namespace Core

variable {Q S L R : Type} [QueueModel Q] [Strategy S] [LatencyModel L R]

/-- An order that reaches the exchange is acknowledged after the latency that is sampled for it. -/
theorem effects_onOrder (c : Core Q S L R) (order : Order) : ∃ dt,
    (c.onOrder order).1.effects = c.effects ++ (.orderLatency order.orderId dt ::
      pushEffects c.nowTsSim dt (satAddI64 c.nowTsSim dt) (.orderAck order.orderId)) := by
  refine ⟨(c.putExchange order.symbolId
    ((c.exchange order.symbolId).submitOrder order)).sampleOrderLatency.1, ?_⟩
  simp only [onOrder]
  rw [pushAfterSat_eq, ← List.singleton_append, ← List.append_assoc]
  rfl

/-- A push that notes no overflow has its sum in range. -/
theorem inRange_of_pushEffects {ts delay pushed : ℤ} {kind : EventKind}
    (h : Effect.overflow ∉ pushEffects ts delay pushed kind) :
    MachineInt.InRange 64 (ts + delay) := by
  unfold pushEffects at h
  split_ifs at h with hin
  · exact hin
  · simp at h

end Core

namespace Engine

variable {T U Q S L R : Type} [QueueModel Q] {e e' : Engine T U Q S L R} {n : ℕ} {dt : ℤ}

/-- The flush comes after the event. -/
theorem trace_handleEvent_le [Strategy S] [LatencyModel L R] (e : Engine T U Q S L R)
    (event : Event) :
    (e.handleEvent event).1.trace <+: (e.dispatch event).1.trace := by
  unfold dispatch
  split
  · next heq => rw [heq]
  · next heq => rw [heq]
  · next e' wakeup heq =>
    obtain ⟨new, hw, -⟩ := deferredFlush_spec e' wakeup
    rw [heq, hw.trace]
    exact List.prefix_append _ _

/-- An order that has a latency was accepted, and without overflow its ACK is due one latency after
it was submitted. -/
def InRange (e : Engine T U Q S L R) : Prop :=
  ∀ n dt, .orderLatency n dt ∈ e.trace → ∃ o, .accepted o ∈ e.trace ∧ o.orderId = n ∧
    (Effect.overflow ∉ e.trace → MachineInt.InRange 64 (o.tsSubmit + dt))

/-- Between two events no order is just arriving. -/
theorem InPhase.not_arriving {ph : Phase} (h : e.InPhase n ph) (o : Order) :
    ¬Life n e.trace (.arriving o) := by
  intro harriving
  have haccepted : ph.accepted = some o := h.life.accepted_iff.2 (harriving.accepted_iff.1 rfl)
  have hlatency : ph.latency = none := by
    have heq := h.life.latency_eq.symm.trans harriving.latency_eq
    cases hph : ph.latency with
    | none => rfl
    | some dt => rw [hph] at heq; cases heq
  have hpending := (h.life.pending.symm.trans harriving.pending).length_eq
  cases ph with
  | travelling o' => simp [Phase.pending] at hpending
  | registered | arriving => cases h.settled
  | arrived | awaiting | acking | resting | partly | closing | closed => cases hlatency
  | _ => cases haccepted

/-- A latency is sampled when the event of an accepted order is popped. -/
theorem Tracked.arrival_of_latency (h : e.Tracked) (h' : e'.Tracked) {new : List Effect}
    (htrace : e'.trace = e.trace ++ new) (hmem : .orderLatency n dt ∈ new) :
    ∃ o event activeTimer, .accepted o ∈ e'.trace ∧ o.orderId = n ∧
      .popped event activeTimer ∈ new ∧
      event.kind = .order o ∧ event.tsSim = o.tsSubmit := by
  obtain ⟨pre, post, rfl⟩ := List.append_of_mem hmem
  obtain ⟨ph, hin⟩ := h.inPhase n
  obtain ⟨ph', hin'⟩ := h'.inPhase n
  have hlife := hin'.life
  rw [htrace, ← List.append_assoc] at hlife
  obtain ⟨ph₁, hlife₁, hmove⟩ := hlife.split
  obtain ⟨ph₂, hx⟩ := hmove (by simp [Effect.concerns])
  cases hx with
  | @delay o _ =>
    obtain ⟨haccepted, hid⟩ := hlife₁.accepted_iff.1 rfl
    rcases hlife₁.popped_of_arriving with harriving | ⟨event, activeTimer, hpopped, hkind, htime⟩
    · exact absurd harriving (hin.not_arriving o)
    · refine ⟨o, event, activeTimer, ?_, hid, List.mem_append_left _ hpopped, hkind, htime⟩
      rw [htrace, ← List.append_assoc]
      exact List.mem_append_left _ haccepted

namespace InRange

/-- A latency may be noted when its sum is in range. -/
theorem append (h : e.InRange) {new : List Effect} (htrace : e'.trace = e.trace ++ new)
    (hnew : ∀ n dt, .orderLatency n dt ∈ new → ∃ o, .accepted o ∈ e'.trace ∧ o.orderId = n ∧
      (Effect.overflow ∉ e'.trace → MachineInt.InRange 64 (o.tsSubmit + dt))) : e'.InRange := by
  intro n dt hmem
  rw [htrace] at hmem
  rcases List.mem_append.1 hmem with hmem | hmem
  · obtain ⟨o, haccepted, hid, hrange⟩ := h n dt hmem
    rw [htrace]
    exact ⟨o, List.mem_append_left _ haccepted, hid, fun hno =>
      hrange fun hmem => hno (List.mem_append_left _ hmem)⟩
  · exact hnew n dt hmem

variable [Strategy S]

/-- Work that pops nothing samples no order latency. -/
theorem works (h : e.InRange) (htracked : e.Tracked) (htracked' : e'.Tracked) {new : List Effect}
    (hw : Works e e' new) : e'.InRange := by
  refine h.append hw.trace fun n dt hmem => ?_
  obtain ⟨-, event, activeTimer, -, -, hpopped, -⟩ :=
    htracked.arrival_of_latency htracked' hw.trace hmem
  cases hw.isWork _ hpopped

variable [LatencyModel L R]

/-- An event draws latencies for orders that were accepted. -/
theorem dispatch (h : e.InRange) (htracked : e.Tracked) {event : Event} {queue : EventQueue}
    (pop : e.queue.pop = some (event, queue)) : ((e.withQueue queue).dispatch event).1.InRange := by
  obtain ⟨new, hw, -⟩ := dispatch_spec (e.withQueue queue) event
  have htrace : ((e.withQueue queue).dispatch event).1.trace =
      e.trace ++ (.popped event e.core.activeBatchTimerId :: new) :=
    hw.trace.trans (List.append_assoc _ [_] _)
  refine h.append htrace fun n dt hmem => ?_
  obtain ⟨o, event', activeTimer, haccepted, hid, hpopped, hkind, htime⟩ :=
    htracked.arrival_of_latency (htracked.dispatch pop) htrace hmem
  obtain rfl : event' = event := by
    rcases List.mem_cons.1 hpopped with heq | hpopped
    · exact (Effect.popped.inj heq).1
    · cases hw.isWork _ hpopped
  refine ⟨o, haccepted, hid, fun hno => ?_⟩
  -- The event is the order's, and its handler samples the only latency of the order.
  obtain ⟨dt', heffects⟩ := Core.effects_onOrder (e.core.cleared.atTime event'.tsSim) o
  have hhandled : ((e.withQueue queue).handleEvent event').1.trace = e.trace ++
      [.popped event' e.core.activeBatchTimerId] ++ (.orderLatency o.orderId dt' ::
        Core.pushEffects event'.tsSim dt' (satAddI64 event'.tsSim dt') (.orderAck o.orderId)) := by
    rw [handleEvent, hkind]
    exact (trace_absorb _ _).trans (congrArg _ heffects)
  have hsub : ∀ x ∈ ((e.withQueue queue).handleEvent event').1.trace,
      x ∈ ((e.withQueue queue).dispatch event').1.trace :=
    (trace_handleEvent_le (e.withQueue queue) event').subset
  rw [hhandled] at hsub
  obtain ⟨ph, hin⟩ := (htracked.dispatch pop).inPhase n
  have hdt : ph.latency = some dt := hin.life.latency_iff.2 (htrace ▸ List.mem_append_right _ hmem)
  have hdt' : ph.latency = some dt' := hin.life.latency_iff.2 (hid ▸ hsub _ (by simp))
  obtain rfl : dt' = dt := Option.some.inj (hdt'.symm.trans hdt)
  have hpush : Effect.overflow ∉ Core.pushEffects event'.tsSim dt' (satAddI64 event'.tsSim dt')
      (.orderAck o.orderId) := fun hmem => hno (hsub _ (by simp [hmem]))
  rw [← htime]
  exact Core.inRange_of_pushEffects hpush

variable [TickSource T] [L3Source U]

/-- A turn keeps the latencies in range. -/
theorem turn (h : e.InRange) (htracked : e.Tracked) : e.turn.1.InRange := by
  obtain ⟨e₁, pass, heq, hturn⟩ := turn_cases e
  obtain ⟨-, intake, htrace, hintake⟩ := e.ingest_frame (ε := Strategy.Error S)
  have htracked₁ : e₁.Tracked := by
    have hingest := htracked.ingest (ε := Strategy.Error S)
    rwa [heq] at hingest
  rw [heq] at htrace
  have h₁ : e₁.InRange := h.append htrace fun n dt hmem => by cases hintake _ hmem
  rcases hturn with ⟨-, hturn, -⟩ | ⟨-, event, queue, hpop, hturn⟩ | ⟨-, -, hturn⟩ |
    ⟨-, -, hturn, -⟩
  · exact hturn ▸ h₁
  · rw [hturn]
    exact h₁.dispatch htracked₁ hpop
  · rw [hturn]
    obtain ⟨new, hw, -⟩ := flush_spec e₁
    exact h₁.works htracked₁ htracked₁.flush hw
  · rw [hturn]
    exact h₁

end InRange

variable [TickSource T] [L3Source U]

/-- At the start no latency was drawn. -/
theorem Built.inRange [SeedableRng R] (h : Built (fun _ kind => kind.isBackground = true) e) :
    e.InRange := by
  have hnone : ∀ n dt, Effect.orderLatency n dt ∉ e.trace := by
    induction h with
    | new => simp [Engine.new]
    | external _ hext ih =>
      cases hext with
      | addTickSource source => exact ih
      | addL3Source source => exact ih
      | pushEvent hallowed => simpa using ih
  exact fun n dt hmem => absurd hmem (hnone n dt)

/-! ## Runs -/

variable [Strategy S] [LatencyModel L R] [SeedableRng R] {e₀ : Engine T U Q S L R}
  {st : Status (EngineError (Strategy.Error S))} {l3s : List (List L3Update)}
    {tks : List (List Tick)}

/-- What a run on the clock keeps of what it shows and when. -/
structure Foresight (config : EngineConfig) (st : Status (EngineError (Strategy.Error S)))
    (e : Engine T U Q S L R) : Prop where
  reporting : e.Reporting st
  chronicled : e.Chronicled
  heralds : e.Heralds config

/-- A turn keeps what is needed to exclude foresight. -/
theorem Foresight.turn {config : EngineConfig} {l3s' : List (List L3Update)}
    {tks' : List (List Tick)} {r : Engine T U Q S L R × Status (EngineError (Strategy.Error S))}
    (h : e.Foresight config .running) (hclock : e.Clock l3s tks)
    (hturn : Turn e l3s tks r l3s' tks')
    (hno : Effect.overflow ∉ r.1.trace) : r.1.Foresight config r.2 :=
  ⟨h.reporting.turn hclock hturn hno, h.chronicled.turn hclock h.reporting hturn hno,
    h.heralds.turn hturn⟩

/-- A tick that was popped for the strategy by time `t` was at the exchange by then. -/
theorem Heralds.truth_of_popped {config : EngineConfig} (h : e.Heralds config)
    (hclock : e.Clock l3s tks) {pre post : List Effect} (htrace : e.trace = pre ++ post) {t : ℤ}
    (hpast : ∀ x ∈ poppedIn EventKind.any pre, x.1 ≤ t) {tick : Tick}
    (htick : tick ∈ ticksPopped pre) :
    tick.tsExchange ≤ t ∧ tick.tsLocal ≤ t ∧ ∃ truth, tick = delivered config truth ∧
      (truth.tsExchange, .tick truth) ∈ poppedIn EventKind.any pre := by
  obtain ⟨⟨ts, kind⟩, hx, hkind⟩ := List.mem_flatMap.1 htick
  obtain rfl : kind = .tickDelivery tick := by
    cases kind with
    | tickDelivery tick' => rw [List.mem_singleton.1 hkind]
    | _ => cases hkind
  have hpopped : (ts, EventKind.tickDelivery tick) ∈ poppedIn EventKind.any e.trace := by
    rw [htrace, poppedIn_append]
    exact List.mem_append_left _ hx
  obtain ⟨rfl, hle⟩ := hclock.dated _ ((hclock.agenda _).scheduled_of_popped hpopped)
  have hdue : tick.tsLocal ≤ t := hpast _ hx
  obtain ⟨before, after, hsplit⟩ := List.append_of_mem hx
  have hall : poppedIn EventKind.any e.trace ++ e.queue.waiting EventKind.any = before ++
      (tick.tsLocal, .tickDelivery tick) ::
        (after ++ poppedIn EventKind.any post ++ e.queue.waiting EventKind.any) := by
    rw [htrace, poppedIn_append, hsplit]
    simp
  obtain ⟨truth, heq, hmem⟩ := h.popped hclock before _ _ hall tick rfl
  exact ⟨hle.trans hdue, hdue, truth, heq, hsplit ▸ List.mem_append_left _ hmem⟩

/-- No look-ahead. Whatever a call at local time `t` hands over or shows in the market view was at
the exchange and is delivered by `t`, and the exchange has processed it. An order that is accepted
after the call is not filled before `t` plus the latency sampled for the order. -/
theorem no_look_ahead (built : Built (fun _ kind => kind.isBackground = true) e₀)
    (feeds : e₀.Feeds l3s tks) (paced : e₀.Paced l3s tks) (h : Reaches turn closed e₀ e st)
    (hno : Effect.overflow ∉ e.trace) {pre post : List Effect} {call : Call} {t : ℤ}
    {market : MarketView} (hcall : e.trace = pre ++ .called call t market :: post) :
    (∀ tick, (tick ∈ call.ticks ∨ ∃ s, market.lastTrade s = some tick) →
      tick.tsExchange ≤ t ∧ tick.tsLocal ≤ t ∧ ∃ truth, tick = delivered e₀.core.config truth ∧
        (truth.tsExchange, .tick truth) ∈ poppedIn EventKind.any pre) ∧
    ∀ o, .accepted o ∈ post → ∀ fill, .filled fill ∈ e.trace → fill.orderId = o.orderId →
      (∃ dt, .orderLatency o.orderId dt ∈ e.trace) ∧
        ∀ dt, .orderLatency o.orderId dt ∈ e.trace → t + dt ≤ fill.tsExchange := by
  let I (e : Engine T U Q S L R) (st : Status (EngineError (Strategy.Error S)))
      (_ : List (List L3Update)) (_ : List (List Tick)) : Prop :=
    Effect.overflow ∉ e.trace → e.Foresight e₀.core.config st
  obtain ⟨l3s', tks', -, hclock, hI⟩ := clocked_invariant (I := I) h feeds (built.clock paced)
    (fun _ => ⟨built.reporting, built.chronicled, built.heralds⟩)
    (fun e l3s tks r l3s' tks' hclock hI hturn _ hno =>
      (hI (hturn.overflow hno)).turn hclock hturn hno) hno
  obtain ⟨-, hchronicled, hheralds⟩ := hI hno
  have hshown : e.Shown := h.invariant_closed built.shown fun _ => Shown.turn
  have outside : ∀ (ts : ℤ) (kind : EventKind), kind.isBackground = true →
      kind.isOrderEvent = false := fun _ kind hk => by cases kind <;> first | rfl | cases hk
  obtain ⟨htracked, hrange⟩ : e.Tracked ∧ e.InRange :=
    h.invariant_closed (I := fun e => e.Tracked ∧ e.InRange)
      ⟨tracked built .start outside, built.inRange⟩ fun _ he => ⟨he.1.turn, he.2.turn he.1⟩
  have hfollows := hchronicled.follows pre _ post hcall t rfl
  refine ⟨fun tick htick => ?_, fun o ho fill hfill hid => ?_⟩
  · obtain ⟨hticks, hmarket⟩ := hshown.trace pre _ post hcall
    refine hheralds.truth_of_popped hclock hcall (fun x hx => ?_)
      (htick.elim (hticks tick) fun ⟨s, hs⟩ => hmarket s tick hs)
    obtain ⟨-, event, activeTimer, hmem, rfl⟩ := mem_poppedIn.1 hx
    exact hfollows _ hmem _ rfl
  · obtain ⟨ph, hin⟩ := htracked.inPhase o.orderId
    -- The order is sent after the call, so it is submitted at `t` or later.
    have hsubmit : t ≤ o.tsSubmit := by
      obtain ⟨before, after, rfl⟩ := List.append_of_mem ho
      have hlife := hin.life
      rw [hcall, ← List.cons_append, ← List.append_assoc] at hlife
      rcases hlife.sent_of_accepted rfl with rfl | hsent
      · cases hin.settled
      · obtain ⟨mid, rest, rfl⟩ := List.append_of_mem hsent
        have hsplit : e.trace = (pre ++ .called call t market :: before ++ .accepted o :: mid) ++
            .scheduled o.tsSubmit (.order o) :: rest := by
          rw [hcall]
          simp
        exact hchronicled.follows _ _ rest hsplit _ rfl (.called call t market) (by simp) _ rfl
    obtain ⟨before, after, hsplit⟩ := List.append_of_mem hfill
    obtain ⟨o', dt, haccepted, hoid, hlatency, event, activeTimer, hpopped, htime⟩ :=
      (hsplit ▸ hin.life).ack_of_filled hid
    have hsub : ∀ x ∈ before, x ∈ e.trace := fun x hx => hsplit ▸ List.mem_append_left _ hx
    have hmem : .accepted o ∈ e.trace := hcall ▸ List.mem_append_right _ (List.mem_cons_of_mem _ ho)
    have hsame : ph.accepted = some o := hin.life.accepted_iff.2 ⟨hmem, rfl⟩
    obtain rfl : o' = o := Option.some.inj
      ((hin.life.accepted_iff.2 ⟨hsub _ haccepted, hoid⟩).symm.trans hsame)
    refine ⟨⟨dt, hsub _ hlatency⟩, fun dt' hdt' => ?_⟩
    obtain rfl : dt' = dt := Option.some.inj
      ((hin.life.latency_iff.2 hdt').symm.trans (hin.life.latency_iff.2 (hsub _ hlatency)))
    obtain ⟨o'', haccepted'', hid'', hin64⟩ := hrange _ _ hdt'
    obtain rfl : o'' = o' := Option.some.inj
      ((hin.life.accepted_iff.2 ⟨haccepted'', hid''⟩).symm.trans hsame)
    have hack : satAddI64 o''.tsSubmit dt' = o''.tsSubmit + dt' :=
      MachineInt.clamp_eq_self (hin64 hno)
    have hle : event.tsSim ≤ fill.tsExchange :=
      hchronicled.follows before _ after hsplit _ rfl _ hpopped _ rfl
    calc
      t + dt' ≤ o''.tsSubmit + dt' := Int.add_le_add_right hsubmit dt'
      _ = event.tsSim := by rw [htime, hack]
      _ ≤ fill.tsExchange := hle

/-- The call that an effect is, with its time. -/
def callAt : Effect → Option (Call × ℤ)
  | .called call t _ => some (call, t)
  | _ => none

/-- A call that is found stands in the trace at its place. -/
theorem exists_called {l : List Effect} {k : ℕ} {call : Call} {t : ℤ}
    (h : l[k]?.bind callAt = some (call, t)) :
    ∃ market, l = l.take k ++ .called call t market :: l.drop (k + 1) := by
  obtain ⟨x, hx, hcall⟩ := Option.bind_eq_some_iff.1 h
  obtain ⟨hk, hget⟩ := List.getElem?_eq_some_iff.1 hx
  cases x with
  | called call' t' market =>
    obtain ⟨rfl, rfl⟩ : call' = call ∧ t' = t := by simpa [callAt] using hcall
    refine ⟨market, ?_⟩
    rw [← hget, ← List.drop_eq_getElem_cons hk, List.take_append_drop]
  | _ => cases hcall

/-- The tick of time `1000` is handed over at time `1800`, after the truth. The order that is sent
then reaches the venue, with latency `10`, in time for the next tick. -/
theorem no_look_ahead_sample :
    let order : Order := ⟨0, 0, 0, 0, 100, 1, 1, .buy, .limit⟩
    let first : Tick := ⟨1000, 0, 0, 100, 1, 1, .buy, 0⟩
    let second : Tick := ⟨2000, 2100, 1, 100, 1, 1, .sell, 0⟩
    let e₀ := sample { mode := .batch, maxBatchNs := 300, feedLatencyNs := 500 } 10
      [[.submitOrder order]] [[first, second]]
    let e := (runFor turn 20 e₀).1
    (∃ pre post market,
      e.trace = pre ++ .called (.onTicks [{ first with tsLocal := 1500 }]) 1800 market :: post ∧
      ∃ truth, { first with tsLocal := 1500 } = delivered e₀.core.config truth ∧
        (truth.tsExchange, .tick truth) ∈ poppedIn EventKind.any pre) ∧
    e.told 1 = [.open, .filled] ∧
    ∀ fill, .filled fill ∈ e.trace → fill.orderId = 1 → 1800 + 10 ≤ fill.tsExchange := by
  intro order first second e₀ e
  have built : Built (fun _ kind => kind.isBackground = true) e₀ :=
    .external (.new _ _ _ _ _) (.addTickSource [first, second])
  have feeds : e₀.Feeds [] [[first, second]] :=
    (feeds_new _ _ _ _ _).addTickSource (yields_list [first, second])
  have paced : e₀.Paced [] [[first, second]] :=
    ⟨by decide +kernel, by decide +kernel, by decide, by decide⟩
  have run : Reaches turn closed e₀ e .finished := reaches_of_runFor 20 (by decide +kernel)
  have hno : Effect.overflow ∉ e.trace := by decide +kernel
  have hcallAt : e.trace[7]?.bind callAt =
      some (.onTicks [{ first with tsLocal := 1500 }], 1800) := by
    decide +kernel
  obtain ⟨market, hcall⟩ := exists_called hcallAt
  obtain ⟨hticks, horders⟩ := no_look_ahead built feeds paced run hno hcall
  have haccepted : { order with orderId := 1, tsSubmit := 1800 } ∈
      (e.trace.drop 8).filterMap (Life.acceptedAs 1) := by decide +kernel
  have hlatency : 10 ∈ e.trace.filterMap (Life.latencyOf 1) := by decide +kernel
  obtain ⟨-, -, htruth⟩ := hticks { first with tsLocal := 1500 } (.inl (List.mem_singleton_self _))
  refine ⟨⟨_, _, market, hcall, htruth⟩, by decide +kernel, fun fill hfill hid => ?_⟩
  exact (horders _ (Life.mem_acceptedAs.1 haccepted).1 fill hfill hid).2 10
    (Life.mem_latencyOf.1 hlatency)

end Engine

end Backtester
