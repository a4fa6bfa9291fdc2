import Backtester.LookAhead
import Backtester.Posting

/-!
# What a call hands over

The events popped before a call say what it is (`Effect.IsPrompt`). It shows the last tick of every
symbol that was popped for the strategy. It hands over all the ticks, or all the reports, that were
popped for the strategy and not handed over yet. And it happens at the time of the event popped
last.
-/

open History Run Std

set_option linter.unusedSectionVars false

namespace Backtester

/-! ## Calls -/

/-- What the events popped before say about a call. -/
structure Effect.IsPrompt (pre : List Effect) (call : Call) (t : ℤ) (market : MarketView) :
    Prop where
  view : ∀ s, market.lastTrade s = ((ticksPopped pre).filter (·.symbolId = s)).getLast?
  ticks : call.ticks ≠ [] → ticksHanded pre ++ call.ticks = ticksPopped pre
  reports : call.reports ≠ [] → reportsHanded pre ++ call.reports = reportsPopped pre
  funding : ∀ event, call = .onFunding event →
    ∃ ts, (poppedIn EventKind.any pre).getLast? = some (ts, .funding event)
  time : (∃ tick, call = .onTick tick ∧ t = tick.tsLocal) ∨
    (poppedIn EventKind.any pre).getLast?.map Prod.fst = some t

/-- Every call in a trace is prompt. -/
def Effect.Prompts (pre : List Effect) (x : Effect) : Prop :=
  ∀ call t market, x = .called call t market → Effect.IsPrompt pre call t market

/-- The strategy is called. -/
def Effect.isCall : Effect → Bool
  | .called _ _ _ => true
  | _ => false

/-- The calls in a trace. -/
def callsIn (l : List Effect) : List Effect := l.filter Effect.isCall

theorem callsIn_append (l l' : List Effect) : callsIn (l ++ l') = callsIn l ++ callsIn l' :=
  List.filter_append _ _

theorem callsIn_eq_nil {l : List Effect} (h : ∀ x ∈ l, x.isCall = false) : callsIn l = [] :=
  List.filter_eq_nil_iff.2 fun x hx => by simp [h x hx]

theorem callsIn_calls (calls : List Call) (t : ℤ) (market : MarketView) :
    callsIn (calls.map (Effect.called · t market)) = calls.map (Effect.called · t market) :=
  List.filter_eq_self.2 fun x hx => by
    obtain ⟨call, -, rfl⟩ := List.mem_map.1 hx
    rfl

theorem handed_callsIn (l : List Effect) :
    ticksHanded (callsIn l) = ticksHanded l ∧ reportsHanded (callsIn l) = reportsHanded l := by
  induction l with
  | nil => exact ⟨rfl, rfl⟩
  | cons x l ih =>
    have hticks : ∀ l, ticksHanded (x :: l) = ticksHanded [x] ++ ticksHanded l :=
      ticksHanded_append [x]
    have hreports : ∀ l, reportsHanded (x :: l) = reportsHanded [x] ++ reportsHanded l :=
      reportsHanded_append [x]
    cases x with
    | called call t market =>
      have hcalls : callsIn (.called call t market :: l) = .called call t market :: callsIn l := rfl
      rw [hcalls, hticks, hreports, ih.1, ih.2, ← hticks, ← hreports]
      exact ⟨rfl, rfl⟩
    | _ => exact ih

/-- Where a call stands among the others of its handler. -/
theorem split_calls {calls : List Call} {t t' : ℤ} {market market' : MarketView} {call : Call}
    {pre post : List Effect} (h : callsIn (pre ++ .called call t' market' :: post) =
      calls.map (Effect.called · t market)) :
    t' = t ∧ market' = market ∧ ∃ done rest, calls = done ++ call :: rest ∧
      ticksHanded pre = done.flatMap Call.ticks ∧
      reportsHanded pre = done.flatMap Call.reports := by
  rw [callsIn_append] at h
  obtain ⟨done, rest, rfl, hdone, hrest⟩ := List.append_eq_map_iff.1 h
  obtain ⟨call', rest', rfl, hcall, -⟩ := List.map_eq_cons_iff.1 hrest
  obtain ⟨rfl, rfl, rfl⟩ := Effect.called.inj hcall
  refine ⟨rfl, rfl, done, rest', rfl, ?_, ?_⟩
  · rw [← (handed_callsIn pre).1, ← hdone, ticksHanded_calls]
  · rw [← (handed_callsIn pre).2, ← hdone, reportsHanded_calls]

namespace Core

variable {Q S L R : Type} [QueueModel Q] {c c' c'' : Core Q S L R} {t : ℤ} {calls : List Call}

/-- Between `c` and `c'` the strategy is called with `calls` at time `t`, and shown the market of
`c`. -/
structure Hands (calls : List Call) (t : ℤ) (c c' : Core Q S L R) : Prop where
  market : c'.market = c.market
  effects : ∃ new, c'.effects = c.effects ++ new ∧
    callsIn new = calls.map (Effect.called · t c.market)

theorem Hands.of_quiet {t' : ℤ} (h : Quiet t' c c') : Hands [] t c c' := by
  obtain ⟨new, heq, hquiet, -⟩ := h.effects
  refine ⟨h.market, new, heq, callsIn_eq_nil fun x hx => ?_⟩
  have hx := hquiet x hx
  cases x <;> first | rfl | cases hx

theorem Hands.trans_quiet {t' : ℤ} (h : Hands calls t c c') (hq : Quiet t' c' c'') :
    Hands calls t c c'' := by
  obtain ⟨new, heq, hcalls⟩ := h.effects
  obtain ⟨hmarket, new', heq', hnone⟩ := Hands.of_quiet (t := t) hq
  refine ⟨hmarket.trans h.market, new ++ new', by rw [heq', heq, List.append_assoc], ?_⟩
  rw [callsIn_append, hcalls, hnone]
  exact List.append_nil _

theorem Hands.after_quiet {t' : ℤ} (hq : Quiet t' c c') (h : Hands calls t c' c'') :
    Hands calls t c c'' := by
  obtain ⟨new, heq, hcalls⟩ := h.effects
  obtain ⟨hmarket, new', heq', hnone⟩ := Hands.of_quiet (t := t) hq
  refine ⟨h.market.trans hmarket, new' ++ new, by rw [heq, heq', List.append_assoc], ?_⟩
  rw [callsIn_append, hcalls, hnone, hmarket]
  rfl

variable [Strategy S]

theorem hands_wake (c : Core Q S L R) (call : Call) (t : ℤ) (wakeup : Bool) :
    Hands [call] t c (c.wake call t wakeup).1 := by
  have hcall : ∀ strategy, Hands [call] t c (c.afterCall call t strategy) := fun _ =>
    ⟨rfl, [.called call t c.market], rfl, rfl⟩
  rcases wake_spec c call t wakeup with ⟨err, heq⟩ | ⟨strategy, commands, heq⟩
  · rw [heq]
    exact hcall _
  · rw [heq]
    exact (hcall strategy).trans_quiet (quiet_handleCommands (t := t) _ commands)

/-- A flush hands over what is buffered, or a part of it when the strategy fails. -/
theorem hands_flushStrategy (c : Core Q S L R) (t : ℤ) :
    ∃ calls, calls <+: c.handover ∧ Hands calls t c (c.flushStrategy t).1 := by
  have hmade : ∀ strategy calls tickBuffer reportBuffer,
      Hands calls t c (c.disarmed.handed t strategy calls tickBuffer reportBuffer) :=
    fun _ calls _ _ => ⟨rfl, _, rfl, callsIn_calls calls t c.market⟩
  have htune : ∀ {c' : Core Q S L R}, Hands c.handover t c c' → Hands c.handover t c c'.tune := by
    intro c' h
    unfold tune
    split_ifs
    · exact ⟨h.market, h.effects⟩
    · exact h
  rcases flushStrategy_spec c t with
    ⟨-, -, heq⟩ | ⟨strategy, calls, tickBuffer, err, ⟨hcalls, -⟩, heq⟩ | ⟨strategy, commands, heq⟩
  · rw [heq]
    have hquiet : Quiet t c c := .refl c
    exact ⟨[], List.nil_prefix, .of_quiet hquiet⟩
  · rw [heq]
    exact ⟨calls, hcalls, hmade _ _ _ _⟩
  · rw [heq]
    exact ⟨_, List.prefix_refl _, htune
      ((hmade _ _ _ _).trans_quiet (quiet_handleCommands (t := t) _ commands))⟩

/-- The market view that the handler of an event works with. -/
def noted (c : Core Q S L R) : EventKind → Core Q S L R
  | .tickDelivery tick => c.observeDelivery tick
  | _ => c

/-- The call that an event makes at once, and its time. -/
inductive Makes (c : Core Q S L R) : EventKind → Call → ℤ → Prop
  | tick (mode : c.config.mode = .tick) (tick : Tick) :
      Makes c (.tickDelivery tick) (.onTick tick) tick.tsLocal
  | report (mode : c.config.mode = .tick) (report : OrderReport) :
      Makes c (.orderReport report) (.onOrderUpdate report) c.nowTsSim
  | funding (event : FundingEvent) : Makes c (.funding event) (.onFunding event) c.nowTsSim

theorem hands_handle [LatencyModel L R] (c : Core Q S L R) (kind : EventKind) :
    Hands [] 0 (c.noted kind) (c.handle kind).1 ∨
      ∃ call t, c.Makes kind call t ∧ Hands [call] t (c.noted kind) (c.handle kind).1 := by
  cases kind with
  | tick tick => exact .inl (.of_quiet (quiet_onTickEvent c tick))
  | tickDelivery tick =>
    change Hands [] 0 _ (c.onTickDelivery tick).1 ∨ ∃ call t, _ ∧
      Hands [call] t _ (c.onTickDelivery tick).1
    unfold onTickDelivery
    dsimp only
    split
    · next hmode =>
      have hmode : c.config.mode = .tick := hmode
      exact .inr ⟨_, _, .tick hmode tick, hands_wake _ _ _ _⟩
    · split_ifs
      · unfold armTimer
        rw [pushAfter_eq]
        refine .inl ⟨rfl, _, rfl, callsIn_eq_nil fun x hx => ?_⟩
        unfold pushEffects at hx
        split_ifs at hx
        · obtain rfl := List.mem_singleton.1 hx
          rfl
        · rcases List.mem_pair.1 hx with rfl | rfl <;> rfl
      · exact .inl ⟨rfl, [], (List.append_nil _).symm, rfl⟩
  | l2Update update => exact .inl (.of_quiet (quiet_onL2Update (t := 0) c update))
  | l3Update update => exact .inl (.of_quiet (quiet_onL3Update (t := 0) c update))
  | order order => exact .inl (.of_quiet (quiet_onOrder c order))
  | orderAck orderId => exact .inl (.of_quiet (quiet_onOrderAck c orderId))
  | orderCancel orderId => exact .inl (.of_quiet (quiet_onOrderCancel c orderId))
  | orderCancelAck orderId => exact .inl (.of_quiet (quiet_onOrderCancelAck c orderId))
  | orderReport report =>
    have hforget := quiet_forget (t := 0) c report
    change Hands [] 0 c (c.onOrderReport report).1 ∨ ∃ call t, _ ∧
      Hands [call] t c (c.onOrderReport report).1
    unfold onOrderReport
    dsimp only
    split
    · next hmode =>
      rw [hforget.config] at hmode
      refine .inr ⟨_, _, .report hmode report, ?_⟩
      rw [hforget.nowTsSim]
      exact .after_quiet hforget (hands_wake _ _ _ _)
    · obtain ⟨hmarket, heffects⟩ := Hands.of_quiet (t := 0) hforget
      exact .inl ⟨hmarket, heffects⟩
  | funding event =>
    have hfunding := quiet_applyFunding (t := 0) c event
    refine .inr ⟨_, _, .funding event, ?_⟩
    change Hands [_] _ c (c.onFunding event).1
    unfold onFunding
    dsimp only
    rw [hfunding.nowTsSim]
    exact .after_quiet hfunding (hands_wake _ _ _ _)
  | timer timerId =>
    change Hands [] 0 c (c.onTimer timerId).1 ∨ ∃ call t, _ ∧ Hands [call] t c (c.onTimer timerId).1
    unfold onTimer
    split_ifs
    · exact .inl ⟨rfl, [], (List.append_nil _).symm, rfl⟩
    · exact .inl ⟨rfl, [], (List.append_nil _).symm, rfl⟩

/-- A call of the handover hands over all that is buffered for it. -/
theorem handover_split {c : Core Q S L R} {done rest : List Call} {call : Call}
    (h : c.handover = done ++ call :: rest) :
    (call.ticks ≠ [] → done.flatMap Call.ticks ++ call.ticks = c.tickBuffer) ∧
    (call.reports ≠ [] → done.flatMap Call.reports ++ call.reports = c.reportBuffer) ∧
    (∀ event, call ≠ .onFunding event) ∧ (c.tickBuffer ≠ [] ∨ c.reportBuffer ≠ []) := by
  have hsplit : ∀ {x y : Call}, [x, y] = done ++ call :: rest →
      done = [] ∧ call = x ∨ done = [x] ∧ call = y := by
    intro x y heq
    rcases done with _ | ⟨d, _ | ⟨d', done⟩⟩ <;> simp_all
  unfold handover tickCalls reportCalls at h
  split_ifs at h with hticks hreports hreports
  · simp at h
  · obtain ⟨rfl, rfl, -⟩ : done = [] ∧ call = .onOrderUpdates c.reportBuffer ∧ rest = [] := by
      rcases done with _ | ⟨d, done⟩ <;> simp_all
    exact ⟨by simp [Call.ticks], by simp [Call.reports], by simp, .inr (by simpa using hreports)⟩
  · obtain ⟨rfl, rfl, -⟩ : done = [] ∧ call = .onTicks c.tickBuffer ∧ rest = [] := by
      rcases done with _ | ⟨d, done⟩ <;> simp_all
    exact ⟨by simp [Call.ticks], by simp [Call.reports], by simp, .inl (by simpa using hticks)⟩
  · rcases hsplit h with ⟨rfl, rfl⟩ | ⟨rfl, rfl⟩ <;>
      exact ⟨by simp [Call.ticks], by simp [Call.reports], by simp, .inl (by simpa using hticks)⟩

end Core

namespace Effect

variable {l new : List Effect} {calls : List Call} {t : ℤ} {market : MarketView}

theorem popped_congr {l l' : List Effect}
    (h : poppedIn EventKind.any l' = poppedIn EventKind.any l) :
    ticksPopped l' = ticksPopped l ∧ reportsPopped l' = reportsPopped l := by
  simp only [ticksPopped, reportsPopped, h, and_self]

/-- Whether a call is prompt depends on what was handed over and popped before. -/
theorem IsPrompt.congr {pre pre' : List Effect} {call : Call} (h : IsPrompt pre call t market)
    (hticks : ticksHanded pre' = ticksHanded pre)
    (hreports : reportsHanded pre' = reportsHanded pre)
    (hpopped : poppedIn EventKind.any pre' = poppedIn EventKind.any pre) :
    IsPrompt pre' call t market := by
  obtain ⟨hticksPopped, hreportsPopped⟩ := popped_congr hpopped
  constructor
  · rw [hticksPopped]
    exact h.view
  · rw [hticks, hticksPopped]
    exact h.ticks
  · rw [hreports, hreportsPopped]
    exact h.reports
  · rw [hpopped]
    exact h.funding
  · rw [hpopped]
    exact h.time

/-- Work whose calls are prompt one after the other. -/
theorem prompts_append (h : Always Prompts l) (hnew : ∀ x ∈ new, x.isWork = true)
    (hcalls : callsIn new = calls.map (Effect.called · t market))
    (hprompt : ∀ done call rest, calls = done ++ call :: rest →
      IsPrompt (l ++ done.map (Effect.called · t market)) call t market) :
        Always Prompts (l ++ new) := by
  refine always_append h fun pre x post hsplit call t' market' hx => ?_
  subst hx
  rw [hsplit] at hcalls
  obtain ⟨rfl, rfl, done, rest, heq, hticks, hreports⟩ := split_calls hcalls
  have hnone : ∀ l' : List Effect, (∀ x ∈ l', x.isWork = true) → poppedIn EventKind.any l' = [] :=
    fun l' hl' => List.filterMap_eq_nil_iff.2 fun x hx => by
      have hwork := hl' x hx
      cases x <;> first | rfl | cases hwork
  refine (hprompt done call rest heq).congr ?_ ?_ ?_
  · rw [ticksHanded_append, ticksHanded_append, hticks, ticksHanded_calls]
  · rw [reportsHanded_append, reportsHanded_append, hreports, reportsHanded_calls]
  · rw [poppedIn_append, poppedIn_append, hnone pre, hnone (done.map _)]
    · intro x hx
      obtain ⟨call, -, rfl⟩ := List.mem_map.1 hx
      rfl
    · exact fun x hx => hnew x (hsplit ▸ List.mem_append_left _ hx)

end Effect

namespace Engine

variable {T U Q S L R : Type} [QueueModel Q] [TickSource T] [L3Source U] {e e' : Engine T U Q S L R}

/-- What the core has for the strategy is what the popped events say. -/
structure Informed (e : Engine T U Q S L R) : Prop where
  received : e.Received
  view : ∀ s, e.core.market.lastTrade s = ((ticksPopped e.trace).filter (·.symbolId = s)).getLast?
  now : poppedIn EventKind.any e.trace = [] ∨
    (poppedIn EventKind.any e.trace).getLast?.map Prod.fst = some e.core.nowTsSim

/-- The view of the market after an event is popped. -/
theorem Informed.noted (h : e.Informed) (event : Event) (s : ℕ) :
    ((e.core.cleared.atTime event.tsSim).noted event.kind).market.lastTrade s =
      ((ticksPopped (e.popped event).trace).filter (·.symbolId = s)).getLast? := by
  have hpopped : ticksPopped (e.popped event).trace = ticksPopped e.trace ++ event.kind.ticks := by
    change ticksPopped (e.trace ++ [.popped event _]) = _
    rw [ticksPopped_append]
    congr 1
    rw [ticksPopped, poppedIn_singleton]
    exact List.append_nil _
  rw [hpopped, List.filter_append, List.getLast?_append, ← h.view]
  have hsame : event.kind.ticks = [] → (e.core.cleared.atTime event.tsSim).noted event.kind =
      e.core.cleared.atTime event.tsSim := by
    intro hnil
    cases hkind : event.kind <;> first | rfl | (rw [hkind] at hnil; cases hnil)
  by_cases hnil : event.kind.ticks = []
  · rw [hsame hnil, hnil]
    rfl
  · obtain ⟨tick, hkind⟩ : ∃ tick, event.kind = .tickDelivery tick := by
      cases hkind : event.kind <;> first | exact ⟨_, rfl⟩ | (rw [hkind] at hnil; cases hnil rfl)
    rw [hkind]
    change (e.core.market.onTickDelivery tick).lastTrade s = _
    rw [MarketView.lastTrade_onTickDelivery]
    by_cases hs : tick.symbolId = s
    · simp [hs, EventKind.ticks]
    · simp [hs, EventKind.ticks]

variable [Strategy S]

/-- Work that keeps the view of the market. -/
theorem Informed.works (h : e.Informed) {new : List Effect} (hw : Works e e' new)
    (received : e'.Received) (market : e'.core.market = e.core.market) : e'.Informed := by
  refine ⟨received, ?_, ?_⟩
  · rw [market, hw.trace, ticksPopped_append, hw.popped_eq_nil.1, List.append_nil]
    exact h.view
  · rw [hw.nowTsSim, hw.poppedIn_trace]
    exact h.now

/-- A flush hands over, prompt calls one after the other, what is buffered. -/
theorem Informed.flush (h : e.Informed) (hprompt : Always Effect.Prompts e.trace) :
    Always Effect.Prompts e.flush.1.trace ∧ (e.flush.2 = none → e.flush.1.Informed) := by
  obtain ⟨calls, ⟨later, hcalls⟩, hmarket, new, heq, hnew⟩ :=
    Core.hands_flushStrategy e.core.cleared e.core.nowTsSim
  obtain ⟨new', hw, -⟩ := flush_spec e
  have htrace : e.flush.1.trace = e.trace ++ new := (trace_absorb e _).trans (congrArg _ heq)
  obtain rfl : new' = new := List.append_cancel_left (hw.trace.symm.trans htrace)
  refine ⟨?_, fun hnone => h.works hw (h.received.flush hnone).1 ?_⟩
  · rw [htrace]
    refine Effect.prompts_append hprompt hw.isWork hnew fun done call rest hsplit => ?_
    have hhandover : e.core.cleared.handover = done ++ call :: (rest ++ later) := by
      rw [← hcalls, hsplit, List.append_assoc]
      rfl
    obtain ⟨hticks, hreports, hfunding, hbuffered⟩ := Core.handover_split hhandover
    have hnone :
        poppedIn EventKind.any (done.map (Effect.called · e.core.nowTsSim e.core.cleared.market)) =
        [] :=
      List.filterMap_eq_nil_iff.2 fun x hx => by
        obtain ⟨call, -, rfl⟩ := List.mem_map.1 hx
        rfl
    have hpopped : poppedIn EventKind.any (e.trace ++
        done.map (Effect.called · e.core.nowTsSim e.core.cleared.market)) =
          poppedIn EventKind.any e.trace := by
      rw [poppedIn_append, hnone, List.append_nil]
    obtain ⟨hticksPopped, hreportsPopped⟩ := Effect.popped_congr hpopped
    refine ⟨fun s => ?_, fun hcall => ?_, fun hcall => ?_,
      fun event hcall => absurd hcall (hfunding event),
      .inr ?_⟩
    · rw [hticksPopped]
      exact h.view s
    · rw [ticksHanded_append, ticksHanded_calls, List.append_assoc, hticks hcall]
      exact h.received.ticks.trans hticksPopped.symm
    · rw [reportsHanded_append, reportsHanded_calls, List.append_assoc, hreports hcall]
      exact h.received.reports.trans hreportsPopped.symm
    · rw [hpopped]
      refine h.now.resolve_left fun hnil => ?_
      have hticks := h.received.ticks
      have hreports := h.received.reports
      rw [ticksPopped, hnil] at hticks
      rw [reportsPopped, hnil] at hreports
      exact hbuffered.elim (absurd (List.append_eq_nil_iff.1 hticks).2)
        (absurd (List.append_eq_nil_iff.1 hreports).2)
  · rw [Engine.flush]
    exact (congrArg Core.market (core_absorb e _)).trans hmarket

variable [LatencyModel L R]

theorem Informed.deferredFlush (h : e.Informed) (hprompt : Always Effect.Prompts e.trace)
    (wakeup : Bool) :
    Always Effect.Prompts (e.deferredFlush wakeup).1.trace ∧
      ((e.deferredFlush wakeup).2 = none → (e.deferredFlush wakeup).1.Informed) := by
  have hflush := h.flush hprompt
  have hpending : ∀ {e : Engine T U Q S L R} b, e.Informed → (e.setPendingWakeup b).Informed :=
    fun b h => ⟨h.received.setPendingWakeup b, h.view, h.now⟩
  unfold Engine.deferredFlush
  split_ifs
  · split
    · next heq =>
      rw [heq] at hflush
      exact ⟨hflush.1, fun hnone => by cases hnone⟩
    · next heq =>
      rw [heq] at hflush
      exact ⟨hflush.1, fun _ => hpending false (hflush.2 rfl)⟩
  · exact ⟨hprompt, fun _ => hpending true h⟩
  · exact ⟨hprompt, fun _ => h⟩

theorem Informed.handleEvent (h : e.Informed) (hprompt : Always Effect.Prompts e.trace)
    (event : Event) :
    Always Effect.Prompts (e.handleEvent event).1.trace ∧ (e.handleEvent event).1.Informed := by
  let c := e.core.cleared.atTime event.tsSim
  let e₁ := e.popped event
  have hpopped : poppedIn EventKind.any e₁.trace =
      poppedIn EventKind.any e.trace ++ [(event.tsSim, event.kind)] := by
    change poppedIn EventKind.any (e.trace ++ [.popped event _]) = _
    rw [poppedIn_append, poppedIn_singleton]
    rfl
  have hlast : (poppedIn EventKind.any e₁.trace).getLast? = some (event.tsSim, event.kind) := by
    rw [hpopped, List.getLast?_concat]
  have hprompt₁ : Always Effect.Prompts e₁.trace :=
    always_snoc.2 ⟨hprompt, fun call t market hx => by cases hx⟩
  obtain ⟨new, hw, -⟩ := handleEvent_spec e event
  have htrace : ∀ {new'}, (c.handle event.kind).1.effects = [] ++ new' → new' = new := fun heq =>
    List.append_cancel_left (((trace_absorb _ _).trans (congrArg _ heq)).symm.trans hw.trace)
  have hcore : (e.handleEvent event).1.core = (c.handle event.kind).1.cleared := core_absorb _ _
  have hkept : ∀ {calls t}, Core.Hands calls t (c.noted event.kind) (c.handle event.kind).1 →
      (e.handleEvent event).1.Informed := by
    intro calls t hhands
    refine ⟨h.received.handleEvent event, fun s => ?_, .inr ?_⟩
    · rw [hcore, hw.trace, ticksPopped_append, hw.popped_eq_nil.1, List.append_nil,
        ← h.noted event s]
      exact congrArg (MarketView.lastTrade · s) hhands.market
    · rw [hw.poppedIn_trace, hlast, hw.nowTsSim]
      rfl
  have heffects : (c.noted event.kind).effects = [] := by
    cases event.kind <;> rfl
  rcases Core.hands_handle c event.kind with hhands | ⟨call, t, hmakes, hhands⟩
  · obtain ⟨new', heq, hnew⟩ := hhands.effects
    obtain rfl := htrace (heffects ▸ heq)
    refine ⟨?_, hkept hhands⟩
    have hnone : callsIn new' = ([] : List Call).map (Effect.called · 0 c.market) := hnew
    rw [hw.trace]
    exact Effect.prompts_append hprompt₁ hw.isWork hnone (by simp)
  · obtain ⟨new', heq, hnew⟩ := hhands.effects
    obtain rfl := htrace (heffects ▸ heq)
    refine ⟨?_, hkept hhands⟩
    rw [hw.trace]
    refine Effect.prompts_append hprompt₁ hw.isWork hnew fun done call' rest hsplit => ?_
    obtain ⟨rfl, rfl⟩ : done = [] ∧ call' = call := by
      rcases done with _ | ⟨d, done⟩ <;> simp_all
    rw [List.map_nil, List.append_nil]
    have hticks := h.received.ticks
    have hreports := h.received.reports
    have hhanded : ticksHanded e₁.trace = ticksHanded e.trace ∧
        reportsHanded e₁.trace = reportsHanded e.trace := by
      change ticksHanded (e.trace ++ [.popped event _]) = _ ∧
        reportsHanded (e.trace ++ [.popped event _]) = _
      rw [ticksHanded_append, reportsHanded_append]
      exact ⟨List.append_nil _, List.append_nil _⟩
    have hticksPopped : ticksPopped e₁.trace = ticksPopped e.trace ++ event.kind.ticks := by
      rw [ticksPopped, hpopped, List.flatMap_append]
      exact congrArg _ (List.flatMap_singleton _ _)
    have hreportsPopped : reportsPopped e₁.trace = reportsPopped e.trace ++ event.kind.reports := by
      rw [reportsPopped, hpopped, List.flatMap_append]
      exact congrArg _ (List.flatMap_singleton _ _)
    -- A call in tick mode finds the buffers empty, one for a funding event hands nothing over.
    have hview := h.noted event
    generalize hkind : event.kind = kind at hmakes hticksPopped hreportsPopped hview
    refine ⟨hview, fun hcall => ?_, fun hcall => ?_, fun funding hcall => ?_, ?_⟩
    · cases hmakes with
      | tick mode tick =>
        rw [(h.received.unbuffered mode).1, List.append_nil] at hticks
        rw [hhanded.1, hticks, hticksPopped]
        rfl
      | report mode report => cases hcall rfl
      | funding event => cases hcall rfl
    · cases hmakes with
      | tick mode tick => cases hcall rfl
      | report mode report =>
        rw [(h.received.unbuffered mode).2, List.append_nil] at hreports
        rw [hhanded.2, hreports, hreportsPopped]
        rfl
      | funding event => cases hcall rfl
    · subst hcall
      cases hmakes with
      | funding event => exact ⟨_, hkind ▸ hlast⟩
    · cases hmakes with
      | tick mode tick => exact .inl ⟨tick, rfl, rfl⟩
      | report mode report => exact .inr (by rw [hlast]; rfl)
      | funding event => exact .inr (by rw [hlast]; rfl)

theorem Informed.dispatch (h : e.Informed) (hprompt : Always Effect.Prompts e.trace)
    (event : Event) :
    Always Effect.Prompts (e.dispatch event).1.trace ∧
    ((e.dispatch event).2 = none → (e.dispatch event).1.Informed) := by
  have hevent := h.handleEvent hprompt event
  unfold Engine.dispatch
  split
  · next heq =>
    rw [heq] at hevent
    exact ⟨hevent.1, fun hnone => by cases hnone⟩
  · next heq =>
    rw [heq] at hevent
    exact ⟨hevent.1, fun _ => hevent.2⟩
  · next heq =>
    rw [heq] at hevent
    exact hevent.2.deferredFlush hevent.1 _

/-- An effect that is neither an event nor a call. -/
theorem Informed.snoc (h : e.Informed) {x : Effect} (hcore : e'.core = e.core)
    (htrace : e'.trace = e.trace ++ [x])
    (hx : x.isCall = false ∧ poppedIn EventKind.any [x] = []) : e'.Informed := by
  have hpopped : poppedIn EventKind.any e'.trace = poppedIn EventKind.any e.trace := by
    rw [htrace, poppedIn_append, hx.2, List.append_nil]
  obtain ⟨hticksPopped, hreportsPopped⟩ := Effect.popped_congr hpopped
  have hno : ∀ call t market, Effect.called call t market ∉ [x] := by
    rintro call t market hmem
    rw [← List.mem_singleton.1 hmem] at hx
    cases hx.1
  refine ⟨⟨?_, ?_, hcore ▸ h.received.unbuffered⟩, ?_, ?_⟩
  · rw [hticksPopped, hcore, htrace, ticksHanded_append, ticksHanded_eq_nil hno, List.append_nil]
    exact h.received.ticks
  · rw [hreportsPopped, hcore, htrace, reportsHanded_append, reportsHanded_eq_nil hno,
      List.append_nil]
    exact h.received.reports
  · rw [hticksPopped, hcore]
    exact h.view
  · rw [hpopped, hcore]
    exact h.now

theorem Informed.turn (h : e.Informed) (hprompt : Always Effect.Prompts e.trace) :
    Always Effect.Prompts e.turn.1.trace ∧ (e.turn.2 = .running → e.turn.1.Informed) := by
  have hlog : ∀ (e e' : Engine T U Q S L R) (x : Effect),
    (e.Informed ∧ Always Effect.Prompts e.trace) →
      e'.core = e.core → e'.trace = e.trace ++ [x] → x.isCall = false ∧
        poppedIn EventKind.any [x] = [] →
      e'.Informed ∧ Always Effect.Prompts e'.trace := by
    intro e e' x h hcore htrace hx
    refine ⟨h.1.snoc hcore htrace hx, ?_⟩
    rw [htrace]
    refine always_snoc.2 ⟨h.2, fun call t market heq => ?_⟩
    rw [heq] at hx
    cases hx.1
  obtain ⟨e₁, pass, heq, hturn⟩ := turn_cases e
  have h₁ : e₁.Informed ∧ Always Effect.Prompts e₁.trace := by
    have hingest := ingest_preserves (ε := Strategy.Error S)
      (I := fun e => e.Informed ∧ Always Effect.Prompts e.trace) ⟨h, hprompt⟩
      (fun _ _ _ h => ⟨⟨⟨h.1.received.ticks, h.1.received.reports, h.1.received.unbuffered⟩,
        h.1.view, h.1.now⟩, h.2⟩)
      (fun e record h => hlog e _ (.ingested record) h rfl rfl ⟨rfl, rfl⟩)
      (fun e h => hlog e _ .overflow h rfl rfl ⟨rfl, rfl⟩)
      (fun e ts kind _ h => hlog e _ (.scheduled ts kind) h rfl rfl ⟨rfl, rfl⟩)
    rwa [heq] at hingest
  rcases hturn with ⟨-, hturn, -⟩ | ⟨-, event, queue, -, hturn⟩ | ⟨-, -, hturn⟩ | ⟨-, -, hturn, -⟩
  · rw [hturn]
    exact ⟨h₁.2, fun _ => h₁.1⟩
  · rw [hturn]
    have hqueue : Informed { e₁ with queue := queue } :=
      ⟨⟨h₁.1.received.ticks, h₁.1.received.reports, h₁.1.received.unbuffered⟩, h₁.1.view, h₁.1.now⟩
    have hdispatch := hqueue.dispatch h₁.2 event
    exact ⟨hdispatch.1, fun hok => hdispatch.2 (statusOf_eq_running.1 hok)⟩
  · rw [hturn]
    have hflush := h₁.1.flush h₁.2
    exact ⟨hflush.1, fun hok => hflush.2 (statusOf_eq_running.1 hok)⟩
  · rw [hturn]
    exact ⟨h₁.2, fun _ => h₁.1⟩

variable [SeedableRng R] {allowed : ℤ → EventKind → Prop} {e₀ : Engine T U Q S L R}
  {st : Status (EngineError (Strategy.Error S))}

omit [SeedableRng R] in
theorem informed_external (h : e.Informed ∧ Always Effect.Prompts e.trace)
    (hext : External allowed e e') :
    e'.Informed ∧ Always Effect.Prompts e'.trace := by
  obtain ⟨⟨⟨hticks, hreports, hunbuffered⟩, hview, hnow⟩, hprompt⟩ := h
  cases hext with
  | addTickSource source => exact ⟨⟨⟨hticks, hreports, hunbuffered⟩, hview, hnow⟩, hprompt⟩
  | addL3Source source => exact ⟨⟨⟨hticks, hreports, hunbuffered⟩, hview, hnow⟩, hprompt⟩
  | pushEvent hallowed =>
    exact ⟨Informed.snoc ⟨⟨hticks, hreports, hunbuffered⟩, hview, hnow⟩ rfl rfl ⟨rfl, rfl⟩,
      always_snoc.2 ⟨hprompt, fun call t market hx => by cases hx⟩⟩

theorem Built.informed (built : Built allowed e) : e.Informed ∧ Always Effect.Prompts e.trace := by
  induction built with
  | new queueModel strategy config latencyModel seed =>
    have hview : ∀ s, (Engine.new (T := T) (U := U) (R := R) queueModel strategy config latencyModel
        seed).core.market.lastTrade s = none := by simp [Engine.new, MarketView.lastTrade]
    have hbuilt :
      Built allowed (Engine.new (T := T) (U := U) (R := R) queueModel strategy config latencyModel
        seed) := .new _ _ _ _ _
    exact ⟨⟨hbuilt.received, hview, .inl rfl⟩, always_nil⟩
  | external _ hext ih => exact informed_external ih hext

/-- A run keeps to the events until it fails, and its calls are prompt also then. -/
theorem informed_run (built : Built allowed e₀) (h : Reaches turn (External allowed) e₀ e st) :
    (st = .running → e.Informed) ∧ Always Effect.Prompts e.trace := by
  induction h with
  | start => exact ⟨fun _ => built.informed.1, built.informed.2⟩
  | turn _ ih =>
    have hturn := (ih.1 rfl).turn ih.2
    exact ⟨hturn.2, hturn.1⟩
  | env _ hext ih =>
    have hexternal := informed_external ⟨ih.1 rfl, ih.2⟩ hext
    exact ⟨fun _ => hexternal.1, hexternal.2⟩

/-- Every call of a run is prompt : it shows the last tick of every symbol that was popped for the
strategy, and with what was handed over before it hands over all the ticks, or all the reports, that
were popped. An event of funding is passed on when it is popped. The time is that of the event
popped last, or the local time of the tick. -/
theorem calls_prompt (built : Built allowed e₀) (h : Reaches turn (External allowed) e₀ e st)
    {pre post : List Effect} {call : Call} {t : ℤ} {market : MarketView}
    (hcall : e.trace = pre ++ .called call t market :: post) :
    Effect.IsPrompt pre call t market :=
  (informed_run built h).2 pre _ post hcall call t market rfl

/-- The second tick of a batch is the one that the market view shows. -/
theorem calls_prompt_sample :
    let first : Tick := ⟨1000, 1500, 0, 100, 1, 1, .buy, 0⟩
    let second : Tick := ⟨1100, 1600, 1, 101, 1, 1, .sell, 0⟩
    let e₀ := sample { mode := .batch, maxBatchNs := 300, feedLatencyNs := 500 } 10 []
      [[first, second]]
    let e := (runFor turn 20 e₀).1
    ∃ pre post market, e.trace = pre ++ .called (.onTicks [first, second]) 1800 market :: post ∧
      Effect.IsPrompt pre (.onTicks [first, second]) 1800 market ∧
        market.lastTrade 1 = some second := by
  intro first second e₀ e
  have built : Built (fun _ kind => kind.isBackground = true) e₀ :=
    .external (.new _ _ _ _ _) (.addTickSource [first, second])
  have run : Reaches turn (External fun _ kind => kind.isBackground = true) e₀ e .finished :=
    reaches_of_runFor 20 (by decide +kernel)
  have hcallAt : e.trace[12]?.bind callAt =
    some (.onTicks [first, second], 1800) := by decide +kernel
  obtain ⟨market, hcall⟩ := exists_called hcallAt
  have hprompt := calls_prompt built run hcall
  have hlast : ((ticksPopped (e.trace.take 12)).filter (·.symbolId = 1)).getLast? =
      some second := by
    decide +kernel
  exact ⟨_, _, market, hcall, hprompt, (hprompt.view 1).trans hlast⟩

end Engine

end Backtester
