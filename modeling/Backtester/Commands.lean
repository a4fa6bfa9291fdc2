import Backtester.Dialogue

/-!
# The commands of the strategy

`answers` runs the strategy over the calls of a trace, and `requestsIn` reads off the trace what the
engine carries out. It carries out what the strategy answers, all of it and nothing else, in the
order of the calls (`commands_carried_out`) : the orders are numbered one after the other, and
stamped with the time of their call. A strategy that fails takes the commands of its last flush with
it.
-/

open Run Std

set_option linter.unusedSectionVars false

namespace Backtester

/-! ## Answers -/

/-- The answers of the strategy to the calls of a trace, with the times of the calls. -/
def answers {S : Type} [Strategy S] (s : S) : List Effect →
    Except (Strategy.Error S) (S × List (ℤ × Command))
  | [] => .ok (s, [])
  | .called call t market :: l =>
    match Strategy.answer s call ⟨t, market⟩ with
    | .error err => .error err
    | .ok (s, commands) => (answers s l).map fun r => (r.1, commands.map (t, ·) ++ r.2)
  | _ :: l => answers s l

/-- The command that an effect carries out, with its time. -/
def Effect.request : Effect → Option (ℤ × Command)
  | .accepted order | .refused order _ => some (order.tsSubmit, .submitOrder order)
  | .scheduled ts (.orderCancel orderId) => some (ts, .cancelOrder orderId)
  | _ => none

/-- What the engine was asked for and carried out, with the times, in order. -/
def requestsIn (l : List Effect) : List (ℤ × Command) := l.filterMap Effect.request

/-- The commands as the engine carries them out, when `id` is the next order id. -/
def stamped : ℕ → List (ℤ × Command) → List (ℤ × Command)
  | _, [] => []
  | id, (t, .submitOrder order) :: l =>
    (t, .submitOrder { order with tsSubmit := t, orderId := id }) :: stamped (id + 1) l
  | id, (t, .cancelOrder orderId) :: l => (t, .cancelOrder orderId) :: stamped id l

/-- The command submits an order. -/
def Command.isSubmit : Command → Bool
  | .submitOrder _ => true
  | .cancelOrder _ => false

/-- How many orders are submitted. -/
def submits (l : List (ℤ × Command)) : ℕ := l.countP (·.2.isSubmit)

theorem requestsIn_append (l l' : List Effect) :
    requestsIn (l ++ l') = requestsIn l ++ requestsIn l' :=
  List.filterMap_append

theorem stamped_append (id : ℕ) (l l' : List (ℤ × Command)) :
    stamped id (l ++ l') = stamped id l ++ stamped (id + submits l) l' := by
  induction l generalizing id with
  | nil => rfl
  | cons x l ih =>
    obtain ⟨t, command⟩ := x
    cases command with
    | submitOrder order =>
      have hsubmits : submits ((t, .submitOrder order) :: l) = submits l + 1 :=
        List.countP_cons_of_pos rfl
      rw [List.cons_append, stamped, ih, hsubmits, stamped, Nat.add_right_comm, Nat.add_assoc id]
      rfl
    | cancelOrder orderId =>
      have hsubmits : submits ((t, .cancelOrder orderId) :: l) = submits l :=
        List.countP_cons_of_neg (by simp [Command.isSubmit])
      rw [List.cons_append, stamped, ih, hsubmits, stamped]
      rfl

section Answers

variable {S : Type} [Strategy S] {s s' s'' : S} {id id' id'' : ℕ} {l l' : List Effect}
  {commands : List (ℤ × Command)} {err : Strategy.Error S} {broke : Strategy.Error S → Prop}

theorem answers_append (h : answers s l = .ok (s', commands)) :
    answers s (l ++ l') = (answers s' l').map fun r => (r.1, commands ++ r.2) := by
  induction l generalizing s commands with
  | nil =>
    obtain ⟨rfl, rfl⟩ := Prod.mk.inj (Except.ok.inj h)
    rw [List.nil_append]
    cases answers s l' <;> rfl
  | cons x l ih =>
    cases x with
    | called call t market =>
      rw [answers] at h
      rw [List.cons_append, answers]
      split at h
      · cases h
      · next s₁ commands₁ _ =>
        cases hrest : answers s₁ l with
        | error err =>
          rw [hrest] at h
          cases h
        | ok r =>
          rw [hrest] at h
          obtain ⟨rfl, rfl⟩ := Prod.mk.inj (Except.ok.inj h)
          rw [ih hrest]
          cases answers r.1 l' with
          | error err => rfl
          | ok r' => simp [Except.map]
    | _ => exact ih h

theorem answers_of_idle (h : ∀ x ∈ l, x.isCall = false) : answers s l = .ok (s, []) := by
  induction l with
  | nil => rfl
  | cons x l ih =>
    have hx := h x List.mem_cons_self
    have hl := ih fun y hy => h y (List.mem_cons_of_mem _ hy)
    cases x with
    | called call t market => cases hx
    | _ => exact hl

/-- The calls in `l` are answered, and the answers carried out : this leads the strategy from `s` to
`s'`, and the next order id from `id` to `id'`. -/
def Obeyed (s : S) (id : ℕ) (l : List Effect) (s' : S) (id' : ℕ) : Prop :=
  ∃ commands, answers s l = .ok (s', commands) ∧ requestsIn l = stamped id commands ∧
    id' = id + submits commands

/-- The same, unless the strategy fails with an error of `broke`. -/
structure Served (s : S) (id : ℕ) (l : List Effect) (s' : S) (id' : ℕ)
    (broke : Strategy.Error S → Prop) :
    Prop where
  obeyed : (∀ err, ¬broke err) → Obeyed s id l s' id'
  balked : ∀ err, broke err → answers s l = .error err

namespace Obeyed

theorem idle (h : ∀ x ∈ l, x.isCall = false ∧ x.request = none) : Obeyed s id l s id :=
  ⟨[], answers_of_idle fun x hx => (h x hx).1, List.filterMap_eq_nil_iff.2 fun x hx => (h x hx).2,
    rfl⟩

theorem trans (h : Obeyed s id l s' id') (h' : Obeyed s' id' l' s'' id'') :
    Obeyed s id (l ++ l') s'' id'' := by
  obtain ⟨commands, hanswers, hrequests, rfl⟩ := h
  obtain ⟨commands', hanswers', hrequests', rfl⟩ := h'
  refine ⟨commands ++ commands', ?_, ?_, ?_⟩
  · rw [answers_append hanswers, hanswers']
    rfl
  · rw [requestsIn_append, hrequests, hrequests', stamped_append]
  · rw [Nat.add_assoc]
    exact congrArg _ List.countP_append.symm

theorem served (h : Obeyed s id l s' id') (hsound : ∀ err, ¬broke err) :
    Served s id l s' id' broke :=
  ⟨fun _ => h, fun err herr => absurd herr (hsound err)⟩

theorem then_served (h : Obeyed s id l s' id') (h' : Served s' id' l' s'' id'' broke) :
    Served s id (l ++ l') s'' id'' broke := by
  refine ⟨fun hsound => h.trans (h'.obeyed hsound), fun err herr => ?_⟩
  obtain ⟨commands, hanswers, -⟩ := h
  rw [answers_append hanswers, h'.balked err herr]
  rfl

end Obeyed

end Answers

/-! ## The handlers -/

namespace Core

variable {Q S L R : Type} [QueueModel Q] [Strategy S] {c c' c'' : Core Q S L R} {t : ℤ}
  {broke : Strategy.Error S → Prop}

/-- What the core goes through is obeyed. -/
def Obeys (c c' : Core Q S L R) : Prop :=
  ∃ new, c'.effects = c.effects ++ new ∧
    Obeyed c.strategy c.nextOrderId new c'.strategy c'.nextOrderId

/-- What the core goes through is obeyed, unless the strategy ends the run. -/
def Minds (c c' : Core Q S L R) (broke : Strategy.Error S → Prop) : Prop :=
  ∃ new, c'.effects = c.effects ++ new ∧
    Served c.strategy c.nextOrderId new c'.strategy c'.nextOrderId broke

namespace Obeys

theorem same (heffects : c'.effects = c.effects) (hstrategy : c'.strategy = c.strategy)
    (hnext : c'.nextOrderId = c.nextOrderId) : Obeys c c' := by
  refine ⟨[], by rw [heffects, List.append_nil], ?_⟩
  rw [hstrategy, hnext]
  exact .idle (by simp)

theorem trans (h : Obeys c c') (h' : Obeys c' c'') : Obeys c c'' := by
  obtain ⟨new, heq, hobeyed⟩ := h
  obtain ⟨new', heq', hobeyed'⟩ := h'
  exact ⟨new ++ new', by rw [heq', heq, List.append_assoc], hobeyed.trans hobeyed'⟩

theorem minds (h : Obeys c c') (hsound : ∀ err, ¬broke err) : Minds c c' broke := by
  obtain ⟨new, heq, hobeyed⟩ := h
  exact ⟨new, heq, hobeyed.served hsound⟩

theorem then_minds (h : Obeys c c') (h' : Minds c' c'' broke) : Minds c c'' broke := by
  obtain ⟨new, heq, hobeyed⟩ := h
  obtain ⟨new', heq', hserved⟩ := h'
  exact ⟨new ++ new', by rw [heq', heq, List.append_assoc], hobeyed.then_served hserved⟩

/-- Work of the exchange side carries out no command. -/
theorem of_posts {t' : ℤ} {kind : EventKind} {symbol : Option ℕ} (hquiet : Quiet t c c')
    (hposts : Posts (Entry.Suits kind t' symbol) c c') : Obeys c c' := by
  obtain ⟨new, heq, ⟨entries, hentries, hledger⟩, hcommanded⟩ := hposts
  obtain ⟨new', heq', hnew, -⟩ := hquiet.effects
  obtain rfl : new' = new := List.append_cancel_left (heq'.symm.trans heq)
  have hnext : c'.nextOrderId = c.nextOrderId := by
    refine (congrArg Ledger.nextOrderId hledger).trans
      (Ledger.nextOrderId_posts fun entry hmem ts order heq => ?_)
    have hsuits := hentries entry hmem
    rw [heq] at hsuits
    exact hsuits
  refine ⟨new', heq, ?_⟩
  rw [hquiet.strategy, hnext]
  refine .idle fun x hx => ⟨?_, ?_⟩
  · have hx := hnew x hx
    cases x <;> first | rfl | cases hx
  · have hx := hcommanded x hx
    cases x with
    | scheduled ts kind => cases kind <;> first | rfl | cases hx
    | _ => first | rfl | cases hx

end Obeys

/-- A command is carried out as it is stamped. -/
theorem handleCommand_effects (c : Core Q S L R) (t : ℤ) (command : Command) :
    (c.handleCommand t command).strategy = c.strategy ∧
    (c.handleCommand t command).nextOrderId = c.nextOrderId + submits [(t, command)] ∧
    ∃ new, (c.handleCommand t command).effects = c.effects ++ new ∧ (∀ x ∈ new, x.isCall = false) ∧
      requestsIn new = stamped c.nextOrderId [(t, command)] := by
  cases command with
  | cancelOrder orderId =>
    exact ⟨rfl, rfl, [.scheduled t (.orderCancel orderId)], rfl, by simp [Effect.isCall], rfl⟩
  | submitOrder order =>
    let order' : Order := { order with tsSubmit := t, orderId := c.nextOrderId }
    change (c.claimId.screenOrder t order').strategy = _ ∧
      (c.claimId.screenOrder t order').nextOrderId = _ ∧
      ∃ new, (c.claimId.screenOrder t order').effects = _ ∧ _
    unfold screenOrder
    split
    · next reason _ =>
      rw [pushAfterSat_eq]
      refine ⟨rfl, rfl, .refused order' reason :: pushEffects t _ _ _,
        List.append_assoc _ [_] _, ?_, ?_⟩
      · unfold pushEffects
        split_ifs <;> simp [Effect.isCall]
      · unfold pushEffects
        split_ifs <;> rfl
    · exact ⟨rfl, rfl, [.accepted order', .scheduled t (.order order')],
        List.append_assoc _ [_] [_],
        by simp [Effect.isCall], rfl⟩

theorem handleCommands_effects (c : Core Q S L R) (commands : List Command) (t : ℤ) :
    (c.handleCommands commands t).strategy = c.strategy ∧
    (c.handleCommands commands t).nextOrderId = c.nextOrderId + submits (commands.map (t, ·)) ∧
    ∃ new, (c.handleCommands commands t).effects = c.effects ++ new ∧
      (∀ x ∈ new, x.isCall = false) ∧
      requestsIn new = stamped c.nextOrderId (commands.map (t, ·)) := by
  induction commands generalizing c with
  | nil => exact ⟨rfl, rfl, [], (List.append_nil _).symm, by simp, rfl⟩
  | cons command commands ih =>
    obtain ⟨hstrategy, hnext, new, heq, hnew, hrequests⟩ := handleCommand_effects c t command
    obtain ⟨hstrategy', hnext', new', heq', hnew', hrequests'⟩ := ih (c.handleCommand t command)
    have hsplit : (command :: commands).map (t, ·) = [(t, command)] ++ commands.map (t, ·) := rfl
    have hsubmits : submits ((command :: commands).map (t, ·)) =
        submits [(t, command)] + submits (commands.map (t, ·)) := by
      rw [hsplit]
      exact List.countP_append
    refine ⟨hstrategy'.trans hstrategy, ?_, new ++ new', ?_, ?_, ?_⟩
    · rw [hsubmits, ← Nat.add_assoc, ← hnext]
      exact hnext'
    · rw [← List.append_assoc, ← heq]
      exact heq'
    · exact fun x hx => (List.mem_append.1 hx).elim (hnew x) (hnew' x)
    · rw [requestsIn_append, hrequests, hrequests', hnext, hsplit, stamped_append]

/-- Calls whose answers are carried out together. -/
theorem obeys_calls {calls : List Call} {market : MarketView} {commands : List Command}
    (heffects : c'.effects = c.effects ++ calls.map (Effect.called · t market))
    (hnext : c'.nextOrderId = c.nextOrderId)
    (hanswers : answers c.strategy (calls.map (Effect.called · t market)) =
      .ok (c'.strategy, commands.map (t, ·))) : Obeys c (c'.handleCommands commands t) := by
  obtain ⟨hstrategy, hnext', new, heq, hnew, hrequests⟩ := handleCommands_effects c' commands t
  refine ⟨calls.map (Effect.called · t market) ++ new, by rw [heq, heffects, List.append_assoc],
    commands.map (t, ·), ?_, ?_, by rw [hnext', hnext]⟩
  · rw [answers_append hanswers, answers_of_idle hnew, hstrategy]
    simp [Except.map]
  · have hnone : requestsIn (calls.map (Effect.called · t market)) = [] :=
      List.filterMap_eq_nil_iff.2 fun x hx => by
        obtain ⟨call, -, rfl⟩ := List.mem_map.1 hx
        rfl
    rw [requestsIn_append, hnone, List.nil_append, hrequests, hnext]

theorem answers_call (s : S) (call : Call) (t : ℤ) (market : MarketView) :
    answers s [.called call t market] =
      (Strategy.answer s call ⟨t, market⟩).map fun r => (r.1, r.2.map (t, ·)) := by
  rw [answers]
  cases Strategy.answer s call ⟨t, market⟩ with
  | error err => rfl
  | ok r => simp [answers, Except.map]

/-- A call is answered, and the strategy moves on if it does not fail. -/
theorem answered_call (c : Core Q S L R) (call : Call) (t : ℤ) :
    (∃ err, answers c.strategy [.called call t c.market] = .error err ∧
      c.call call t = (c.afterCall call t c.strategy, .error err)) ∨
    ∃ strategy commands, answers c.strategy
      [.called call t c.market] = .ok (strategy, commands.map (t, ·)) ∧
      c.call call t = (c.afterCall call t strategy, .ok commands) := by
  rw [answers_call]
  simp only [Core.call]
  split
  · next err heq =>
    refine .inl ⟨err, ?_, rfl⟩
    rw [show Strategy.answer c.strategy call ⟨t, c.market⟩ = .error err from heq]
    rfl
  · next strategy commands heq =>
    refine .inr ⟨strategy, commands, ?_, rfl⟩
    rw [show Strategy.answer c.strategy call ⟨t, c.market⟩ = .ok (strategy, commands) from heq]
    rfl

theorem minds_wake (c : Core Q S L R) (call : Call) (t : ℤ) (wakeup : Bool) :
    Minds c (c.wake call t wakeup).1 fun err => (c.wake call t wakeup).2 =
      .fail (.strategy err) := by
  rcases answered_call c call t with ⟨err, hanswer, heq⟩ | ⟨strategy, commands, hanswer, heq⟩
  · have hwake : c.wake call t wakeup = (c.afterCall call t c.strategy, .fail (.strategy err)) := by
      simp only [wake, heq]
    rw [hwake]
    refine ⟨[.called call t c.market], rfl, fun hsound => absurd rfl (hsound err),
      fun err' herr => ?_⟩
    obtain rfl : err = err' := EngineError.strategy.inj (Flow.fail.inj herr)
    exact hanswer
  · have hwake : c.wake call t wakeup =
        ((c.afterCall call t strategy).handleCommands commands t, .next wakeup) := by
      simp only [wake, heq]
    rw [hwake]
    have hcalls : answers c.strategy ([call].map (Effect.called · t c.market)) =
      .ok ((c.afterCall call t strategy).strategy, commands.map (t, ·)) := hanswer
    have hobeys := obeys_calls (by rfl) (by rfl) hcalls
    exact hobeys.minds fun err herr => by cases herr

theorem flushTicks_answer (c : Core Q S L R) (t : ℤ) :
    (∃ err, answers c.strategy (c.tickCalls.map (Effect.called · t c.market)) = .error err ∧
      c.flushTicks t = (c.handed t c.strategy c.tickCalls c.tickBuffer c.reportBuffer,
        .error err)) ∨
    ∃ strategy commands,
      answers c.strategy (c.tickCalls.map (Effect.called · t c.market)) =
        .ok (strategy, commands.map (t, ·)) ∧
      c.flushTicks t = (c.handed t strategy c.tickCalls [] c.reportBuffer, .ok commands) := by
  unfold flushTicks tickCalls
  split_ifs with hb
  · refine .inr ⟨c.strategy, [], rfl, ?_⟩
    simp only [List.isEmpty_iff] at hb
    simp [handed, ← hb]
  · rcases answered_call c (.onTicks c.tickBuffer) t with ⟨err, hanswer, h⟩ |
      ⟨strategy, commands, hanswer, h⟩
    · exact .inl ⟨err, hanswer, by simp [h, handed, afterCall, emit]⟩
    · exact .inr ⟨strategy, commands, hanswer, by simp [h, handed, afterCall, emit]⟩

theorem flushReports_answer (c : Core Q S L R) (t : ℤ) :
    (∃ err, answers c.strategy (c.reportCalls.map (Effect.called · t c.market)) = .error err ∧
      c.flushReports t = (c.handed t c.strategy c.reportCalls c.tickBuffer c.reportBuffer,
        .error err)) ∨
    ∃ strategy commands,
      answers c.strategy (c.reportCalls.map (Effect.called · t c.market)) =
        .ok (strategy, commands.map (t, ·)) ∧
      c.flushReports t = (c.handed t strategy c.reportCalls c.tickBuffer [], .ok commands) := by
  unfold flushReports reportCalls
  split_ifs with hb
  · refine .inr ⟨c.strategy, [], rfl, ?_⟩
    simp only [List.isEmpty_iff] at hb
    simp [handed, ← hb]
  · rcases answered_call c (.onOrderUpdates c.reportBuffer) t with
      ⟨err, hanswer, h⟩ | ⟨strategy, commands, hanswer, h⟩
    · exact .inl ⟨err, hanswer, by simp [h, handed, afterCall, emit]⟩
    · exact .inr ⟨strategy, commands, hanswer, by simp [h, handed, afterCall, emit]⟩

/-- A flush carries out the commands of its calls together, and none of them when the strategy
fails. -/
theorem minds_flushStrategy (c : Core Q S L R) (t : ℤ) :
    Minds c (c.flushStrategy t).1 fun err => (c.flushStrategy t).2 = some (.strategy err) := by
  unfold flushStrategy
  split_ifs with hb
  · exact (Obeys.same rfl rfl rfl).minds fun err => by simp
  · rw [show { c with activeBatchTimerId := none } = c.disarmed from rfl]
    rcases flushTicks_answer c.disarmed t with ⟨err, hanswer, h⟩ | ⟨strategy, commands, hanswer, h⟩
    · rw [h]
      refine ⟨_, rfl, fun hsound => absurd rfl (hsound err), fun err' herr => ?_⟩
      obtain rfl : err = err' := EngineError.strategy.inj (Option.some.inj herr)
      exact hanswer
    · rw [h]
      let c₁ := c.disarmed.handed t strategy c.disarmed.tickCalls [] c.disarmed.reportBuffer
      have hcalls : ∀ {r}, answers strategy (c₁.reportCalls.map (Effect.called · t c.market)) = r →
          answers c.strategy ((c.tickCalls ++ c₁.reportCalls).map (Effect.called · t c.market)) =
            r.map fun r => (r.1, commands.map (t, ·) ++ r.2) := by
        rintro r rfl
        rw [List.map_append]
        exact answers_append hanswer
      rcases flushReports_answer c₁ t with ⟨err, hanswer', h'⟩ |
        ⟨strategy', commands', hanswer', h'⟩
      · simp only [c₁] at h'
        simp only [h', handed_handed]
        refine ⟨_, rfl, fun hsound => absurd rfl (hsound err), fun err' herr => ?_⟩
        obtain rfl : err = err' := EngineError.strategy.inj (Option.some.inj herr)
        exact hcalls hanswer'
      · simp only [c₁] at h'
        simp only [h', handed_handed]
        have hboth := hcalls hanswer'
        have hmap :
          ((strategy', commands'.map (t, ·)).1, commands.map (t, ·) ++ commands'.map (t, ·)) =
          (strategy', (commands ++ commands').map (t, ·)) := by rw [List.map_append]
        have hcalls' :
          answers c.strategy ((c.tickCalls ++ c₁.reportCalls).map (Effect.called · t c.market)) =
            .ok
              ((c.disarmed.handed t strategy' (c.disarmed.tickCalls ++ c₁.reportCalls) []
              []).strategy,
              (commands ++ commands').map (t, ·)) := hboth.trans (congrArg Except.ok hmap)
        have hobeys := obeys_calls (by rfl) (by rfl) hcalls'
        refine (hobeys.trans ?_).minds fun err herr => by cases herr
        unfold tune
        split_ifs
        · exact .same rfl rfl rfl
        · exact .same rfl rfl rfl

/-- A handler of the exchange side cannot fail by the strategy. -/
theorem minds_handle [LatencyModel L R] (hfiled : c.ledger.Filed) (kind : EventKind) :
    Minds c (c.handle kind).1 fun err => (c.handle kind).2 = .fail (.strategy err) := by
  cases kind with
  | tick tick =>
    exact (Obeys.of_posts (quiet_onTickEvent c tick) (posts_onTickEvent hfiled tick)).minds
      fun err herr => by
      cases herr
  | tickDelivery tick =>
    have hobserve : Obeys c (c.observeDelivery tick) := .same rfl rfl rfl
    change Minds c (c.onTickDelivery tick).1 fun err => (c.onTickDelivery tick).2 =
      .fail (.strategy err)
    unfold onTickDelivery
    dsimp only
    split
    · exact hobserve.then_minds (minds_wake _ _ _ _)
    · split_ifs
      · unfold armTimer
        rw [pushAfter_eq]
        refine Obeys.minds ⟨_, rfl, .idle fun x hx => ?_⟩ fun err herr => by cases herr
        unfold pushEffects at hx
        split_ifs at hx
        · obtain rfl := List.mem_singleton.1 hx
          exact ⟨rfl, rfl⟩
        · rcases List.mem_pair.1 hx with rfl | rfl <;> exact ⟨rfl, rfl⟩
      · exact (Obeys.same rfl rfl rfl).minds fun err herr => by cases herr
  | l2Update update =>
    refine (Obeys.of_posts (quiet_onL2Update (t := 0) c update)
      (posts_onL2Update (t := 0) update)).minds fun err herr => ?_
    simp only [handle, onL2Update] at herr
    split_ifs at herr
    cases herr
  | l3Update update =>
    refine (Obeys.of_posts (quiet_onL3Update (t := 0) c update)
      (posts_onL3Update (t := 0) update)).minds fun err herr => ?_
    simp only [handle, onL3Update] at herr
    split_ifs at herr
    · cases herr
    · split at herr <;> cases herr
  | order order =>
    exact (Obeys.of_posts (quiet_onOrder c order) (posts_onOrder (t := 0) order)).minds
      fun err herr => by
      cases herr
  | orderAck n =>
    refine (Obeys.of_posts (quiet_onOrderAck c n) (posts_onOrderAck hfiled n)).minds
      fun err herr => ?_
    simp only [handle, onOrderAck] at herr
    split at herr
    · cases herr
    · split at herr
      · cases herr
      · split at herr <;> cases herr
  | orderCancel n =>
    refine (Obeys.of_posts (quiet_onOrderCancel c n) (posts_onOrderCancel (t := 0) n)).minds
      fun err herr => ?_
    simp only [handle, onOrderCancel] at herr
    split at herr
    · cases herr
    · split at herr <;> cases herr
  | orderCancelAck n =>
    refine (Obeys.of_posts (quiet_onOrderCancelAck c n) (posts_onOrderCancelAck (t := 0) n)).minds
      fun err herr => ?_
    simp only [handle, onOrderCancelAck] at herr
    split at herr
    · cases herr
    · split at herr <;> cases herr
  | orderReport report =>
    have hforget := Obeys.of_posts (quiet_forget (t := 0) c report) (posts_forget (t := 0) report)
    simp only [handle, onOrderReport]
    split
    · exact hforget.then_minds (minds_wake _ _ _ _)
    · exact (hforget.trans (.same rfl rfl rfl)).minds fun err herr => by cases herr
  | funding event =>
    have hfunding := Obeys.of_posts (quiet_applyFunding (t := 0) c event)
      (posts_applyFunding (t := 0) event (some event.symbolId))
    exact hfunding.then_minds (minds_wake _ _ _ _)
  | timer timerId =>
    change Minds c (c.onTimer timerId).1 fun err => (c.onTimer timerId).2 = .fail (.strategy err)
    unfold onTimer
    split_ifs
    · exact (Obeys.same rfl rfl rfl).minds fun err herr => by cases herr
    · exact (Obeys.same rfl rfl rfl).minds fun err herr => by cases herr

end Core

/-! ## The engine -/

namespace Engine

variable {T U Q S L R : Type} [QueueModel Q] [TickSource T] [L3Source U] [Strategy S]
  {e e' e'' : Engine T U Q S L R} {broke : Strategy.Error S → Prop}

/-- What the engine goes through is obeyed. -/
def Obeys (e e' : Engine T U Q S L R) : Prop :=
  ∃ new, e'.trace = e.trace ++ new ∧
    Obeyed e.core.strategy e.core.nextOrderId new e'.core.strategy e'.core.nextOrderId

/-- What the engine goes through is obeyed, unless the strategy ends the run. -/
def Minds (e e' : Engine T U Q S L R) (broke : Strategy.Error S → Prop) : Prop :=
  ∃ new, e'.trace = e.trace ++ new ∧
    Served e.core.strategy e.core.nextOrderId new e'.core.strategy e'.core.nextOrderId broke

/-- Effects that are neither calls nor commands. -/
theorem Obeys.idle {new : List Effect} (hcore : e'.core.strategy = e.core.strategy)
    (hnext : e'.core.nextOrderId = e.core.nextOrderId) (htrace : e'.trace = e.trace ++ new)
    (hnew : ∀ x ∈ new, x.isCall = false ∧ x.request = none) : Obeys e e' := by
  refine ⟨new, htrace, ?_⟩
  rw [hcore, hnext]
  exact .idle hnew

theorem Obeys.then_minds (h : Obeys e e') (h' : Minds e' e'' broke) : Minds e e'' broke := by
  obtain ⟨new, heq, hobeyed⟩ := h
  obtain ⟨new', heq', hserved⟩ := h'
  exact ⟨new ++ new', by rw [heq', heq, List.append_assoc], hobeyed.then_served hserved⟩

theorem Minds.obeys (h : Minds e e' broke) (hsound : ∀ err, ¬broke err) : Obeys e e' := by
  obtain ⟨new, heq, hserved⟩ := h
  exact ⟨new, heq, hserved.obeyed hsound⟩

theorem Minds.mono {broke' : Strategy.Error S → Prop} (h : Minds e e' broke)
    (hbroke : ∀ err, broke' err ↔ broke err) : Minds e e' broke' := by
  rwa [show broke' = broke from funext fun err => propext (hbroke err)]

/-- A core that minds the strategy is absorbed. -/
theorem minds_absorb {c core : Core Q S L R} (hc : c.effects = [])
    (hstrategy : c.strategy = e.core.strategy)
    (hnext : c.nextOrderId = e.core.nextOrderId) (h : Core.Minds c core broke) :
    Minds e (e.absorb core) broke := by
  obtain ⟨new, heq, hserved⟩ := h
  refine ⟨new, ?_, ?_⟩
  · rw [trace_absorb, heq, hc, List.nil_append]
  · rw [core_absorb, ← hstrategy, ← hnext]
    exact hserved

theorem minds_flush (e : Engine T U Q S L R) :
    Minds e e.flush.1 fun err => e.flush.2 = some (.strategy err) :=
  minds_absorb (c := e.core.cleared) rfl rfl rfl (Core.minds_flushStrategy _ _)

theorem minds_deferredFlush (e : Engine T U Q S L R) (wakeup : Bool) :
    Minds e (e.deferredFlush wakeup).1 fun err => (e.deferredFlush wakeup).2 =
      some (.strategy err) := by
  have hflush := minds_flush e
  have hsame : ∀ {e' : Engine T U Q S L R} {b}, e' = e ∨ e' = e.setPendingWakeup b →
      Minds e e' fun err : Strategy.Error S => False := by
    rintro e' b (rfl | rfl) <;>
      exact ⟨[], (List.append_nil _).symm, (Obeyed.idle (by simp)).served fun err herr => herr⟩
  unfold deferredFlush
  split_ifs
  · split
    · next heq =>
      rw [heq] at hflush
      exact hflush
    · next heq =>
      rw [heq] at hflush
      exact hflush
  · exact (hsame (.inr rfl)).mono fun err => by simp
  · exact (hsame (b := true) (.inl rfl)).mono fun err => by simp

/-- No source fails with an error of the strategy. -/
theorem ingest_ne_strategy (e : Engine T U Q S L R) (err : Strategy.Error S) :
    e.ingest.2 ≠ .fault (.strategy err) := by
  intro herr
  unfold ingest at herr
  split at herr
  · cases herr
  · dsimp only at herr
    split at herr
    · cases herr
    · split at herr
      · unfold ingestL3 at herr
        split at herr
        · cases herr
        · cases herr
        · dsimp only at herr
          split at herr <;> cases herr
      · unfold ingestTick at herr
        split at herr
        · cases herr
        · cases herr
        · dsimp only at herr
          split at herr <;> cases herr
      · cases herr

variable [LatencyModel L R]

theorem minds_dispatch (hfiled : e.core.ledger.Filed) (event : Event) :
    Minds e (e.dispatch event).1 fun err => (e.dispatch event).2 = some (.strategy err) := by
  have hlog : Obeys e (e.log (.popped event e.core.activeBatchTimerId)) :=
    .idle rfl rfl rfl fun x hx => by
      obtain rfl := List.mem_singleton.1 hx
      exact ⟨rfl, rfl⟩
  have hevent : Minds e (e.handleEvent event).1 fun err => (e.handleEvent event).2 =
      .fail (.strategy err) :=
    hlog.then_minds (minds_absorb (c := e.core.cleared.atTime event.tsSim) rfl rfl rfl
      (Core.minds_handle (c := e.core.cleared.atTime event.tsSim) hfiled event.kind))
  unfold dispatch
  split
  · next err heq =>
    rw [heq] at hevent
    exact hevent.mono fun err' => by simp
  · next heq =>
    rw [heq] at hevent
    exact hevent.mono fun err' => by simp
  · next heq =>
    rw [heq] at hevent
    exact (hevent.obeys fun err herr => by cases herr).then_minds (minds_deferredFlush _ _)

theorem minds_turn (hfiled : e.core.ledger.Filed) :
    Minds e e.turn.1 fun err => e.turn.2 = .failed (.strategy err) := by
  obtain ⟨e₁, pass, heq, hturn⟩ := turn_cases e
  obtain ⟨hcore, intake, htrace, hintake⟩ := e.ingest_frame (ε := Strategy.Error S)
  rw [heq] at hcore htrace
  have hingest : Obeys e e₁ := by
    refine .idle (congrArg Core.strategy hcore) (congrArg Core.nextOrderId hcore) htrace
      fun x hx => ?_
    have hx := hintake x hx
    cases x with
    | scheduled ts kind => cases kind <;> first | exact ⟨rfl, rfl⟩ | cases hx
    | _ => first | exact ⟨rfl, rfl⟩ | cases hx
  have hidle : ∀ {broke : Strategy.Error S → Prop}, (∀ err, ¬broke err) → Minds e e₁ broke := by
    intro broke hsound
    obtain ⟨new, htrace, hobeyed⟩ := hingest
    exact ⟨new, htrace, hobeyed.served hsound⟩
  rcases hturn with ⟨hpass, hturn, -⟩ | ⟨-, event, queue, -, hturn⟩ | ⟨-, -, hturn⟩ |
    ⟨-, -, hturn, -⟩
  · rw [hturn]
    refine hidle fun err herr => ?_
    have hfault := ingest_ne_strategy e err
    unfold turn at herr
    rw [heq] at herr hfault
    cases pass with
    | ingested => cases herr
    | fault err' =>
      obtain rfl : err' = .strategy err := Status.failed.inj herr
      exact hfault rfl
    | settled => exact hpass rfl
  · rw [hturn]
    have hdispatch := minds_dispatch (e := { e₁ with queue := queue }) (hcore ▸ hfiled) event
    have hqueue : Obeys e { e₁ with queue := queue } := hingest
    exact (hqueue.then_minds hdispatch).mono fun err => statusOf_eq_failed
  · rw [hturn]
    exact (hingest.then_minds (minds_flush e₁)).mono fun err => statusOf_eq_failed
  · rw [hturn]
    exact hidle fun err herr => by cases herr

/-! ## Runs -/

variable [SeedableRng R] {allowed : ℤ → EventKind → Prop} {e₀ : Engine T U Q S L R}
  {st : Status (EngineError (Strategy.Error S))}

omit [LatencyModel L R] [SeedableRng R] in
theorem obeys_external (outside : ∀ ts kind, allowed ts kind → kind.isOrderEvent = false)
    (h : External allowed e e') : Obeys e e' := by
  cases h with
  | addTickSource source => exact .idle rfl rfl (List.append_nil _).symm (by simp)
  | addL3Source source => exact .idle rfl rfl (List.append_nil _).symm (by simp)
  | @pushEvent ts kind hallowed =>
    refine .idle rfl rfl rfl fun x hx => ?_
    obtain rfl := List.mem_singleton.1 hx
    have hkind := outside ts kind hallowed
    cases kind <;> first | exact ⟨rfl, rfl⟩ | cases hkind

theorem Built.obeyed (built : Built allowed e)
    (outside : ∀ ts kind, allowed ts kind → kind.isOrderEvent = false) :
    Obeyed e.core.strategy 1 e.trace e.core.strategy e.core.nextOrderId := by
  induction built with
  | new => exact .idle (by simp [Engine.new])
  | external _ hext ih =>
    have hstrategy : ∀ {e e' : Engine T U Q S L R}, External allowed e e' →
        e'.core.strategy = e.core.strategy := by
      intro e e' hext
      cases hext <;> rfl
    obtain ⟨new, htrace, hobeyed⟩ := obeys_external outside hext
    rw [htrace, hstrategy hext]
    rw [hstrategy hext] at hobeyed
    exact ih.trans hobeyed

/-- What is carried out in a run, up to where it stops. -/
theorem served_run (built : Built allowed e₀)
    (outside : ∀ ts kind, allowed ts kind → kind.isOrderEvent = false)
    (h : Reaches turn (External allowed) e₀ e st) :
    Served e₀.core.strategy 1 e.trace e.core.strategy e.core.nextOrderId fun err =>
      st = .failed (.strategy err) := by
  induction h with
  | start => exact (built.obeyed outside).served fun err herr => by cases herr
  | turn run ih =>
    have hfiled := (ledger_invariant (I := fun _ => True) built run (fun _ _ => trivial)
      fun _ _ _ _ _ => trivial).1
    obtain ⟨new, htrace, hserved⟩ := minds_turn hfiled
    rw [htrace]
    exact (ih.obeyed fun err herr => by cases herr).then_served hserved
  | env run hext ih =>
    obtain ⟨new, htrace, hobeyed⟩ := obeys_external outside hext
    rw [htrace]
    exact ((ih.obeyed fun err herr => by cases herr).trans hobeyed).served
      fun err herr => by cases herr

/-- The engine carries out the answers of the strategy. In every run that the strategy does not end,
it answers the calls of the trace one after the other with `commands`, and is where its answers have
brought it. What is carried out are these commands in this order, no more and no less : every order
with the next id and the time of its call, whether the risk guard lets it pass or not. In a run that
the strategy ends, its error is the answer. -/
theorem commands_carried_out (built : Built allowed e₀)
    (outside : ∀ ts kind, allowed ts kind → kind.isOrderEvent = false)
    (h : Reaches turn (External allowed) e₀ e st) :
    ((∀ err, st ≠ .failed (.strategy err)) → ∃ commands,
      answers e₀.core.strategy e.trace = .ok (e.core.strategy, commands) ∧
      requestsIn e.trace = stamped 1 commands ∧ e.core.nextOrderId = 1 + submits commands) ∧
    ∀ err, st = .failed (.strategy err) → answers e₀.core.strategy e.trace = .error err :=
  have hserved := served_run built outside h
  ⟨hserved.obeyed, hserved.balked⟩

/-- Two orders and a cancel; the second order is too large for the risk guard. -/
theorem commands_carried_out_sample :
    let order : Order := ⟨0, 0, 0, 0, 100, 1, 1, .buy, .limit⟩
    let large : Order := { order with qty := 9 }
    let first : Tick := ⟨1000, 0, 0, 101, 1, 1, .buy, 0⟩
    let second : Tick := ⟨2000, 0, 1, 101, 1, 1, .buy, 0⟩
    let e₀ := sample { maxPosition := 5 } 10
      [[.submitOrder order, .cancelOrder 1], [.submitOrder large]] [[first, second]]
    let e := (runFor turn 20 e₀).1
    requestsIn e.trace = [(1000, .submitOrder { order with tsSubmit := 1000, orderId := 1 }),
      (1000, .cancelOrder 1), (2000, .submitOrder { large with tsSubmit := 2000, orderId := 2 })] ∧
    ∃ commands, answers e₀.core.strategy e.trace = .ok (e.core.strategy, commands) ∧
      requestsIn e.trace = stamped 1 commands ∧ e.core.nextOrderId = 1 + submits commands := by
  intro order large first second e₀ e
  have built : Built (fun _ kind => kind.isBackground = true) e₀ :=
    .external (.new _ _ _ _ _) (.addTickSource [first, second])
  have outside : ∀ (ts : ℤ) (kind : EventKind), kind.isBackground = true →
      kind.isOrderEvent = false :=
    fun _ kind hk => by cases kind <;> first | rfl | cases hk
  have run : Reaches turn (External fun _ kind => kind.isBackground = true) e₀ e .finished :=
    reaches_of_runFor 20 (by decide +kernel)
  exact ⟨by decide +kernel, (commands_carried_out built outside run).1
    fun err herr => by cases herr⟩

end Engine

end Backtester
