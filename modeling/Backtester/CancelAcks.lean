import Backtester.Sessions

/-!
# Cancel acknowledgements

A cancel that the exchange accepts puts the order into `pendingCancel`, and its ACK is scheduled.
From there the table of transitions leads to `cancelled` and `filled` only, so the ACK finds the
order in one of the three states, or gone, and leaves it cancelled or filled. This holds in all runs
whose trades fill no part of an order whose cancel is in flight (`Engine.SparesCancels`) : such a
fill takes the order back to `partiallyFilled`, and the ACK is then rejected.
-/

open History Run Std

set_option linter.unusedSectionVars false

namespace Backtester

variable {Q : Type} [QueueModel Q]

namespace ExchangeSimulator

variable {ex ex₀ : ExchangeSimulator Q} {op : ExchangeOp} {ops ops' : List ExchangeOp} {n : ℕ}
  {P : OrderState → Prop} {trade : Tick}

/-- What no legal transition leaves, no session leaves that splits no cancel. -/
theorem keeps_session (hclosed : ∀ a b, P a → a.canTransitionTo b = true → P b) (hnew : ex₀.IsNew)
    (hmay : Always (MayMove ex₀) (ops ++ ops'))
    (hno : ∀ pre op post, ops' = pre ++ op :: post → NoSplit ex₀ (ops ++ pre) op)
    (hn : n ∉ submittedIds ops') (hP : ∀ o, (ex₀.session ops).1.orders[n]? = some o → P o.state) :
    ∀ o, (ex₀.session (ops ++ ops')).1.orders[n]? = some o → P o.state := by
  induction ops' using List.reverseRecOn with
  | nil => simpa using hP
  | append_singleton ops' op ih =>
    rw [← List.append_assoc] at hmay ⊢
    obtain ⟨hmay', hop⟩ := always_snoc.1 hmay
    rw [submittedIds_snoc, List.mem_append, not_or] at hn
    have hbefore := ih hmay' (fun pre op' post heq => hno pre op' (post ++ [op]) (by simp [heq]))
      hn.1
    have hindexed := indexed_session hnew (hmay'.mono fun _ _ h => h.1)
    have hobeys := (obeys_iff hindexed hop).2 (hno ops' op [] rfl)
    intro o' ho'
    rw [session_snoc] at ho'
    change ((ex₀.session (ops ++ ops')).1.perform op).1.orders[n]? = some o' at ho'
    cases ho : (ex₀.session (ops ++ ops')).1.orders[n]? with
    | none =>
      have hs : op.submitted ≠ some n := fun hs => hn.2 (by simp [hs])
      rw [(absent_perform hindexed ho hs).1] at ho'
      cases ho'
    | some o =>
      by_cases hstate : o'.state = o.state
      · rw [hstate]
        exact hbefore o ho
      · exact hclosed _ _ (hbefore o ho) (hobeys n o o' ho ho' (.inl hstate))

/-- Whether a trade splits a cancel, as its bucket shows it. -/
def splitsCancel (ex : ExchangeSimulator Q) (trade : Tick) : Bool :=
  (makerSide trade.side).any fun side => (ex.buckets trade.price side).any fun n =>
    ex.orders[n]?.any fun o => o.state = .pendingCancel && decide (0 < o.remainingQty) &&
      decide (0 < o.fillQty ex.queueModel trade) &&
      decide (subI64 o.remainingQty (o.fillQty ex.queueModel trade) ≠ 0)

theorem splitsCancel_iff {ids : List ℕ} (h : ex.Indexed ids) :
    ex.splitsCancel trade = true ↔ ex.SplitsCancel trade := by
  simp only [splitsCancel, Option.any_eq_true, List.any_eq_true, Bool.and_eq_true,
    decide_eq_true_eq]
  constructor
  · rintro ⟨side, hside, n, hmem, o, ho, ⟨⟨hstate, hremaining⟩, hfill⟩, hrest⟩
    rw [h.buckets, List.mem_filter] at hmem
    exact ⟨side, n, o, hside, hmem.2, ho, hstate, hremaining, hfill, hrest⟩
  · rintro ⟨side, n, o, hside, hat, ho, hstate, hremaining, hfill, hrest⟩
    refine ⟨side, hside, n, ?_, o, ho, ⟨⟨hstate, hremaining⟩, hfill⟩, hrest⟩
    rw [h.buckets, List.mem_filter]
    refine ⟨h.mem_of_stored n ?_, hat⟩
    simp [getOrder, ho]

end ExchangeSimulator

namespace Engine

open ExchangeSimulator

variable {T U S L R : Type} [Strategy S] [LatencyModel L R] {e e' e₀ : Engine T U Q S L R} {n s : ℕ}
  {event : Event} {queue : EventQueue} {P : OrderState → Prop} {ph : Phase}

/-- What holds of the state of order `n` wherever it is stored. -/
def InState (n : ℕ) (P : OrderState → Prop) (e : Engine T U Q S L R) : Prop :=
  ∀ s o st, e.core.faces n s = some (o, st) → P st

/-- The states of an order whose cancel was accepted. -/
def Cancelling (st : OrderState) : Prop := st = .pendingCancel ∨ st = .cancelled ∨ st = .filled

/-- The states of an order whose cancel was acknowledged. -/
def Ended (st : OrderState) : Prop := st = .cancelled ∨ st = .filled

theorem cancelling_closed (a b : OrderState) (h : Cancelling a) (hab : a.canTransitionTo b = true) :
    Cancelling b := by
  rcases h with rfl | rfl | rfl <;> cases b <;> simp_all [Cancelling, OrderState.canTransitionTo]

theorem ended_closed (a b : OrderState) (h : Ended a) (hab : a.canTransitionTo b = true) :
    Ended b := by
  rcases h with rfl | rfl <;> cases b <;> simp_all [OrderState.canTransitionTo]

theorem InState.frame (h : e.InState n P) (hexchanges : e'.core.exchanges = e.core.exchanges) :
    e'.InState n P := by
  intro s o st hface
  rw [Core.faces_of_exchanges hexchanges] at hface
  exact h s o st hface

theorem faces_of_getElem? {c c' : Core Q S L R} (h : c'.exchanges[s]? = c.exchanges[s]?) :
    c'.faces n s = c.faces n s := by
  have hempty : ∀ c : Core Q S L R, c.exchanges[s]? = none → c.faces n s = none := by
    intro c hnone
    simp only [Core.faces, Core.exchange, hnone, Option.getD_none]
    split_ifs <;> simp
  cases hs : c.exchanges[s]? with
  | none => rw [hempty c hs, hempty c' (h.trans hs)]
  | some ex => simp [Core.faces, Core.exchange, h, hs]

/-- The trade of a popped tick splits no cancel. -/
def Spared (e : Engine T U Q S L R) (event : Event) : Prop :=
  ∀ tick, event.kind = .tick tick → ¬(e.core.exchange tick.symbolId).SplitsCancel tick

theorem trade_of_calls {c : Core Q S L R} {kind : EventKind} {pre post : List ExchangeOp}
    {trade : Tick}
    (h : c.calls kind = pre ++ .onTrade trade :: post) : pre = [] ∧ kind = .tick trade := by
  have hmem : .onTrade trade ∈ c.calls kind := h ▸ by simp
  cases kind with
  | tick tick =>
    cases pre with
    | nil =>
      obtain ⟨hop, -⟩ := List.cons_eq_cons.1 h
      exact ⟨rfl, congrArg EventKind.tick (ExchangeOp.onTrade.inj hop)⟩
    | cons op pre => simp [Core.calls] at h
  | orderAck m =>
    simp only [Core.calls, marketCalls] at hmem
    split at hmem
    · cases hmem
    · split at hmem
      · split at hmem
        · split_ifs at hmem <;> simp at hmem
        · simp at hmem
      · simp at hmem
  | _ => simp [Core.calls] at hmem

/-- What no legal transition leaves, a popped event does not leave that splits no cancel. -/
theorem InState.dispatch (hP : e.InState n P)
    (hclosed : ∀ a b, P a → a.canTransitionTo b = true → P b)
    (htracked : e.Tracked) (hhosted : ∀ s, e.Hosted s) (pop : e.queue.pop = some (event, queue))
    (hspared : e.Spared event) (harrived : ∃ dt, .orderLatency n dt ∈ e.trace) :
    ((e.withQueue queue).dispatch event).1.InState n P := by
  intro s o st hface
  rcases (hhosted s).conducts htracked pop with ⟨-, hsame⟩ | ⟨ex₀, ops, hconducts⟩
  · rw [faces_of_getElem? hsame] at hface
    exact hP s o st hface
  · have hn : n ∉ submittedIds ((e.core.cleared.atTime event.tsSim).calls event.kind) := by
      intro hmem
      obtain ⟨order, hkind, rfl⟩ := submitted_of_calls hmem
      obtain ⟨ph, hin⟩ := htracked.inPhase order.orderId
      have hpending := htracked.pending_of_pop pop hin (by simp [hkind, EventKind.moves])
      obtain ⟨rfl, -⟩ := Phase.eq_travelling (hkind ▸ hpending)
      obtain ⟨dt, hdt⟩ := harrived
      cases hin.life.latency_iff.2 hdt
    have hno : ∀ pre op post, (e.core.cleared.atTime event.tsSim).calls event.kind = pre ++
      op :: post →
        NoSplit ex₀ (ops ++ pre) op := by
      rintro pre op post heq trade rfl
      obtain ⟨rfl, hkind⟩ := trade_of_calls heq
      have htouched := hconducts.touched
      rw [hkind] at htouched
      rw [List.append_nil, ← hconducts.before (by simp [hkind]), ← Option.some.inj htouched]
      exact hspared trade hkind
    have hbefore : ∀ o, (ex₀.session ops).1.orders[n]? = some o → P o.state := by
      intro o ho
      refine hP s o.order o.state (face_eq_some.2 ⟨o, ?_, rfl, rfl⟩)
      rw [hconducts.orders, ho]
    rw [Core.faces, hconducts.after] at hface
    obtain ⟨live, hlive, -, rfl⟩ := face_eq_some.1 hface
    exact keeps_session hclosed hconducts.isNew hconducts.may hno hn hbefore live hlive

/-- Order `n` is known to one exchange at most. -/
theorem Tracked.faces_eq_none (h : e.Tracked) (hs : e.core.orderSymbolById[n]? ≠ some s) :
    e.core.faces n s = none := by
  obtain ⟨ph, hin⟩ := h.inPhase n
  rw [hin.stage.faces]
  exact if_neg fun hsymbol => hs (hin.stage.registry.trans hsymbol)

/-- An event that names order `n` touches the exchange of the order only. -/
theorem InState.of_named (htracked : e.Tracked) (hhosted : ∀ s, e.Hosted s)
    (pop : e.queue.pop = some (event, queue))
    (htouched : event.kind.touched e.core.orderSymbolById = e.core.orderSymbolById[n]?)
    (hdepth : event.kind.isDepth = false)
    (hafter : ∀ s ex₀ ops, Conducts s e event ((e.withQueue queue).dispatch event).1 ex₀ ops →
      e.core.orderSymbolById[n]? = some s →
      ∀ o st, ((e.withQueue queue).dispatch event).1.core.faces n s = some (o, st) → P st) :
    ((e.withQueue queue).dispatch event).1.InState n P := by
  intro s o st hface
  rcases (hhosted s).conducts htracked pop with ⟨hmixed, hsame⟩ | ⟨ex₀, ops, hconducts⟩
  · rw [faces_of_getElem? hsame, htracked.faces_eq_none ?_] at hface
    · cases hface
    · intro hs
      rw [hmixed (htouched.trans hs)] at hdepth
      cases hdepth
  · exact hafter s ex₀ ops hconducts (htouched.symm.trans hconducts.touched) o st hface

/-- The ACK of a cancel finds the order in flight, cancelled or filled, and does not leave it in
flight. -/
theorem ended_of_ack (hcancelling : e.InState n Cancelling) (htracked : e.Tracked)
    (hhosted : ∀ s, e.Hosted s) (pop : e.queue.pop = some (event, queue))
    (hkind : event.kind = .orderCancelAck n) :
    ((e.withQueue queue).dispatch event).1.InState n Ended := by
  refine InState.of_named htracked hhosted pop (by rw [hkind]; rfl) (by rw [hkind]; rfl) ?_
  intro s ex₀ ops hconducts _ o st hface
  rw [Core.faces, hconducts.perform (by rw [hkind]; rfl) (by simp [hkind])] at hface
  rcases ackCancel_spec (e.core.exchange s) n with
    ⟨order, report, ex, heq, -, -, -, hafter⟩ | ⟨err, heq, hno⟩
  · simp only [ExchangeSimulator.perform, heq, hafter n, ↓reduceIte, Option.some.injEq,
      Prod.mk.injEq] at hface
    exact .inl hface.2.symm
  · simp only [ExchangeSimulator.perform, heq] at hface
    rcases hcancelling s o st hface with rfl | hended
    · exact absurd hface (hno o)
    · exact hended

/-! ## Turns -/

/-- The cancel of order `n` was accepted : it is a limit order that has reached its exchange, and
its state is one of those that follow. -/
structure CancelAccepted (n : ℕ) (e : Engine T U Q S L R) : Prop where
  arrived : ∃ dt, .orderLatency n dt ∈ e.trace
  limit : ∃ o, .accepted o ∈ e.trace ∧ o.orderId = n ∧ o.orderType = .limit
  inState : e.InState n Cancelling

/-- An accepted cancel puts the order into `pendingCancel`. -/
theorem cancelAccepted_of_cancel (htracked : e.Tracked) (hhosted : ∀ s, e.Hosted s)
    (pop : e.queue.pop = some (event, queue))
    (haccepted : n ∈ (e.core.cleared.atTime event.tsSim).acceptedCancels event.kind) :
    CancelAccepted n ((e.withQueue queue).dispatch event).1 := by
  have hkind : event.kind = .orderCancel n ∧ ∃ s ex, e.core.orderSymbolById[n]? = some s ∧
      (e.core.exchange s).cancelOrder n = .ok ex := by
    cases hkind : event.kind with
    | orderCancel m =>
      rw [hkind] at haccepted
      simp only [Core.acceptedCancels] at haccepted
      split at haccepted
      · cases haccepted
      · next s hs =>
        split at haccepted
        · next ex hex =>
          obtain rfl := List.mem_singleton.1 haccepted
          exact ⟨rfl, s, ex, hs, hex⟩
        · cases haccepted
    | _ =>
      rw [hkind] at haccepted
      cases haccepted
  obtain ⟨hkind, s₀, ex, hs₀, hex⟩ := hkind
  rcases cancelOrder_spec (e.core.exchange s₀) n with
    ⟨o, st, ex', heq, hface, hmay, hafter⟩ | ⟨err, heq⟩
  swap
  · rw [hex] at heq
    cases heq
  obtain ⟨-, -, new, htrace, -⟩ := dispatch_aside (e.withQueue queue) event
  have hgrow : ∀ x ∈ e.trace, x ∈ ((e.withQueue queue).dispatch event).1.trace := fun x hx => by
    rw [htrace]
    exact List.mem_append_left _ hx
  obtain ⟨ph, hin⟩ := htracked.inPhase n
  have hphase : ∃ dt, ph = .resting o dt st := by
    have hfaces := (congrFun hin.stage.faces s₀).symm.trans hface
    rw [Phase.faces, if_pos (hin.stage.registry.symm.trans hs₀)] at hfaces
    refine Core.resting_of_face hin.life hin.settled hfaces ?_ ?_
    · cases st <;> simp_all [OrderState.canTransitionTo, OrderState.isTerminal]
    · rintro rfl
      cases hmay
  obtain ⟨dt, rfl⟩ := hphase
  refine ⟨⟨dt, hgrow _ ?_⟩, ⟨o, hgrow _ ?_, ?_, ?_⟩, ?_⟩
  · exact hin.life.latency_iff.1 rfl
  · exact (hin.life.accepted_iff.1 rfl).1
  · exact hin.life.orderId_of_accepted rfl
  · exact hin.life.statuses.1
  · refine InState.of_named htracked hhosted pop (by rw [hkind]; rfl) (by rw [hkind]; rfl) ?_
    intro s ex₀ ops hconducts hs o' st' hface'
    obtain rfl := Option.some.inj (hs₀.symm.trans hs)
    rw [Core.faces, hconducts.perform (by rw [hkind]; rfl) (by simp [hkind])] at hface'
    simp only [ExchangeSimulator.perform, heq, hafter n, ↓reduceIte, Option.some.injEq,
      Prod.mk.injEq] at hface'
    exact .inl hface'.2.symm

/-- Every cancel of order `n` that was accepted is known to be, and every one that was acknowledged
has ended the order. -/
structure CancelsAnswered (n : ℕ) (e : Engine T U Q S L R) : Prop where
  accepted : n ∈ cancelsIn e.trace → CancelAccepted n e
  acked : ∀ ts, (ts, .orderCancelAck n) ∈ poppedIn EventKind.any e.trace → e.InState n Ended

theorem CancelAccepted.frame (h : CancelAccepted n e) (htrace : ∀ x ∈ e.trace, x ∈ e'.trace)
    (hstate : e'.InState n Cancelling) : CancelAccepted n e' := by
  obtain ⟨dt, hdt⟩ := h.arrived
  obtain ⟨o, ho, hid, hlimit⟩ := h.limit
  exact ⟨⟨dt, htrace _ hdt⟩, ⟨o, htrace _ ho, hid, hlimit⟩, hstate⟩

/-- Work that neither accepts nor pops anything, and leaves the exchanges as they are. -/
theorem CancelsAnswered.frame (h : e.CancelsAnswered n)
    (hexchanges : e'.core.exchanges = e.core.exchanges) {new : List Effect}
    (htrace : e'.trace = e.trace ++ new) (hcancels : cancelsIn new = [])
    (hpopped : poppedIn EventKind.any new = []) : e'.CancelsAnswered n := by
  refine ⟨fun hn => ?_, fun ts hts => ?_⟩
  · rw [htrace, cancelsIn_append, hcancels, List.append_nil] at hn
    exact (h.accepted hn).frame (fun x hx => htrace ▸ List.mem_append_left _ hx)
      ((h.accepted hn).inState.frame hexchanges)
  · rw [htrace, poppedIn_append, hpopped, List.append_nil] at hts
    exact (h.acked ts hts).frame hexchanges

/-- A cancel is accepted before its ACK waits or is popped. -/
theorem Tracked.accepted_of_ack (h : e.Tracked) {ts : ℤ} (hack : (ts, .orderCancelAck n) ∈
    poppedIn EventKind.any e.trace ++ e.queue.waiting EventKind.any) : n ∈ cancelsIn e.trace := by
  have hscheduled := (h.conserved EventKind.any).subset hack
  exact List.mem_filterMap.2 ⟨_, (mem_scheduledIn.1 hscheduled).2, rfl⟩

/-- A popped event that splits no cancel. -/
theorem CancelsAnswered.dispatch (h : e.CancelsAnswered n) (htracked : e.Tracked)
    (hhosted : ∀ s, e.Hosted s) (pop : e.queue.pop = some (event, queue))
    (hspared : e.Spared event) :
    ((e.withQueue queue).dispatch event).1.CancelsAnswered n := by
  let c := e.core.cleared.atTime event.tsSim
  obtain ⟨-, -, new, htrace, hnew⟩ := dispatch_aside (e.withQueue queue) event
  obtain ⟨new', hworks, -⟩ := dispatch_spec (e.withQueue queue) event
  have hgrow : ∀ x ∈ e.trace, x ∈ ((e.withQueue queue).dispatch event).1.trace := fun x hx => by
    rw [htrace]
    exact List.mem_append_left _ hx
  have hcancels : ∀ m ∈ cancelsIn ((e.withQueue queue).dispatch event).1.trace,
      m ∈ cancelsIn e.trace ∨ m ∈ c.acceptedCancels event.kind := by
    intro m hm
    have hhandled : ∀ m ∈ cancelsIn (c.handle event.kind).1.effects,
        m ∈ c.acceptedCancels event.kind := by
      intro m hm
      rcases Core.serves_handle c event.kind with ⟨-, heq⟩ | hserves
      · rw [heq] at hm
        cases hm
      · rw [hserves.cancels] at hm
        refine (List.mem_append.1 hm).resolve_left fun hm => ?_
        cases hkind : event.kind <;> rw [hkind] at hm <;> cases hm
    rw [htrace, cancelsIn_append, ← List.singleton_append, cancelsIn_append, cancelsIn_append, hnew,
      List.append_nil] at hm
    exact (List.mem_append.1 hm).imp id (hhandled m)
  have hpopped : poppedIn EventKind.any ((e.withQueue queue).dispatch event).1.trace =
      poppedIn EventKind.any e.trace ++ [(event.tsSim, event.kind)] := by
    rw [hworks.trace, poppedIn_append, hworks.poppedIn_eq_nil, List.append_nil]
    exact poppedIn_append ..
  refine ⟨fun hn => ?_, fun ts hts => ?_⟩
  · rcases hcancels n hn with hn | hn
    · have haccepted := h.accepted hn
      exact haccepted.frame hgrow (haccepted.inState.dispatch cancelling_closed htracked hhosted pop
        hspared haccepted.arrived)
    · exact cancelAccepted_of_cancel htracked hhosted pop hn
  · rw [hpopped] at hts
    rcases List.mem_append.1 hts with hts | hts
    · have haccepted := h.accepted (htracked.accepted_of_ack (List.mem_append_left _ hts))
      exact (h.acked ts hts).dispatch ended_closed htracked hhosted pop hspared haccepted.arrived
    · obtain ⟨rfl, hkind⟩ := Prod.mk.inj (List.mem_singleton.1 hts)
      have hwaiting : (event.tsSim, .orderCancelAck n) ∈
          poppedIn EventKind.any e.trace ++ e.queue.waiting EventKind.any := by
        rw [EventQueue.waiting_pop pop, hkind]
        exact List.mem_append_right _ (List.mem_append_left _ (List.mem_singleton_self _))
      have haccepted := h.accepted (htracked.accepted_of_ack hwaiting)
      exact ended_of_ack haccepted.inState htracked hhosted pop hkind.symm

variable [TickSource T] [L3Source U]

/-- The trade of the next turn, if there is one, fills no part of an order whose cancel is in
flight. -/
def SparesCancels (e : Engine T U Q S L R) : Prop :=
  ∀ ts tick, e.Pops ts (.tick tick) → ¬(e.core.exchange tick.symbolId).SplitsCancel tick

theorem CancelsAnswered.turn (h : e.CancelsAnswered n) (htracked : e.Tracked)
    (hhosted : ∀ s, e.Hosted s) (hspares : e.SparesCancels) : e.turn.1.CancelsAnswered n := by
  obtain ⟨hcore, intake, htrace, hintake⟩ := e.ingest_frame (ε := Strategy.Error S)
  have htaken : (e.ingest (ε := Strategy.Error S)).1.CancelsAnswered n :=
    h.frame (by rw [hcore]) htrace (cancelsIn_of_isIntake hintake) (poppedIn_of_isIntake hintake _)
  obtain ⟨e₁, rfl, ⟨-, -, hturn | hturn⟩ | ⟨event, queue, hpop, hpops, -, hturn⟩⟩ := turn_pops e
  · rwa [hturn]
  · rw [hturn]
    obtain ⟨hexchanges, -, new, hnew, hcancels⟩ := flush_aside (e.ingest (ε := Strategy.Error S)).1
    obtain ⟨new', hworks, -⟩ := flush_spec (e.ingest (ε := Strategy.Error S)).1
    obtain rfl : new' = new := List.append_cancel_left (hworks.trace.symm.trans hnew)
    exact htaken.frame hexchanges hnew hcancels (hworks.poppedIn_eq_nil _)
  · rw [hturn]
    refine htaken.dispatch htracked.ingest (fun s => (hhosted s).ingest) hpop fun tick hkind => ?_
    rw [hcore]
    exact hspares event.tsSim tick ((hpops _ _).2 (by rw [hkind]))

theorem CancelsAnswered.external {allowed : ℤ → EventKind → Prop} (h : e.CancelsAnswered n)
    (outside : ∀ ts kind, allowed ts kind → kind.isOrderEvent = false)
    (hext : External allowed e e') :
    e'.CancelsAnswered n := by
  cases hext with
  | addTickSource source => exact h.frame rfl (List.append_nil _).symm rfl rfl
  | addL3Source source => exact h.frame rfl (List.append_nil _).symm rfl rfl
  | @pushEvent ts kind hallowed =>
    refine h.frame rfl (trace_pushEvent e ts kind) ?_ rfl
    have hkind := outside ts kind hallowed
    cases kind <;> first | rfl | cases hkind

/-! ## Runs -/

theorem cancelsAnswered_of_built [SeedableRng R] {allowed : ℤ → EventKind → Prop}
    (built : Built allowed e) (outside : ∀ ts kind, allowed ts kind → kind.isOrderEvent = false) :
    e.CancelsAnswered n := by
  induction built with
  | new => exact ⟨by simp [Engine.new], by simp [Engine.new]⟩
  | external _ hext ih => exact ih.external outside hext

theorem Life.fillable {l : List Effect} {o : Order} {dt : ℤ} {st : OrderState}
    (h : Life n l (.resting o dt st)) : st.isFillable = true := by
  generalize hph : Phase.resting o dt st = ph at h
  induction h with
  | start => cases hph
  | skip _ _ ih => exact ih hph
  | step _ hx ih =>
    subst hph
    cases hx with
    | rest limit id status => rfl
    | fill id => exact ih rfl
    | fillPart fillable id status => rfl
    | cancel may => rfl

/-- A cancelled or filled order that was to be cancelled has been reported so. -/
theorem CancelAccepted.reported (h : CancelAccepted n e) (htracked : e.Tracked)
    (hended : e.InState n Ended) : ∃ ts r, .scheduled ts (.orderReport r) ∈ e.trace ∧
      r.orderId = n ∧
      Ended r.status := by
  obtain ⟨ph, hin⟩ := htracked.inPhase n
  obtain ⟨dt, hdt⟩ := h.arrived
  obtain ⟨o, ho, hid, hlimit⟩ := h.limit
  have haccepted : ph.accepted = some o := hin.life.accepted_iff.2 ⟨ho, hid⟩
  have hface : ∀ st, ph.faces o.symbolId = some (o, st) → Ended st := fun st hst =>
    hended o.symbolId o st ((congrFun hin.stage.faces _).trans hst)
  have hreports : IsComplete o.orderType ((e.trace.filterMap (Life.reportAbout n)).map
      OrderReport.status) := by
    have hlife := hin.life
    have hsettled := hin.settled
    have hstatuses := hlife.statuses
    cases ph with
    | closing o' dt' st ts r =>
      obtain rfl : o' = o := Option.some.inj haccepted
      exact hstatuses
    | closed o' dt' =>
      obtain rfl : o' = o := Option.some.inj haccepted
      exact hstatuses
    | resting o' dt' st =>
      obtain rfl : o' = o := Option.some.inj haccepted
      have hfillable := Life.fillable hlife
      rcases hface st (if_pos rfl) with rfl | rfl <;> cases hfillable
    | awaiting o' dt' =>
      obtain rfl : o' = o := Option.some.inj haccepted
      rcases hface .pendingNew (if_pos rfl) with hst | hst <;> cases hst
    | travelling o' => cases hlife.latency_iff.2 hdt
    | _ => first | (cases hsettled; done) | cases haccepted
  rw [hlimit] at hreports
  obtain ⟨st, hst, hmem⟩ : ∃ st, Ended st ∧ st ∈ (e.trace.filterMap (Life.reportAbout n)).map
      OrderReport.status := by
    generalize (e.trace.filterMap (Life.reportAbout n)).map OrderReport.status = w at hreports
    cases hreports with
    | limitOrder k last => exact ⟨_, last.symm, by simp⟩
  obtain ⟨r, hr, rfl⟩ := List.mem_map.1 hmem
  obtain ⟨x, hx, hreport⟩ := List.mem_filterMap.1 hr
  unfold Life.reportAbout at hreport
  split at hreport
  · next ts r' =>
    simp only [Option.ite_none_right_eq_some, Option.some.injEq] at hreport
    obtain ⟨hid', rfl⟩ := hreport
    exact ⟨ts, r', hx, hid', hst⟩
  · cases hreport

/-- No accepted cancel is lost. In every run whose trades fill no part of an order whose cancel is
in flight, an order whose cancel ACK was processed is cancelled or filled wherever it is stored, and
was reported so. -/
theorem cancel_not_lost [SeedableRng R] {allowed : ℤ → EventKind → Prop}
    {st : Status (EngineError (Strategy.Error S))} (built : Built allowed e₀)
    (outside : ∀ ts kind, allowed ts kind → kind.isOrderEvent = false)
    (h : ReachesWhile SparesCancels turn (External allowed) e₀ e st) {ts : ℤ}
    (hack : (ts, .orderCancelAck n) ∈ poppedIn EventKind.any e.trace) :
    e.InState n Ended ∧ ∃ ts r, .scheduled ts (.orderReport r) ∈ e.trace ∧ r.orderId = n ∧
      Ended r.status := by
  have hanswered : e.CancelsAnswered n := by
    clear hack
    induction h with
    | start => exact cancelsAnswered_of_built built outside
    | turn ht hspares ih =>
      exact ih.turn (tracked built ht.reaches outside) (hosted built ht.reaches outside) hspares
    | env _ hext ih => exact ih.external outside hext
  have htracked := tracked built h.reaches outside
  have haccepted := hanswered.accepted (htracked.accepted_of_ack (List.mem_append_left _ hack))
  exact ⟨hanswered.acked ts hack, haccepted.reported htracked (hanswered.acked ts hack)⟩

/-- Whether the next turn spares the cancels in flight, read off what it pops. -/
def sparesCancels (e : Engine T U Q S L R) : Bool :=
  ((poppedIn EventKind.any e.turn.1.trace).drop (poppedIn EventKind.any e.trace).length).all
    fun x =>
    match x.2 with
    | .tick tick => !(e.core.exchange tick.symbolId).splitsCancel tick
    | _ => true

theorem sparesCancels_of_hosted (hhosted : ∀ s, e.Hosted s) (h : e.sparesCancels = true) :
    e.SparesCancels := by
  intro ts tick hpops hsplits
  obtain ⟨ex₀, ops, hnew, hmay, hex, -⟩ := (hhosted tick.symbolId).session
  have hindexed := indexed_session hnew (hmay.mono fun _ _ h => h.1)
  rw [← hex] at hindexed
  rw [sparesCancels, pops_iff.1 hpops, List.drop_left, List.all_cons, Bool.and_eq_true] at h
  rw [← splitsCancel_iff hindexed] at hsplits
  simp [hsplits] at h

/-- An order of two is bought at `100`, its cancel is in flight from `1012` to `1022`, and at `1015`
a trade of `qty` meets it. -/
def lateTrade (qty : ℤ) : Sample :=
  sample {} 10 [[.submitOrder ⟨0, 0, 0, 0, 100, 2, 1, .buy, .limit⟩], [.cancelOrder 1]]
    [[⟨1000, 0, 0, 100, 1, 1, .buy, 0⟩, ⟨1012, 0, 1, 100, 1, 1, .buy, 0⟩,
      ⟨1015, 0, 2, 100, qty, 1, .sell, 0⟩]]

theorem built_lateTrade (qty : ℤ) : Built (fun _ _ => False) (lateTrade qty) :=
  .external (.new _ _ _ _ _) (.addTickSource _)

/-- A trade that fills a part of the order makes the exchange forget the cancel : after the ACK, to
the end of the run, the order rests. -/
theorem cancel_lost :
    let e := (runFor turn 16 (lateTrade 1)).1
    Reaches turn (External fun _ _ => False) (lateTrade 1) e .finished ∧
      (1012, .orderCancel 1) ∈ poppedIn EventKind.any e.trace ∧ 1 ∈ cancelsIn e.trace ∧
      (1022, .orderCancelAck 1) ∈ poppedIn EventKind.any e.trace ∧
      (e.core.faces 1 1).map Prod.snd = some .partiallyFilled ∧ ¬e.InState 1 Ended := by
  intro e
  have hstate : (e.core.faces 1 1).map Prod.snd = some .partiallyFilled := by decide +kernel
  refine ⟨reaches_of_runFor 16 (by decide +kernel), by decide +kernel, by decide +kernel,
    by decide +kernel, hstate, fun h => ?_⟩
  obtain ⟨⟨o, st⟩, hface, rfl⟩ := Option.map_eq_some_iff.1 hstate
  rcases h 1 o _ hface with hst | hst <;> cases hst

/-- A trade that fills the whole order. -/
theorem cancel_not_lost_sample :
    let e := (runFor turn 16 (lateTrade 2)).1
    e.InState 1 Ended ∧ ∃ ts r, .scheduled ts (.orderReport r) ∈ e.trace ∧ r.orderId = 1 ∧
      Ended r.status := by
  intro e
  have hchecks : ∀ k < 16, (runFor turn k (lateTrade 2)).1.sparesCancels = true := by decide +kernel
  have hack : (1022, .orderCancelAck 1) ∈ poppedIn EventKind.any e.trace := by decide +kernel
  refine cancel_not_lost (built_lateTrade 2) (fun _ _ h => h.elim)
    (reachesWhile_runFor (lateTrade 2) 16 fun k hk => sparesCancels_of_hosted (fun s => ?_)
      (hchecks k hk))
    hack
  exact hosted (built_lateTrade 2) (reaches_runFor (lateTrade 2) k) (fun _ _ h => h.elim) s

end Engine

end Backtester
