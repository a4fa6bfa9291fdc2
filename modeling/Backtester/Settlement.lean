import Backtester.CancelAcks
import Backtester.FillReports
import Backtester.OpenOrders

/-!
# What a finished run leaves

While the cancel of an order is in flight its ACK waits (`Engine.AcksPend`). So when the queue runs
empty no order is between two events : an accepted order is closed, and then its course was told to
the end and no table holds it, or it rests at its exchange, in the state that the strategy was told
last (`orders_settled`).
-/

open History Run Std

set_option linter.unusedSectionVars false

namespace Backtester

variable {Q : Type} [QueueModel Q]

namespace ExchangeSimulator

variable {ex ex₀ : ExchangeSimulator Q} {op : ExchangeOp} {ops ops' : List ExchangeOp} {n : ℕ}
  {o o' : LiveOrder (QueueModel.State Q)} {rs : List OrderReport}

/-- Only a cancel puts an order into `pendingCancel`. -/
theorem Change.of_pendingCancel (h : Change ex op o o' rs) (hstate : o'.state = .pendingCancel) :
    o.state = .pendingCancel ∨ ∃ m, op = .cancelOrder m := by
  cases h with
  | idle => exact .inl hstate
  | cancel may => exact .inr ⟨_, rfl⟩
  | @follow _ update =>
    rw [(face_followL3 ex.queueModel update o).2] at hstate
    exact .inl hstate
  | @offer _ trade =>
    rcases offer_spec ex.queueModel trade o with ⟨-, hface⟩ | ⟨r, -, -, -, hface, hstatus⟩
    · exact .inl ((congrArg Prod.snd hface).symm.trans hstate)
    · have hr : r.status = .pendingCancel := (congrArg Prod.snd hface).symm.trans hstate
      rw [hr] at hstatus
      rcases hstatus with h | h <;> cases h
  | marketFill level fillQty_eq remainingQty_eq state =>
    rw [state] at hstate
    dsimp only at hstate
    split_ifs at hstate
  | _ => cases hstate

/-- Calls that do not cancel order `n` find its cancel in flight, when it is in flight after
them. -/
theorem pendingCancel_of_session (hnew : ex₀.IsNew) (hmay : Always (MayMove ex₀) (ops ++ ops'))
    (hno : .cancelOrder n ∉ ops') (ho' : (ex₀.session (ops ++ ops')).1.orders[n]? = some o')
    (hstate : o'.state = .pendingCancel) :
    ∃ o, (ex₀.session ops).1.orders[n]? = some o ∧ o.state = .pendingCancel := by
  induction ops' using List.reverseRecOn generalizing o' with
  | nil => exact ⟨o', by rwa [List.append_nil] at ho', hstate⟩
  | append_singleton ops' op ih =>
    rw [← List.append_assoc] at hmay ho'
    obtain ⟨hmay', hop⟩ := always_snoc.1 hmay
    have hindexed := indexed_session hnew (hmay'.mono fun _ _ h => h.1)
    rw [session_snoc] at ho'
    change ((ex₀.session (ops ++ ops')).1.perform op).1.orders[n]? = some o' at ho'
    obtain ⟨hne, hno⟩ : op ≠ .cancelOrder n ∧ .cancelOrder n ∉ ops' := by
      rw [List.mem_append, not_or] at hno
      exact ⟨fun h => hno.2 (h ▸ List.mem_singleton_self _), hno.1⟩
    cases ho : (ex₀.session (ops ++ ops')).1.orders[n]? with
    | none =>
      by_cases hs : op.submitted = some n
      · -- a new order is `pendingNew`
        cases op with
        | submitOrder order =>
          have horder : order.orderId = n := Option.some.inj hs
          have hput := (getElem?_submitOrder order n).symm.trans ho'
          rw [if_pos horder] at hput
          rw [← Option.some.inj hput] at hstate
          cases hstate
        | _ => cases hs
      · rw [(absent_perform hindexed ho hs).1] at ho'
        cases ho'
    | some o =>
      refine ih hmay' hno ho ?_
      rcases change_of_stored hindexed hop.1 ho ho' with ⟨rfl, -⟩ | ⟨htarget, hchange⟩
      · exact hstate
      · refine (hchange.of_pendingCancel hstate).resolve_right ?_
        rintro ⟨m, rfl⟩
        exact hne (by rw [htarget m rfl])

end ExchangeSimulator

namespace Life

variable {n : ℕ} {l : List Effect}

theorem reportAbout_eq_none {x : Effect} (h : x.concerns n = false) : reportAbout n x = none := by
  cases x with
  | scheduled ts kind =>
    cases kind with
    | orderReport r => simpa [reportAbout, Effect.concerns, EventKind.isAbout] using h
    | _ => rfl
  | _ => rfl

/-- The last report about a resting order tells its state, unless its cancel is in flight. -/
theorem last_of_resting {o : Order} {dt : ℤ} {state : OrderState}
    (h : Life n l (.resting o dt state)) (hstate : state ≠ .pendingCancel) :
    ((l.filterMap (reportAbout n)).map OrderReport.status).getLast? = some state := by
  generalize hph : Phase.resting o dt state = ph at h
  induction h generalizing state with
  | start => cases hph
  | skip _ hx ih =>
    rw [List.filterMap_append, List.filterMap_cons_none (reportAbout_eq_none hx),
      List.filterMap_nil,
      List.append_nil]
    exact ih hstate hph
  | step _ hx ih =>
    subst hph
    rw [List.filterMap_append, List.map_append]
    cases hx with
    | rest limit id status => simp [reportAbout, id, status]
    | fill id =>
      change (_ ++ []).getLast? = _
      rw [List.append_nil]
      exact ih hstate rfl
    | fillPart fillable id status => simp [reportAbout, id, status]
    | cancel may => exact absurd rfl hstate

end Life

namespace Engine

open ExchangeSimulator

variable {T U S L R : Type} [Strategy S] [LatencyModel L R] {e e' e₀ : Engine T U Q S L R} {n s : ℕ}
  {event : Event} {queue : EventQueue} {ph : Phase}

/-- While the cancel of order `n` is in flight its ACK waits. -/
def AcksPend (n : ℕ) (e : Engine T U Q S L R) : Prop :=
  ∀ s o, e.core.faces n s = some (o, .pendingCancel) →
    ∃ ts, (ts, .orderCancelAck n) ∈ e.queue.waiting EventKind.any

omit [Strategy S] [LatencyModel L R] in
/-- Work that leaves the orders as they are and pops nothing. -/
theorem AcksPend.frame (h : e.AcksPend n) (hfaces : e'.core.faces n = e.core.faces n)
    (hwaiting : ∀ x ∈ e.queue.waiting EventKind.any, x ∈ e'.queue.waiting EventKind.any) :
    e'.AcksPend n := by
  intro s o hface
  rw [hfaces] at hface
  obtain ⟨ts, hts⟩ := h s o hface
  exact ⟨ts, hwaiting _ hts⟩

omit [Strategy S] [LatencyModel L R] in
theorem Works.waiting_subset {new : List Effect} (h : Works e e' new) {x : ℤ × EventKind}
    (hx : x ∈ e.queue.waiting EventKind.any) : x ∈ e'.queue.waiting EventKind.any := by
  rw [h.waiting, (StableSort.insertAll_perm _ _).mem_iff]
  exact List.mem_append_left _ hx

omit [Strategy S] [LatencyModel L R] in
/-- Only the request of a cancel calls for it. -/
theorem cancel_of_calls {c : Core Q S L R} {kind : EventKind} (h : .cancelOrder n ∈ c.calls kind) :
    kind = .orderCancel n := by
  cases kind with
  | orderCancel m => rw [ExchangeOp.cancelOrder.inj (List.mem_singleton.1 h)]
  | orderAck m =>
    simp only [Core.calls] at h
    split at h
    · cases h
    · split at h
      · unfold marketCalls at h
        split at h
        · split_ifs at h <;> simp at h
        · simp at h
      · simp at h
  | _ => simp [Core.calls] at h

/-- A cancel that is accepted has its ACK waiting after the turn. -/
theorem waiting_of_acceptedCancel
    (haccepted : n ∈ (e.core.cleared.atTime event.tsSim).acceptedCancels event.kind) :
    ∃ ts, (ts, .orderCancelAck n) ∈ (e.dispatch event).1.queue.waiting EventKind.any := by
  let c := e.core.cleared.atTime event.tsSim
  obtain ⟨-, -, new, htrace, -⟩ := dispatch_aside e event
  obtain ⟨new', hworks, -⟩ := dispatch_spec e event
  have hnew : new' = (c.handle event.kind).1.effects ++ new := by
    have hsame : e.trace ++ [.popped event e.core.activeBatchTimerId] ++ new' =
        e.trace ++ [.popped event e.core.activeBatchTimerId] ++
          ((c.handle event.kind).1.effects ++ new) := by
      rw [List.append_assoc, List.append_assoc]
      exact (List.append_assoc _ _ _).symm.trans (hworks.trace.symm.trans htrace)
    exact List.append_cancel_left hsame
  have hcancels : n ∈ cancelsIn (c.handle event.kind).1.effects := by
    rcases Core.serves_handle c event.kind with ⟨hdepth, -⟩ | hserves
    · cases hkind :
        event.kind <;> rw [hkind] at haccepted hdepth <;> first | cases haccepted | cases hdepth
    · rw [hserves.cancels]
      exact List.mem_append_right _ haccepted
  obtain ⟨x, hx, hacked⟩ := List.mem_filterMap.1 hcancels
  cases x with
  | scheduled ts kind =>
    cases kind with
    | orderCancelAck m =>
      obtain rfl : m = n := Option.some.inj hacked
      refine ⟨ts, ?_⟩
      rw [hworks.waiting, (StableSort.insertAll_perm _ _).mem_iff, hnew]
      exact List.mem_append_right _ (mem_scheduledIn.2 ⟨rfl, List.mem_append_left _ hx⟩)
    | _ => cases hacked
  | _ => cases hacked

/-- A popped event. The ACK of a cancel that is in flight ends it. -/
theorem AcksPend.dispatch (h : e.AcksPend n) (htracked : e.Tracked) (hhosted : ∀ s, e.Hosted s)
    (pop : e.queue.pop = some (event, queue)) :
    ((e.withQueue queue).dispatch event).1.AcksPend n := by
  obtain ⟨new, hworks, -⟩ := dispatch_spec (e.withQueue queue) event
  -- an ACK that waited before still waits, unless it is popped
  have hkeeps : event.kind ≠ .orderCancelAck n → (∃ ts, (ts, .orderCancelAck n) ∈
      e.queue.waiting EventKind.any) → ∃ ts, (ts, .orderCancelAck n) ∈
        ((e.withQueue queue).dispatch event).1.queue.waiting EventKind.any := by
    rintro hkind ⟨ts, hts⟩
    refine ⟨ts, hworks.waiting_subset ?_⟩
    rw [EventQueue.waiting_pop pop] at hts
    refine (List.mem_append.1 hts).resolve_left fun hts => hkind ?_
    exact (congrArg Prod.snd (List.mem_singleton.1 hts)).symm
  intro s o hface
  rcases (hhosted s).conducts htracked pop with ⟨hdepth, hsame⟩ | ⟨ex₀, ops, hconducts⟩
  · rw [faces_of_getElem? hsame] at hface
    refine hkeeps (fun hkind => ?_) (h s o hface)
    have hregistry : e.core.orderSymbolById[n]? = some s := by
      by_contra hs
      rw [htracked.faces_eq_none hs] at hface
      cases hface
    have := hdepth (by rw [hkind]; exact hregistry)
    rw [hkind] at this
    cases this
  · by_cases hkind : event.kind = .orderCancelAck n
    · rw [Core.faces, hconducts.perform (by rw [hkind]; rfl) (by simp [hkind])] at hface
      rcases ackCancel_spec (e.core.exchange s) n with
        ⟨order, report, ex, heq, -, -, -, hafter⟩ | ⟨err, heq, hno⟩
      · simp [ExchangeSimulator.perform, heq, hafter n] at hface
      · simp only [ExchangeSimulator.perform, heq] at hface
        exact absurd hface (hno o)
    by_cases hcancel : event.kind = .orderCancel n
    · rw [Core.faces, hconducts.perform (by rw [hcancel]; rfl) (by simp [hcancel])] at hface
      rcases cancelOrder_spec (e.core.exchange s) n with ⟨order, state, ex, heq, -⟩ | ⟨err, heq⟩
      · refine waiting_of_acceptedCancel ?_
        have hregistry : e.core.orderSymbolById[n]? = some s := by
          have htouched := hconducts.touched
          rwa [hcancel] at htouched
        change n ∈ (e.core.cleared.atTime event.tsSim).acceptedCancels event.kind
        have hfound : (e.core.cleared.atTime event.tsSim).orderSymbolById[n]? = some s := hregistry
        have hok : ((e.core.cleared.atTime event.tsSim).exchange s).cancelOrder n = .ok ex := heq
        simp [hcancel, Core.acceptedCancels, hfound, hok]
      · simp only [ExchangeSimulator.perform, heq] at hface
        exact hkeeps hkind (h s o hface)
    · rw [Core.faces, hconducts.after] at hface
      obtain ⟨live, hlive, -, hstate⟩ := face_eq_some.1 hface
      have hno : .cancelOrder n ∉ (e.core.cleared.atTime event.tsSim).calls event.kind :=
        fun hmem => hcancel (cancel_of_calls hmem)
      obtain ⟨live', hlive', hstate'⟩ :=
        pendingCancel_of_session hconducts.isNew hconducts.may hno hlive hstate
      rw [← hconducts.orders] at hlive'
      exact hkeeps hkind (h s live'.order (face_eq_some.2 ⟨live', hlive', rfl, hstate'⟩))

theorem AcksPend.flush (h : e.AcksPend n) : e.flush.1.AcksPend n := by
  obtain ⟨hexchanges, -⟩ := flush_aside e
  obtain ⟨new, hworks, -⟩ := flush_spec e
  exact h.frame (Core.faces_of_exchanges hexchanges) fun x => hworks.waiting_subset

variable [TickSource T] [L3Source U]

omit [Strategy S] [LatencyModel L R] [TickSource T] [L3Source U] in
theorem AcksPend.push (h : e.AcksPend n) (ts : ℤ) (kind : EventKind) :
    (e.pushEvent ts kind).AcksPend n := by
  refine h.frame rfl fun x hx => ?_
  have hany : EventKind.any kind = true := rfl
  rw [queue_pushEvent, EventQueue.waiting_push, if_pos hany,
    (StableSort.insertLast_perm _ _).mem_iff]
  exact List.mem_cons_of_mem _ hx

theorem AcksPend.ingest {ε : Type} (h : e.AcksPend n) : (e.ingest (ε := ε)).1.AcksPend n := by
  refine ingest_preserves h ?_ ?_ ?_ ?_
  · exact fun _ _ _ h => h
  · exact fun _ _ h => h
  · exact fun _ h => h
  · exact fun e ts kind _ h => h.push ts kind

theorem AcksPend.turn (h : e.AcksPend n) (htracked : e.Tracked) (hhosted : ∀ s, e.Hosted s) :
    e.turn.1.AcksPend n := by
  have htaken := h.ingest (ε := Strategy.Error S)
  obtain ⟨e₁, rfl, ⟨-, -, hturn | hturn⟩ | ⟨event, queue, hpop, -, -, hturn⟩⟩ := turn_pops e
  · rwa [hturn]
  · rw [hturn]
    exact htaken.flush
  · rw [hturn]
    exact htaken.dispatch htracked.ingest (fun s => (hhosted s).ingest) hpop

variable [SeedableRng R] {st : Status (EngineError (Strategy.Error S))}
  {allowed : ℤ → EventKind → Prop}

theorem acksPend (built : Built allowed e₀) (h : Reaches turn (External allowed) e₀ e st)
    (outside : ∀ ts kind, allowed ts kind → kind.isOrderEvent = false) (n : ℕ) : e.AcksPend n := by
  have hexternal : ∀ {e e' : Engine T U Q S L R}, e.AcksPend n → External allowed e e' →
      e'.AcksPend n := by
    rintro e e' hacks hext
    cases hext with
    | addTickSource source => exact hacks
    | addL3Source source => exact hacks.frame (Core.faces_of_exchanges rfl) fun _ hx => hx
    | @pushEvent ts kind _ => exact hacks.push ts kind
  induction h with
  | start =>
    induction built with
    | new => exact fun s o hface => by simp [Engine.new, Core.faces, Core.exchange] at hface
    | external _ hext ih => exact hexternal ih hext
  | turn run ih => exact ih.turn (tracked built run outside) fun s => hosted built run outside s
  | env _ hext ih => exact hexternal ih hext

/-! ## The end of a run -/

/-- How an accepted order ends a run : its course is told to the end and no table holds it, or it
rests at its exchange in the state that was told last. -/
inductive Outcome (e : Engine T U Q S L R) (o : Order) : Prop
  | closed (told : IsComplete o.orderType (e.told o.orderId))
      (registry : e.core.orderSymbolById[o.orderId]? = none)
      (tables : ∀ s, (e.core.exchange s).orders[o.orderId]? = none)
  | resting {k : ℕ} {state : OrderState} (limit : o.orderType = .limit)
      (told : e.told o.orderId = .open :: List.replicate k .partiallyFilled)
      (last : (e.told o.orderId).getLast? = some state)
      (registry : e.core.orderSymbolById[o.orderId]? = some o.symbolId)
      (table : (e.core.exchange o.symbolId).face o.orderId = some (o, state))
      (elsewhere : ∀ s, s ≠ o.symbolId → (e.core.exchange s).orders[o.orderId]? = none)

/-- Once a run has finished, the strategy was told of every refusal, and every accepted order has
its outcome. -/
theorem orders_settled {l3s : List (List L3Update)} {tks : List (List Tick)}
    (built : Built (fun _ kind => kind.isBackground = true) e₀) (feeds : e₀.Feeds l3s tks)
    (paced : e₀.Paced l3s tks) (h : Reaches turn closed e₀ e .finished)
    (hno : Effect.overflow ∉ e.trace) :
    (∀ o reason, .refused o reason ∈ e.trace → e.told o.orderId = [.rejected]) ∧
      ∀ o, .accepted o ∈ e.trace → e.Outcome o := by
  have outside : ∀ (ts : ℤ) (kind : EventKind), kind.isBackground = true →
      kind.isOrderEvent = false := fun _ kind hk => by cases kind <;> first | rfl | cases hk
  have hinvariant : e.Tracked ∧ (∀ s, e.Hosted s) ∧ ∀ n, e.AcksPend n := by
    refine h.invariant_closed (I := fun e => e.Tracked ∧ (∀ s, e.Hosted s) ∧ ∀ n, e.AcksPend n)
      ⟨tracked built .start outside, hosted built .start outside, acksPend built .start outside⟩ ?_
    rintro e ⟨htracked, hhosted, hacks⟩
    exact ⟨htracked.turn, fun s => (hhosted s).turn htracked,
      fun n => (hacks n).turn htracked hhosted⟩
  obtain ⟨htracked, -, hacks⟩ := hinvariant
  obtain ⟨hchannel, -, hcomplete⟩ := channel built feeds paced h hno
  obtain ⟨idle, -⟩ := hchannel.complete rfl
  have htold : ∀ n, e.told n = (e.trace.filterMap (Life.reportAbout n)).map OrderReport.status :=
    fun n => by
    rw [filterMap_reportAbout, told, hcomplete rfl]
    rfl
  refine ⟨fun o reason ho => ?_, fun o ho => ?_⟩
  · obtain ⟨ph, hin⟩ := htracked.inPhase o.orderId
    have hdown := hin.life.turnedDown_iff.2 ⟨⟨reason, ho⟩, rfl⟩
    have hpending := hin.pending_of_idle htracked idle
    have hreports := hin.life.statuses
    have hsettled := hin.settled
    rw [htold]
    cases ph with
    | dismissed o' => exact hreports
    | refused o' ts r => cases hpending
    | declined o' => cases hsettled
    | _ => cases hdown
  · obtain ⟨ph, hin⟩ := htracked.inPhase o.orderId
    have haccepted := hin.life.accepted_iff.2 ⟨ho, rfl⟩
    have hpending := hin.pending_of_idle htracked idle
    have hreports := hin.life.statuses
    have hsettled := hin.settled
    have hfaces : ∀ s, (e.core.exchange s).face o.orderId = ph.faces s := congrFun hin.stage.faces
    rw [← htold] at hreports
    cases ph with
    | closed o' dt =>
      obtain rfl : o' = o := Option.some.inj haccepted
      exact .closed hreports hin.stage.registry fun s => face_eq_none.1 (hfaces s)
    | resting o' dt state =>
      obtain rfl : o' = o := Option.some.inj haccepted
      obtain ⟨hlimit, k, hk⟩ := hreports
      have hface : (e.core.exchange o'.symbolId).face o'.orderId = some (o', state) :=
        (hfaces _).trans (if_pos rfl)
      refine .resting hlimit hk ?_ hin.stage.registry hface fun s hs => ?_
      · rw [htold]
        refine hin.life.last_of_resting fun hstate => ?_
        -- the ACK of a cancel in flight would wait
        obtain ⟨ts, hts⟩ := hacks o'.orderId o'.symbolId o' (hstate ▸ hface)
        rw [EventQueue.waiting, EventQueue.pop_eq_none.1 idle] at hts
        cases hts
      · exact face_eq_none.1 ((hfaces s).trans (if_neg fun heq => hs (Option.some.inj heq).symm))
    | travelling o' | awaiting o' dt | closing o' dt s ts r => cases hpending
    | unborn | declined o' | refused o' ts r | dismissed o' => cases haccepted
    | _ => cases hsettled

/-- Order `1` is filled in part, and the rest of it rests; order `2` is too large for the risk
guard; order `3` is cancelled. -/
theorem orders_settled_sample :
    let order : Order := ⟨0, 0, 0, 0, 100, 2, 1, .buy, .limit⟩
    let ticks : List Tick := [⟨1000, 0, 0, 100, 1, 1, .buy, 0⟩, ⟨1015, 0, 1, 100, 1, 1, .sell, 0⟩]
    let e₀ := sample { maxPosition := 5, orderUpdateLatencyNs := 3 } 10
      [[.submitOrder order, .submitOrder { order with qty := 9 },
        .submitOrder { order with price := 90 }],
        [.cancelOrder 3]] [ticks]
    let e := (runFor turn 30 e₀).1
    e.told 1 = [.open, .partiallyFilled] ∧ e.told 2 = [.rejected] ∧ e.told 3 = [.open, .cancelled] ∧
      e.Outcome { order with orderId := 1, tsSubmit := 1000 } := by
  intro order ticks e₀ e
  have built : Built (fun _ kind => kind.isBackground = true) e₀ :=
    .external (.new _ _ _ _ _) (.addTickSource ticks)
  have feeds : e₀.Feeds [] [ticks] := (feeds_new _ _ _ _ _).addTickSource (yields_list ticks)
  have paced : e₀.Paced [] [ticks] := ⟨by decide +kernel, by decide +kernel, by decide, by decide⟩
  have run : Reaches turn closed e₀ e .finished := reaches_of_runFor 30 (by decide +kernel)
  have haccepted : { order with orderId := 1, tsSubmit := 1000 } ∈
      e.trace.filterMap (Life.acceptedAs 1) := by decide +kernel
  obtain ⟨-, hsettled⟩ := orders_settled built feeds paced run (by decide +kernel)
  exact ⟨by decide +kernel, by decide +kernel, by decide +kernel,
    hsettled _ (Life.mem_acceptedAs.1 haccepted).1⟩

end Engine

end Backtester
