import Backtester.Clock
import Backtester.Lifecycle

/-!
# Every order is in some phase

`Engine.Tracked` says that between two events every order of an engine is in some phase, and that
the registry and the exchanges show it so. It holds at every turn of every run in which no
events of orders come from outside (`Engine.tracked`). What is popped is then
the one event of the order that was on its way (`Tracked.pending_of_pop`).
-/

open Run StableSort Std

set_option linter.unusedSectionVars false

namespace Backtester

variable {T U Q S L R : Type} [QueueModel Q] {n : ℕ} {ph : Phase}

namespace Phase

/-- At most one event of an order is on its way. -/
theorem length_pending (n : ℕ) (ph : Phase) : (ph.pending n).length ≤ 1 := by
  cases ph <;> simp [pending]

/-- An order event that waits is that of an order on its way. -/
theorem eq_travelling {ts : ℤ} {o : Order} (h : ph.pending n = [(ts, .order o)]) :
    ph = .travelling o ∧ ts = o.tsSubmit := by
  cases ph with
  | travelling o' =>
    obtain ⟨rfl, rfl⟩ : o'.tsSubmit = ts ∧ o' = o := by simpa [pending] using h
    exact ⟨rfl, rfl⟩
  | _ => simp [pending] at h

/-- An acknowledgement that waits is that of an order at its exchange. -/
theorem eq_awaiting {ts : ℤ} {m : ℕ} (h : ph.pending n = [(ts, .orderAck m)]) :
    ∃ o dt, ph = .awaiting o dt ∧ ts = satAddI64 o.tsSubmit dt := by
  cases ph <;> simp_all [pending]

/-- A report that ends a registration waits for an order that was refused or is closing. -/
theorem eq_refused_or_closing {ts : ℤ} {r : OrderReport}
    (h : ph.pending n = [(ts, .orderReport r)]) :
    (∃ o, ph = .refused o ts r) ∨ ∃ o dt s, ph = .closing o dt s ts r := by
  cases ph <;> simp_all [pending]

end Phase

/-! ## One event -/

namespace Core

variable {c : Core Q S L R} {h : List Effect}

/-- Orders are kept under their ids, since those that went to an exchange went there under
theirs. -/
theorem keyed_of_stage (hall : ∀ n, ∃ ph, c.Stage n ph ∧ Life n h ph) (symbolId : ℕ) :
    (c.exchange symbolId).Keyed := by
  refine ExchangeSimulator.keyed_iff.2 fun n o s hface => ?_
  obtain ⟨ph, hstage, hlife⟩ := hall n
  have hfaces : ph.faces symbolId = some (o, s) := (congrFun hstage.faces symbolId).symm.trans hface
  unfold Phase.faces at hfaces
  split_ifs at hfaces
  refine hlife.orderId_of_accepted ?_
  cases ph <;> simp_all [Phase.face, Phase.accepted]

variable [Strategy S] [LatencyModel L R]

/-- A handled event leaves every order in some phase. -/
theorem settled_handle {event : Event} (activeTimer : Option ℕ)
    (hall : ∀ n, ∃ ph, c.Stage n ph ∧ Life n h ph) (hph : ph.isSettled = true)
    (hstage : c.Stage n ph) (hlife : Life n h ph) (hnow : c.nowTsSim = event.tsSim)
    (heffects : c.effects = [])
    (hpending : event.kind.moves n = true → ph.pending n = [(event.tsSim, event.kind)]) :
    (c.handle event.kind).1.Settled n (h ++ [.popped event activeTimer]) := by
  have hkeyed := keyed_of_stage hall
  have hmove : ∀ {ph'}, Advance n ph (.popped event activeTimer) ph' →
      Life n (h ++ [.popped event activeTimer] ++ c.effects) ph' := fun hx => by
    rw [heffects, List.append_nil]
    exact hlife.step hx
  have hskip : event.kind.moves n = false → c.Settled n (h ++ [.popped event activeTimer]) :=
    fun hno => ⟨ph, hph, hstage, by
      rw [heffects, List.append_nil]
      exact hlife.skip hno⟩
  cases hkind : event.kind with
  | tick tick => exact (hskip (by rw [hkind]; rfl)).onTickEvent hkeyed tick
  | tickDelivery tick => exact (hskip (by rw [hkind]; rfl)).onTickDelivery tick
  | l2Update update => exact (hskip (by rw [hkind]; rfl)).aside (aside_onL2Update c update)
  | l3Update update => exact (hskip (by rw [hkind]; rfl)).aside (aside_onL3Update c update)
  | order o =>
    by_cases hid : o.orderId = n
    · have hmoves : event.kind.moves n = true := by simp [hkind, EventKind.moves, hid]
      obtain ⟨rfl, hts⟩ := Phase.eq_travelling (hkind ▸ hpending hmoves)
      exact settled_onOrder hstage (hmove (.arrive hmoves hts hkind)) hid (hnow.trans hts)
    · exact (hskip (by simp [hkind, EventKind.moves, hid])).aside (aside_onOrder hid)
  | orderAck m =>
    by_cases hmn : m = n
    · subst hmn
      have hmoves : event.kind.moves m = true := by simp [hkind, EventKind.moves]
      obtain ⟨o, dt, rfl, hts⟩ := Phase.eq_awaiting (hkind ▸ hpending hmoves)
      exact settled_onOrderAck ⟨⟨hstage.registry, hstage.faces, fun _ => hstage.fresh (by simp)⟩,
        hmove (.ack hts hkind)⟩
    · exact (hskip (by simp [hkind, EventKind.moves, hmn])).aside (aside_onOrderAck hmn hkeyed)
  | orderCancel m => exact (hskip (by rw [hkind]; rfl)).onOrderCancel m
  | orderCancelAck m => exact (hskip (by rw [hkind]; rfl)).onOrderCancelAck hkeyed m
  | orderReport r =>
    by_cases hmoves : event.kind.moves n = true
    · have hr : r.orderId = n ∧ r.status.isTerminal = true := by
        simpa [hkind, EventKind.moves] using hmoves
      rcases Phase.eq_refused_or_closing (hkind ▸ hpending hmoves) with
        ⟨o, rfl⟩ | ⟨o, dt, s, rfl⟩
      · -- a refused order is not in the registry
        refine settled_onOrderReport ?_
        rw [forget_of_refused (by rw [hr.1]; exact hstage.registry)]
        exact ⟨.dismissed o, rfl, ⟨hstage.registry, hstage.faces, fun _ => hstage.fresh (by simp)⟩,
          hmove (.dismiss hmoves rfl hkind)⟩
      · obtain ⟨hforget, hkept⟩ := stage_forget hstage hr.1 hr.2
        refine settled_onOrderReport ⟨.closed o dt, rfl, hforget, ?_⟩
        rw [hkept]
        exact hmove (.close hmoves rfl hkind)
    · have hno : event.kind.moves n = false := by simpa using hmoves
      refine settled_onOrderReport ((hskip hno).aside (aside_forget ?_))
      rw [hkind] at hno
      simpa [EventKind.moves, ← imp_iff_not_or] using hno
  | funding event' => exact (hskip (by rw [hkind]; rfl)).onFunding event'
  | timer timerId => exact (hskip (by rw [hkind]; rfl)).aside (aside_onTimer c timerId)

end Core

/-! ## Runs -/

namespace Engine

/-- Everything scheduled is popped or waits. -/
def Conserved (p : EventKind → Bool) (e : Engine T U Q S L R) : Prop :=
  (poppedIn p e.trace ++ e.queue.waiting p).Perm (scheduledIn p e.trace)

/-- Between two events, order `n` is in phase `ph`. -/
structure InPhase (n : ℕ) (e : Engine T U Q S L R) (ph : Phase) : Prop where
  settled : ph.isSettled = true
  stage : e.core.Stage n ph
  life : Life n e.trace ph

/-- Between two events, every order is in some phase, and all its events are accounted for. -/
structure Tracked (e : Engine T U Q S L R) : Prop where
  conserved : ∀ p, e.Conserved p
  inPhase : ∀ n, ∃ ph, e.InPhase n ph

variable {e e' : Engine T U Q S L R} {p : EventKind → Bool}

/-- An event that is pushed is scheduled and waits. -/
theorem Conserved.push (h : e.Conserved p) (ts : ℤ) (kind : EventKind) :
    (e.pushEvent ts kind).Conserved p := by
  unfold Conserved at h ⊢
  rw [queue_pushEvent, trace_pushEvent, EventQueue.waiting_push, scheduledIn_append,
    poppedIn_append, scheduledIn_singleton]
  change (poppedIn p e.trace ++ [] ++ _).Perm _
  rw [List.append_nil]
  split_ifs
  · refine List.Perm.trans ?_ (h.append_right [(ts, kind)])
    rw [List.append_assoc]
    exact ((insertLast_perm _ _).trans (List.perm_append_singleton _ _).symm).append_left _
  · simpa using h

/-- A note that schedules and pops nothing changes nothing here. -/
theorem Conserved.log (h : e.Conserved p) {x : Effect} (hs : scheduledIn p [x] = [])
    (hp : poppedIn p [x] = []) : (e.log x).Conserved p := by
  unfold Conserved at h ⊢
  rw [queue_log, trace_log, scheduledIn_append, poppedIn_append, hs, hp, List.append_nil,
    List.append_nil]
  exact h

/-- Work pushes what it schedules. -/
theorem Conserved.works (h : e.Conserved p) {new : List Effect} (hw : Works e e' new) :
    e'.Conserved p := by
  unfold Conserved at h ⊢
  rw [hw.poppedIn_trace, hw.waiting, hw.trace, scheduledIn_append]
  exact (List.Perm.append_left _ (insertAll_perm _ _)).trans
    (by rw [← List.append_assoc]; exact h.append_right _)

/-- The event that is popped does not wait any more. -/
theorem Conserved.pop (h : e.Conserved p) {event : Event} {queue : EventQueue}
    (pop : e.queue.pop = some (event, queue)) :
    ((e.withQueue queue).popped event).Conserved p := by
  unfold Conserved at h ⊢
  change (poppedIn p (e.trace ++ [.popped event _]) ++ queue.waiting p).Perm
    (scheduledIn p (e.trace ++ [.popped event _]))
  rw [EventQueue.waiting_pop pop] at h
  rw [poppedIn_append, poppedIn_singleton, List.append_assoc, scheduledIn_append]
  exact h.trans (by simp [scheduledIn])

/-- A note that does not concern the order leaves it in its phase. -/
theorem InPhase.log (h : e.InPhase n ph) {x : Effect} (hx : x.concerns n = false) :
    (e.log x).InPhase n ph :=
  ⟨h.settled, h.stage, h.life.skip hx⟩

/-- An event about no order leaves it in its phase. -/
theorem InPhase.push (h : e.InPhase n ph) (ts : ℤ) {kind : EventKind}
    (hkind : kind.isOrderEvent = false) : (e.pushEvent ts kind).InPhase n ph := by
  refine ⟨h.settled, h.stage, h.life.skip ?_⟩
  cases kind <;> first | rfl | cases hkind

/-- The popped event of an order is the one that was on its way. -/
theorem Tracked.pending_of_pop (h : e.Tracked) {event : Event} {queue : EventQueue}
    (pop : e.queue.pop = some (event, queue)) (hin : e.InPhase n ph)
    (hmoves : event.kind.moves n = true) : ph.pending n = [(event.tsSim, event.kind)] := by
  have hwaiting : (e.queue.waiting (EventKind.moves n)).Perm (ph.pending n) :=
    (List.perm_append_left_iff _).1 ((h.conserved _).trans hin.life.pending)
  rw [EventQueue.waiting_pop pop, if_pos hmoves] at hwaiting
  have hlength : queue.waiting (EventKind.moves n) = [] := by
    have hle := hwaiting.length_eq.trans_le (ph.length_pending n)
    simpa using hle
  rw [hlength, List.append_nil] at hwaiting
  exact List.perm_singleton.1 hwaiting.symm

/-- A handler that leaves every order settled keeps the engine tracked. -/
theorem Tracked.absorb (h : e.Tracked) {t now : ℤ} {core : Core Q S L R}
    (hgrows : Core.Grows t (e.core.cleared.atTime now) core)
    (hsettled : ∀ n, core.Settled n e.trace) : (e.absorb core).Tracked := by
  obtain ⟨new, hw, -⟩ := absorb_spec e hgrows
  refine ⟨fun p => Conserved.works (e := { e with core := e.core.atTime now }) (h.conserved p) hw,
    fun n => ?_⟩
  obtain ⟨ph, hph, hstage, hlife⟩ := hsettled n
  refine ⟨ph, hph, ?_, ?_⟩
  · rw [core_absorb]
    exact hstage.congr rfl rfl rfl
  · rwa [trace_absorb]

variable [Strategy S]

/-- A flush keeps track of what the strategy submits. -/
theorem Tracked.flush (h : e.Tracked) : e.flush.1.Tracked := by
  have hgrows : Core.Grows e.core.nowTsSim (e.core.cleared.atTime e.core.nowTsSim)
      (e.core.cleared.flushStrategy e.core.nowTsSim).1 := Core.grows_flushStrategy e.core.cleared
  refine h.absorb hgrows fun n => ?_
  obtain ⟨ph, hin⟩ := h.inPhase n
  have hat : e.core.cleared.At n e.trace ph :=
    ⟨hin.stage.congr rfl rfl rfl, by simpa [Core.cleared] using hin.life⟩
  exact Core.Settled.flushStrategy ⟨ph, hin.settled, hat⟩ _

/-- Noting a wakeup concerns no order. -/
theorem Tracked.setPendingWakeup (h : e.Tracked) (b : Bool) : (e.setPendingWakeup b).Tracked :=
  ⟨h.conserved, fun n => by
    obtain ⟨ph, hin⟩ := h.inPhase n
    exact ⟨ph, hin.settled, hin.stage.congr rfl rfl rfl, hin.life⟩⟩

/-- A flush that may be put off keeps track. -/
theorem Tracked.deferredFlush (h : e.Tracked) (wakeup : Bool) :
    (e.deferredFlush wakeup).1.Tracked := by
  have hflush := h.flush
  unfold Engine.deferredFlush
  split_ifs
  · split
    · next heq => simpa [heq] using hflush
    · next e' heq =>
      have he' : e'.Tracked := by simpa [heq] using hflush
      exact he'.setPendingWakeup false
  · exact h.setPendingWakeup true
  · exact h

variable [LatencyModel L R]

/-- An event that is popped moves on the order it is about. -/
theorem Tracked.handleEvent (h : e.Tracked) {event : Event} {queue : EventQueue}
    (pop : e.queue.pop = some (event, queue)) :
    ((e.withQueue queue).handleEvent event).1.Tracked := by
  have hgrows := Core.grows_handle (e.core.cleared.atTime event.tsSim) event.kind
  obtain ⟨new, hw, -⟩ := handleEvent_spec (e.withQueue queue) event
  refine ⟨fun p => ((h.conserved p).pop pop).works hw, fun n => ?_⟩
  obtain ⟨ph, hin⟩ := h.inPhase n
  have hall : ∀ n, ∃ ph, (e.core.cleared.atTime event.tsSim).Stage n ph ∧ Life n e.trace ph := by
    intro n
    obtain ⟨ph, hin⟩ := h.inPhase n
    exact ⟨ph, hin.stage.congr rfl rfl rfl, hin.life⟩
  obtain ⟨ph', hph', hstage, hlife⟩ := Core.settled_handle e.core.activeBatchTimerId
    hall hin.settled (hin.stage.congr rfl rfl rfl) hin.life rfl rfl
    (h.pending_of_pop pop hin)
  refine ⟨ph', hph', ?_, ?_⟩
  · change (Engine.absorb _ _).core.Stage n ph'
    rw [core_absorb]
    exact hstage.congr rfl rfl rfl
  · change Life n (Engine.absorb _ _).trace ph'
    rwa [trace_absorb]

/-- An event with its flush keeps track of every order. -/
theorem Tracked.dispatch (h : e.Tracked) {event : Event} {queue : EventQueue}
    (pop : e.queue.pop = some (event, queue)) :
    ((e.withQueue queue).dispatch event).1.Tracked := by
  have hhandle := h.handleEvent pop
  unfold Engine.dispatch
  split
  · next heq => simpa [heq] using hhandle
  · next heq => simpa [heq] using hhandle
  · next e' wakeup heq =>
    have he' : e'.Tracked := by simpa [heq] using hhandle
    exact he'.deferredFlush wakeup

variable [TickSource T] [L3Source U]

/-- Taking a record in concerns no order. -/
theorem Tracked.ingest {ε : Type} (h : e.Tracked) : (e.ingest (ε := ε)).1.Tracked := by
  refine ingest_preserves h ?_ ?_ ?_ ?_
  · exact fun e ticks l3 he => ⟨he.conserved, fun n => by
      obtain ⟨ph, hin⟩ := he.inPhase n
      exact ⟨ph, hin.settled, hin.stage, hin.life⟩⟩
  · exact fun e record he => ⟨fun p => (he.conserved p).log rfl rfl, fun n => by
      obtain ⟨ph, hin⟩ := he.inPhase n
      exact ⟨ph, hin.log rfl⟩⟩
  · exact fun e he => ⟨fun p => (he.conserved p).log rfl rfl, fun n => by
      obtain ⟨ph, hin⟩ := he.inPhase n
      exact ⟨ph, hin.log rfl⟩⟩
  · exact fun e ts kind hkind he => ⟨fun p => (he.conserved p).push ts kind, fun n => by
      obtain ⟨ph, hin⟩ := he.inPhase n
      exact ⟨ph, hin.push ts (EventKind.isOrderEvent_of_isFeed hkind)⟩⟩

/-- A turn keeps track of every order. -/
theorem Tracked.turn (h : e.Tracked) : e.turn.1.Tracked := by
  obtain ⟨e₁, pass, heq, hturn⟩ := turn_cases e
  have he₁ : e₁.Tracked := by
    have hingest := h.ingest (ε := Strategy.Error S)
    rwa [heq] at hingest
  rcases hturn with ⟨-, hturn, -⟩ | ⟨-, event, queue, hpop, hturn⟩ | ⟨-, -, hturn⟩ |
    ⟨-, -, hturn, -⟩
  · exact hturn ▸ he₁
  · rw [hturn]
    exact he₁.dispatch hpop
  · rw [hturn]
    exact he₁.flush
  · rw [hturn]
    exact he₁

/-- What is added before the run concerns no order. -/
theorem Tracked.external {allowed : ℤ → EventKind → Prop} (h : e.Tracked)
    (outside : ∀ ts kind, allowed ts kind → kind.isOrderEvent = false)
    (hext : External allowed e e') :
    e'.Tracked := by
  cases hext with
  | addTickSource source => exact ⟨h.conserved, fun n => by
      obtain ⟨ph, hin⟩ := h.inPhase n
      exact ⟨ph, hin.settled, hin.stage, hin.life⟩⟩
  | addL3Source source => exact ⟨h.conserved, fun n => by
      obtain ⟨ph, hin⟩ := h.inPhase n
      exact ⟨ph, hin.settled, hin.stage.congr rfl rfl rfl, hin.life⟩⟩
  | @pushEvent ts kind hallowed => exact ⟨fun p => (h.conserved p).push ts kind, fun n => by
      obtain ⟨ph, hin⟩ := h.inPhase n
      exact ⟨ph, hin.push ts (outside ts kind hallowed)⟩⟩

/-- A new engine has no orders to keep track of. -/
theorem tracked_new [SeedableRng R] (queueModel : Q) (strategy : S) (config : EngineConfig)
    (latencyModel : L) (currentBatchNs : ℕ → ℤ) :
    (Engine.new queueModel strategy config latencyModel currentBatchNs :
      Engine T U Q S L R).Tracked := by
  refine ⟨fun p => .refl _, fun n => ⟨.unborn, rfl, ⟨?_, ?_, by simp⟩, .start⟩⟩
  · simp [Engine.new, Phase.symbol]
  · funext s
    simp [Core.faces, Core.exchange, Engine.new, Phase.faces, Phase.symbol]

/-- At every turn of a run every order is in some phase. -/
theorem tracked [SeedableRng R] {allowed : ℤ → EventKind → Prop} {e₀ : Engine T U Q S L R}
    {st : Status (EngineError (Strategy.Error S))} (built : Built allowed e₀)
    (h : Reaches turn (External allowed) e₀ e st)
    (outside : ∀ ts kind, allowed ts kind → kind.isOrderEvent = false) : e.Tracked :=
  open_invariant built h tracked_new (fun _ _ he hext => he.external outside hext)
    fun _ he => he.turn

end Engine

end Backtester
