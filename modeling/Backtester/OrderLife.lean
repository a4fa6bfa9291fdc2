import Backtester.Runs

/-!
# The life of an order

One order id on its own. A life is a sequence of phases, from `unborn` to `closed` or
`dismissed`; the effects that concern the id move it from phase to phase (`Advance`), and
`Life n l ph` says that the trace `l` leaves order `n` in phase `ph`.

In some phases one event of the order is on its way (`Phase.pending`). Every event of the order
that is scheduled is popped or on its way (`Life.pending`), so nothing is ever on its way twice.
What the reports of an order can say follows from the phases alone (`Life.statuses`).
-/

set_option linter.unusedSectionVars false

namespace Backtester

/-! ## Effects of one order -/

namespace EventKind

/-- The events that move order `n` on when they are popped. -/
def moves (n : ℕ) : EventKind → Bool
  | order o => o.orderId = n
  | orderAck m => m = n
  | orderReport r => r.orderId = n && r.status.isTerminal
  | _ => false

/-- The events about order `n` that move it on when they are scheduled. -/
def isAbout (n : ℕ) : EventKind → Bool
  | order o => o.orderId = n
  | orderAck m => m = n
  | orderReport r => r.orderId = n
  | _ => false

end EventKind

/-- The effect belongs to the life of order `n`. -/
def Effect.concerns (n : ℕ) : Effect → Bool
  | .scheduled _ kind => kind.isAbout n
  | .popped event _ => event.kind.moves n
  | .accepted o => o.orderId = n
  | .refused o _ => o.orderId = n
  | .orderLatency m _ => m = n
  | .cancelLatency m _ => m = n
  | .filled fill => fill.orderId = n
  | _ => false

/-! ## Phases -/

/-- Where an order is in its life. `dt` is the latency sampled when it reached the exchange. -/
inductive Phase where
  | unborn
  /-- The risk guard has refused the order. -/
  | declined (o : Order)
  /-- Its report `r` is on its way. -/
  | refused (o : Order) (ts : ℤ) (r : OrderReport)
  | dismissed (o : Order)
  /-- The risk guard has let the order pass. -/
  | registered (o : Order)
  /-- On its way to the exchange. -/
  | travelling (o : Order)
  | arriving (o : Order)
  | arrived (o : Order) (dt : ℤ)
  /-- At the exchange, its ACK is on its way. -/
  | awaiting (o : Order) (dt : ℤ)
  | acking (o : Order) (dt : ℤ)
  /-- A limit order in the book, in the state `s`. -/
  | resting (o : Order) (dt : ℤ) (s : OrderState)
  /-- A market order of which a part is filled. -/
  | partly (o : Order) (dt : ℤ)
  /-- In the terminal state `s`; the last report `r` is on its way. -/
  | closing (o : Order) (dt : ℤ) (s : OrderState) (ts : ℤ) (r : OrderReport)
  | closed (o : Order) (dt : ℤ)

namespace Phase

/-- The order, from the moment the risk guard lets it pass. -/
def accepted : Phase → Option Order
  | registered o | travelling o | arriving o => some o
  | arrived o _ | awaiting o _ | acking o _ | resting o _ _ | partly o _ | closing o _ _ _ _
  | closed o _ => some o
  | _ => none

/-- The order, from the moment the risk guard refuses it. -/
def turnedDown : Phase → Option Order
  | declined o | refused o _ _ | dismissed o => some o
  | _ => none

/-- The latency sampled for the order. -/
def latency : Phase → Option ℤ
  | arrived _ dt | awaiting _ dt | acking _ dt | resting _ dt _ | partly _ dt | closing _ dt _ _ _
  | closed _ dt => some dt
  | _ => none

/-- The registry entry of the order : its symbol. -/
def symbol : Phase → Option ℕ
  | registered o | travelling o | arriving o => some o.symbolId
  | arrived o _ | awaiting o _ | acking o _ | resting o _ _ | partly o _ | closing o _ _ _ _ =>
    some o.symbolId
  | _ => none

/-- The order and its state in the table of the exchange. -/
def face : Phase → Option (Order × OrderState)
  | arrived o _ | awaiting o _ | acking o _ => some (o, .pendingNew)
  | resting o _ s => some (o, s)
  | partly o _ => some (o, .partiallyFilled)
  | closing o _ s _ _ => some (o, s)
  | _ => none

/-- The event of the order that is on its way. -/
def pending (n : ℕ) : Phase → List (ℤ × EventKind)
  | refused _ ts r => [(ts, .orderReport r)]
  | travelling o => [(o.tsSubmit, .order o)]
  | awaiting o dt => [(satAddI64 o.tsSubmit dt, .orderAck n)]
  | closing _ _ _ ts r => [(ts, .orderReport r)]
  | _ => []

/-- The phases in which an order is between two events. -/
def isSettled : Phase → Bool
  | unborn | refused _ _ _ | dismissed _ | travelling _ | awaiting _ _ | resting _ _ _
  | closing _ _ _ _ _ | closed _ _ => true
  | _ => false

/-- When the order's ACK was popped. -/
def ackTime : Phase → Option ℤ
  | acking o dt | resting o dt _ | partly o dt | closing o dt _ _ _ | closed o dt =>
    some (satAddI64 o.tsSubmit dt)
  | _ => none

/-- The order's last report was popped. -/
def isOver : Phase → Bool
  | dismissed _ | closed _ _ => true
  | _ => false

end Phase

/-- The statuses that the reports of an accepted order go through, when all are told. -/
inductive IsComplete : OrderType → List OrderState → Prop
  | limitOrder (k : ℕ) {s : OrderState} (last : s = .filled ∨ s = .cancelled) :
      IsComplete .limit (.open :: List.replicate k .partiallyFilled ++ [s])
  | filled : IsComplete .market [.filled]
  | rejected : IsComplete .market [.rejected]
  | cancelled : IsComplete .market [.partiallyFilled, .cancelled]

/-- The statuses told by the reports of an order in this phase. -/
def Phase.Reports : Phase → List OrderState → Prop
  | refused _ _ _, w | dismissed _, w => w = [.rejected]
  | resting o _ _, w =>
    o.orderType = .limit ∧ ∃ k, w = .open :: List.replicate k .partiallyFilled
  | partly o _, w => o.orderType = .market ∧ w = [.partiallyFilled]
  | closing o _ _ _ _, w | closed o _, w => IsComplete o.orderType w
  | _, w => w = []

/-! ## Moves -/

/-- The moves of order `n`, by the effects that make them. -/
inductive Advance (n : ℕ) : Phase → Effect → Phase → Prop
  | decline {o : Order} {reason : String} (id : o.orderId = n) :
      Advance n .unborn (.refused o reason) (.declined o)
  | refuse {o : Order} {ts : ℤ} {r : OrderReport} (id : r.orderId = n)
      (status : r.status = .rejected) :
      Advance n (.declined o) (.scheduled ts (.orderReport r)) (.refused o ts r)
  | dismiss {o : Order} {ts : ℤ} {r : OrderReport} {event : Event} {activeTimer : Option ℕ}
      (moves : event.kind.moves n) (time : event.tsSim = ts) (kind : event.kind = .orderReport r) :
      Advance n (.refused o ts r) (.popped event activeTimer) (.dismissed o)
  | accept {o : Order} (id : o.orderId = n) : Advance n .unborn (.accepted o) (.registered o)
  | send {o : Order} (id : o.orderId = n) :
      Advance n (.registered o) (.scheduled o.tsSubmit (.order o)) (.travelling o)
  | arrive {o : Order} {event : Event} {activeTimer : Option ℕ} (moves : event.kind.moves n)
      (time : event.tsSim = o.tsSubmit) (kind : event.kind = .order o) :
      Advance n (.travelling o) (.popped event activeTimer) (.arriving o)
  | delay {o : Order} {dt : ℤ} :
      Advance n (.arriving o) (.orderLatency n dt) (.arrived o dt)
  | sendAck {o : Order} {dt : ℤ} :
      Advance n (.arrived o dt) (.scheduled (satAddI64 o.tsSubmit dt) (.orderAck n))
        (.awaiting o dt)
  | ack {o : Order} {dt : ℤ} {event : Event} {activeTimer : Option ℕ}
      (time : event.tsSim = satAddI64 o.tsSubmit dt) (kind : event.kind = .orderAck n) :
      Advance n (.awaiting o dt) (.popped event activeTimer) (.acking o dt)
  | rest {o : Order} {dt ts : ℤ} {r : OrderReport} (limit : o.orderType = .limit)
      (id : r.orderId = n) (status : r.status = .open) :
      Advance n (.acking o dt) (.scheduled ts (.orderReport r)) (.resting o dt .open)
  | fill {o : Order} {dt : ℤ} {s : OrderState} {fill : TradeFill} (id : fill.orderId = n) :
      Advance n (.resting o dt s) (.filled fill) (.resting o dt s)
  | fillPart {o : Order} {dt ts : ℤ} {s : OrderState} {r : OrderReport} (fillable : s.isFillable)
      (id : r.orderId = n) (status : r.status = .partiallyFilled) :
      Advance n (.resting o dt s) (.scheduled ts (.orderReport r)) (.resting o dt .partiallyFilled)
  | fillWhole {o : Order} {dt ts : ℤ} {s : OrderState} {r : OrderReport} (fillable : s.isFillable)
      (id : r.orderId = n) (status : r.status = .filled) :
      Advance n (.resting o dt s) (.scheduled ts (.orderReport r)) (.closing o dt .filled ts r)
  | cancel {o : Order} {dt dt' : ℤ} {s : OrderState} (may : s.canTransitionTo .pendingCancel) :
      Advance n (.resting o dt s) (.cancelLatency n dt') (.resting o dt .pendingCancel)
  | cancelled {o : Order} {dt ts : ℤ} {r : OrderReport} (id : r.orderId = n)
      (status : r.status = .cancelled) :
      Advance n (.resting o dt .pendingCancel) (.scheduled ts (.orderReport r))
        (.closing o dt .cancelled ts r)
  | marketFill {o : Order} {dt : ℤ} {fill : TradeFill} (market : o.orderType = .market)
      (id : fill.orderId = n) :
      Advance n (.acking o dt) (.filled fill) (.acking o dt)
  | marketWhole {o : Order} {dt ts : ℤ} {s : OrderState} {r : OrderReport}
      (market : o.orderType = .market) (id : r.orderId = n) (status : r.status = s)
      (terminal : s = .filled ∨ s = .rejected) :
      Advance n (.acking o dt) (.scheduled ts (.orderReport r)) (.closing o dt s ts r)
  | marketPart {o : Order} {dt ts : ℤ} {r : OrderReport} (market : o.orderType = .market)
      (id : r.orderId = n) (status : r.status = .partiallyFilled) :
      Advance n (.acking o dt) (.scheduled ts (.orderReport r)) (.partly o dt)
  | marketRest {o : Order} {dt ts : ℤ} {r : OrderReport} (market : o.orderType = .market)
      (id : r.orderId = n) (status : r.status = .cancelled) :
      Advance n (.partly o dt) (.scheduled ts (.orderReport r)) (.closing o dt .cancelled ts r)
  | close {o : Order} {dt ts : ℤ} {s : OrderState} {r : OrderReport} {event : Event}
      {activeTimer : Option ℕ} (moves : event.kind.moves n) (time : event.tsSim = ts)
      (kind : event.kind = .orderReport r) :
      Advance n (.closing o dt s ts r) (.popped event activeTimer) (.closed o dt)

/-- The trace `l` leaves order `n` in phase `ph`. -/
inductive Life (n : ℕ) : List Effect → Phase → Prop
  | start : Life n [] .unborn
  | skip {l : List Effect} {ph : Phase} {x : Effect} :
      Life n l ph → x.concerns n = false → Life n (l ++ [x]) ph
  | step {l : List Effect} {ph ph' : Phase} {x : Effect} :
      Life n l ph → Advance n ph x ph' → Life n (l ++ [x]) ph'

namespace Life

variable {n : ℕ} {l : List Effect} {ph ph' : Phase}

/-- Effects of other orders leave the phase as it is. -/
theorem skipAll (h : Life n l ph) : ∀ {new : List Effect}, (∀ x ∈ new, x.concerns n = false) →
    Life n (l ++ new) ph := by
  intro new
  induction new using List.reverseRecOn with
  | nil => simpa using h
  | append_singleton new x ih =>
    intro hnew
    rw [← List.append_assoc]
    exact (ih fun y hy => hnew y (by simp [hy])).skip (hnew x (by simp))

/-- The last effect of a trace is of another order, or moved the order. -/
theorem snoc_cases {x : Effect} (h : Life n (l ++ [x]) ph) :
    (Life n l ph ∧ x.concerns n = false) ∨ ∃ ph₁, Life n l ph₁ ∧ Advance n ph₁ x ph := by
  generalize hl : l ++ [x] = l' at h
  cases h with
  | start => simp at hl
  | skip h hx =>
    obtain ⟨rfl, hxx⟩ := List.append_inj' hl rfl
    obtain rfl := List.singleton_inj.1 hxx
    exact .inl ⟨h, hx⟩
  | step h hx =>
    obtain ⟨rfl, hxx⟩ := List.append_inj' hl rfl
    obtain rfl := List.singleton_inj.1 hxx
    exact .inr ⟨_, h, hx⟩

/-- Every effect of the order in its trace was a move. -/
theorem split {pre post : List Effect} {x : Effect} (h : Life n (pre ++ x :: post) ph) :
    ∃ ph₁, Life n pre ph₁ ∧ (x.concerns n = true → ∃ ph₂, Advance n ph₁ x ph₂) := by
  induction post using List.reverseRecOn generalizing ph with
  | nil =>
    rcases h.snoc_cases with ⟨h, hx⟩ | ⟨ph₁, h, hx⟩
    · exact ⟨ph, h, by simp [hx]⟩
    · exact ⟨ph₁, h, fun _ => ⟨ph, hx⟩⟩
  | append_singleton post y ih =>
    rw [← List.cons_append, ← List.append_assoc] at h
    rcases h.snoc_cases with ⟨h, -⟩ | ⟨ph₁, h, -⟩
    · exact ih h
    · exact ih h

/-- What the trace holds of one kind of effect, if the phase keeps account of it. -/
theorem filterMap_eq {β : Type*} {g : Effect → Option β} {f : Phase → Option β}
    (start : f .unborn = none) (skip : ∀ x : Effect, x.concerns n = false → g x = none)
    (step : ∀ ph x ph', Advance n ph x ph' → (f ph').toList = (f ph).toList ++ (g x).toList)
    (h : Life n l ph) : l.filterMap g = (f ph).toList := by
  induction h with
  | start => simp [start]
  | skip _ hx ih => simp [List.filterMap_append, ih, skip _ hx]
  | @step l ph ph' x _ hx ih =>
    rw [List.filterMap_append, ih, step _ _ _ hx]
    cases hg : g x <;> simp [hg]

/-! ## What the trace holds of the order -/

/-- The order that the risk guard let pass under id `n`. -/
def acceptedAs (n : ℕ) : Effect → Option Order
  | .accepted o => if o.orderId = n then some o else none
  | _ => none

/-- The order that the risk guard refuses under id `n`. -/
def refusedAs (n : ℕ) : Effect → Option Order
  | .refused o _ => if o.orderId = n then some o else none
  | _ => none

/-- The latency that was drawn for order `n`. -/
def latencyOf (n : ℕ) : Effect → Option ℤ
  | .orderLatency m dt => if m = n then some dt else none
  | _ => none

/-- The time at which the ACK of order `n` is popped. -/
def ackOf (n : ℕ) : Effect → Option ℤ
  | .popped event _ => if event.kind = .orderAck n then some event.tsSim else none
  | _ => none

/-- The last report of order `n` is popped. -/
def isLastReport (n : ℕ) : Effect → Bool
  | .popped event _ =>
    match event.kind with
    | .orderReport r => r.orderId = n && r.status.isTerminal
    | _ => false
  | _ => false

/-- The report of order `n` that is scheduled. -/
def reportAbout (n : ℕ) : Effect → Option OrderReport
  | .scheduled _ (.orderReport r) => if r.orderId = n then some r else none
  | _ => none

theorem accepted_eq (h : Life n l ph) : l.filterMap (acceptedAs n) = ph.accepted.toList := by
  refine h.filterMap_eq rfl (fun x hx => ?_) fun ph x ph' hx => ?_
  · cases x with
    | accepted o => simpa [acceptedAs, Effect.concerns] using hx
    | _ => rfl
  · cases hx <;> simp_all [acceptedAs, Phase.accepted]

theorem refused_eq (h : Life n l ph) : l.filterMap (refusedAs n) = ph.turnedDown.toList := by
  refine h.filterMap_eq rfl (fun x hx => ?_) fun ph x ph' hx => ?_
  · cases x with
    | refused o reason => simpa [refusedAs, Effect.concerns] using hx
    | _ => rfl
  · cases hx <;> simp_all [refusedAs, Phase.turnedDown]

theorem latency_eq (h : Life n l ph) : l.filterMap (latencyOf n) = ph.latency.toList := by
  refine h.filterMap_eq rfl (fun x hx => ?_) fun ph x ph' hx => ?_
  · cases x with
    | orderLatency m dt => simpa [latencyOf, Effect.concerns] using hx
    | _ => rfl
  · cases hx <;> simp_all [latencyOf, Phase.latency]

theorem ack_eq (h : Life n l ph) : l.filterMap (ackOf n) = ph.ackTime.toList := by
  refine h.filterMap_eq rfl (fun x hx => ?_) fun ph x ph' hx => ?_
  · cases x with
    | popped event activeTimer =>
      have hne : event.kind ≠ .orderAck n := by
        intro heq
        simp [Effect.concerns, EventKind.moves, heq] at hx
      simp [ackOf, hne]
    | _ => rfl
  · cases hx <;> simp_all [ackOf, Phase.ackTime]

theorem mem_acceptedAs {o : Order} :
    o ∈ l.filterMap (acceptedAs n) ↔ .accepted o ∈ l ∧ o.orderId = n := by
  rw [List.mem_filterMap]
  constructor
  · rintro ⟨x, hx, ho⟩
    cases x with
    | accepted o' =>
      simp only [acceptedAs, Option.ite_none_right_eq_some, Option.some.injEq] at ho
      exact ⟨ho.2 ▸ hx, ho.2 ▸ ho.1⟩
    | _ => cases ho
  · rintro ⟨ho, hid⟩
    exact ⟨_, ho, if_pos hid⟩

theorem mem_refusedAs {o : Order} :
    o ∈ l.filterMap (refusedAs n) ↔ (∃ reason, .refused o reason ∈ l) ∧ o.orderId = n := by
  rw [List.mem_filterMap]
  constructor
  · rintro ⟨x, hx, ho⟩
    cases x with
    | refused o' reason =>
      simp only [refusedAs, Option.ite_none_right_eq_some, Option.some.injEq] at ho
      exact ⟨⟨reason, ho.2 ▸ hx⟩, ho.2 ▸ ho.1⟩
    | _ => cases ho
  · rintro ⟨⟨reason, ho⟩, hid⟩
    exact ⟨_, ho, if_pos hid⟩

theorem mem_latencyOf {dt : ℤ} : dt ∈ l.filterMap (latencyOf n) ↔ .orderLatency n dt ∈ l := by
  rw [List.mem_filterMap]
  constructor
  · rintro ⟨x, hx, hdt⟩
    cases x <;> simp_all [latencyOf]
  · exact fun hdt => ⟨_, hdt, if_pos rfl⟩

theorem accepted_iff (h : Life n l ph) {o : Order} :
    ph.accepted = some o ↔ .accepted o ∈ l ∧ o.orderId = n := by
  rw [← mem_acceptedAs, h.accepted_eq, Option.mem_toList]

theorem turnedDown_iff (h : Life n l ph) {o : Order} :
    ph.turnedDown = some o ↔ (∃ reason, .refused o reason ∈ l) ∧ o.orderId = n := by
  rw [← mem_refusedAs, h.refused_eq, Option.mem_toList]

theorem latency_iff (h : Life n l ph) {dt : ℤ} : ph.latency = some dt ↔ .orderLatency n dt ∈ l := by
  rw [← mem_latencyOf, h.latency_eq, Option.mem_toList]

/-- An order is over once its last report is popped, and only then. -/
theorem isOver_iff (h : Life n l ph) : ph.isOver = true ↔ ∃ x ∈ l, isLastReport n x = true := by
  induction h with
  | start => simp [Phase.isOver]
  | @skip l ph x _ hx ih =>
    have hlast : isLastReport n x = false := by
      cases x with
      | popped event activeTimer =>
        simp only [Effect.concerns, isLastReport] at hx ⊢
        cases hkind : event.kind with
        | orderReport r => simpa [EventKind.moves, hkind] using hx
        | _ => rfl
      | _ => rfl
    simp [ih, hlast]
  | @step l ph ph' x _ hx ih =>
    cases hx <;> simp_all [isLastReport, Phase.isOver, EventKind.moves]

theorem orderId_of_accepted (h : Life n l ph) {o : Order} (ho : ph.accepted = some o) :
    o.orderId = n :=
  (h.accepted_iff.1 ho).2

theorem terminal_of_closing {o : Order} {dt ts : ℤ} {s : OrderState} {r : OrderReport}
    (h : Life n l (.closing o dt s ts r)) : s.isTerminal = true := by
  generalize hph : Phase.closing o dt s ts r = ph at h
  induction h with
  | start => cases hph
  | skip _ _ ih => exact ih hph
  | step _ hx _ =>
    subst hph
    cases hx with
    | fillWhole fillable id status => rfl
    | cancelled id status => rfl
    | marketWhole market id status terminal => rcases terminal with rfl | rfl <;> rfl
    | marketRest market id status => rfl

/-! ## Events on their way -/

/-- A move that schedules an event finds none on its way; one that pops an event leaves
none. -/
theorem pending_of_advance {x : Effect} (h : Advance n ph x ph') :
    scheduledIn (EventKind.moves n) [x] ++ ph.pending n =
      poppedIn (EventKind.moves n) [x] ++ ph'.pending n := by
  cases h with
  | marketWhole market id status terminal =>
    rcases terminal with rfl | rfl <;>
      simp [scheduledIn, poppedIn, EventKind.moves, Phase.pending, OrderState.isTerminal,
        id, status]
  | _ => simp_all [scheduledIn, poppedIn, EventKind.moves, Phase.pending, OrderState.isTerminal]

theorem isAbout_of_moves {kind : EventKind} (h : kind.moves n = true) : kind.isAbout n = true := by
  cases kind <;> simp_all [EventKind.moves, EventKind.isAbout]

/-- Effects of other orders neither schedule nor pop an event of the order. -/
theorem moves_eq_nil {x : Effect} (h : x.concerns n = false) :
    scheduledIn (EventKind.moves n) [x] = [] ∧ poppedIn (EventKind.moves n) [x] = [] := by
  cases x with
  | scheduled ts kind =>
    have hno : ¬kind.moves n = true := fun hm => by simp [Effect.concerns, isAbout_of_moves hm] at h
    exact ⟨by rw [scheduledIn_singleton, if_neg hno], rfl⟩
  | popped event activeTimer =>
    have hno : ¬event.kind.moves n = true := by simpa [Effect.concerns] using h
    exact ⟨rfl, by rw [poppedIn_singleton, if_neg hno]⟩
  | _ => exact ⟨rfl, rfl⟩

/-- Every event of the order that is scheduled is popped or on its way. -/
theorem pending (h : Life n l ph) : (scheduledIn (EventKind.moves n) l).Perm
    (poppedIn (EventKind.moves n) l ++ ph.pending n) := by
  induction h with
  | start => simp [Phase.pending]
  | @skip l ph x _ hx ih =>
    rw [scheduledIn_append, poppedIn_append, (moves_eq_nil hx).1, (moves_eq_nil hx).2,
      List.append_nil, List.append_nil]
    exact ih
  | @step l ph ph' x _ hx ih =>
    rw [scheduledIn_append, poppedIn_append]
    calc
      _ = _ := rfl
      List.Perm _ (poppedIn (EventKind.moves n) l ++ (ph.pending n ++
          scheduledIn (EventKind.moves n) [x])) := by
        rw [← List.append_assoc]
        exact ih.append_right _
      List.Perm _ (poppedIn (EventKind.moves n) l ++ (scheduledIn (EventKind.moves n) [x] ++
          ph.pending n)) := List.perm_append_comm.append_left _
      _ = _ := by rw [pending_of_advance hx, List.append_assoc]

/-! ## What the reports say -/

/-- The statuses scheduled so far by the reports of the order agree with its phase. -/
theorem statuses (h : Life n l ph) :
    ph.Reports ((l.filterMap (reportAbout n)).map OrderReport.status) := by
  induction h with
  | start => rfl
  | @skip l ph x _ hx ih =>
    have hnone : reportAbout n x = none := by
      cases x with
      | scheduled ts kind =>
        cases kind with
        | orderReport r => simpa [reportAbout, Effect.concerns, EventKind.isAbout] using hx
        | _ => rfl
      | _ => rfl
    rw [List.filterMap_append, List.filterMap_cons_none hnone, List.filterMap_nil, List.append_nil]
    exact ih
  | @step l ph ph' x _ hx ih =>
    rw [List.filterMap_append, List.map_append]
    generalize (l.filterMap (reportAbout n)).map OrderReport.status = w at ih ⊢
    cases hx with
    | refuse id status => simp_all [Phase.Reports, reportAbout]
    | rest limit id status =>
      refine ⟨limit, 0, ?_⟩
      simp_all [Phase.Reports, reportAbout]
    | fillPart fillable id status =>
      obtain ⟨limit, k, rfl⟩ := ih
      refine ⟨limit, k + 1, ?_⟩
      simp [reportAbout, id, status, List.replicate_succ']
    | fillWhole fillable id status =>
      obtain ⟨limit, k, rfl⟩ := ih
      change IsComplete _ _
      rw [limit]
      simpa [reportAbout, id, status] using IsComplete.limitOrder k (.inl rfl)
    | cancelled id status =>
      obtain ⟨limit, k, rfl⟩ := ih
      change IsComplete _ _
      rw [limit]
      simpa [reportAbout, id, status] using IsComplete.limitOrder k (.inr rfl)
    | marketWhole market id status terminal =>
      obtain rfl : w = [] := ih
      change IsComplete _ _
      rw [market]
      rcases terminal with rfl | rfl
      · simpa [reportAbout, id, status] using IsComplete.filled
      · simpa [reportAbout, id, status] using IsComplete.rejected
    | marketPart market id status => simp_all [Phase.Reports, reportAbout]
    | marketRest market id status =>
      obtain ⟨-, rfl⟩ := ih
      change IsComplete _ _
      rw [market]
      simpa [reportAbout, id, status] using IsComplete.cancelled
    | _ =>
      -- no report is scheduled
      change Phase.Reports _ (w ++ [])
      rw [List.append_nil]
      exact ih

end Life

end Backtester
