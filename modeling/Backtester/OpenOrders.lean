import Backtester.Isolation

/-!
# Open orders

Between two events the phase of an order decides all that is shown of it : whether it was accepted,
whether its last report is made or processed, its entry in the registry and its place in a table. An
order whose events are all popped rests or is over, so with an empty queue the registry and the
tables agree (`InPhase.open_of_idle`). The cap is kept by the guard, which sees the size of the
registry before each order.
-/

open Run StableSort Std

set_option linter.unusedSectionVars false

namespace Backtester

/-! ## Final reports -/

namespace Life

variable {n : ℕ} {l : List Effect} {ph : Phase}

/-- A terminal report of order `n` is made. -/
def isFinalReport (n : ℕ) : Effect → Bool
  | .scheduled _ (.orderReport r) => r.orderId = n && r.status.isTerminal
  | _ => false

/-- The phases after the terminal report of the order is made. -/
def isFinal : Phase → Bool
  | .refused _ _ _ | .dismissed _ | .closing _ _ _ _ _ | .closed _ _ => true
  | _ => false

theorem isFinal_iff (h : Life n l ph) : isFinal ph = true ↔ ∃ x ∈ l, isFinalReport n x = true := by
  induction h with
  | start => simp [isFinal]
  | @skip l ph x _ hx ih =>
    have hnone : isFinalReport n x = false := by
      cases x with
      | scheduled ts kind =>
        cases kind with
        | orderReport r =>
          have hne : r.orderId ≠ n := by simpa [Effect.concerns, EventKind.isAbout] using hx
          simp [isFinalReport, hne]
        | _ => rfl
      | _ => rfl
    simp [ih, hnone]
  | @step l ph ph' x _ hx ih =>
    cases hx with
    | marketWhole market id status terminal =>
      rcases terminal with rfl | rfl <;> simp_all [isFinalReport, isFinal, OrderState.isTerminal]
    | _ => simp_all [isFinalReport, isFinal, OrderState.isTerminal]

/-- A resting order is in no terminal state. -/
theorem not_terminal_of_resting {o : Order} {dt : ℤ} {s : OrderState}
    (h : Life n l (.resting o dt s)) : s.isTerminal = false := by
  generalize hph : Phase.resting o dt s = ph at h
  induction h generalizing s with
  | start => cases hph
  | skip _ _ ih => exact ih hph
  | step _ hx ih =>
    subst hph
    cases hx with
    | fill id => exact ih rfl
    | _ => rfl

end Life

/-- Order `n` of symbol `s` was accepted, and no terminal report about it was made. -/
def OpenAt (l : List Effect) (n s : ℕ) : Prop :=
  acceptedSymbol l n = some s ∧ ∀ x ∈ l, Life.isFinalReport n x = false

/-! ## The cap -/

namespace Ledger

variable {Q : Type} [QueueModel Q]

/-- The registry is within the limit of the guard. -/
def Capped (L : Ledger Q) : Prop :=
  0 < L.riskGuard.maxOpenOrders → L.orderSymbolById.size ≤ L.riskGuard.maxOpenOrders

/-- An order that passes finds room in the registry. -/
theorem size_lt_of_verdict {L : Ledger Q} {order : Order} (h : L.verdict order = none)
    (hpos : 0 < L.riskGuard.maxOpenOrders) :
    L.orderSymbolById.size < L.riskGuard.maxOpenOrders := by
  by_contra hfull
  have hfull := Nat.not_lt.1 hfull
  unfold verdict RiskGuard.checkOrder at h
  split_ifs at h with hkilled hcap hposition
  exact hcap ⟨hpos, hfull⟩

theorem Capped.post {L : Ledger Q} (h : L.Capped) (entry : Entry) : (L.post entry).Capped := by
  obtain ⟨killed, runningPnl, hguard⟩ := L.limits_post entry
  unfold Capped
  rw [hguard]
  intro hpos
  have hsize := h hpos
  cases entry with
  | unregister orderId => exact ExtTreeMap.size_erase_le.trans hsize
  | submit ts order =>
    simp only [Ledger.post]
    split
    · next hverdict =>
      exact ExtTreeMap.size_insert_le.trans (size_lt_of_verdict hverdict hpos)
    · exact hsize
  | book s ts fills =>
    obtain ⟨account, tradeLog, riskGuard, heq⟩ := L.book_frame ts fills
    rw [Ledger.post, heq]
    exact hsize
  | fund event =>
    simp only [Ledger.post]
    split
    · exact hsize
    · exact hsize
  | _ => exact hsize

end Ledger

/-! ## Runs -/

namespace Engine

variable {T U Q S L R : Type} [QueueModel Q] {e e₀ : Engine T U Q S L R} {n s : ℕ} {ph : Phase}

namespace InPhase

theorem acceptedSymbol_eq (h : e.InPhase n ph) :
    acceptedSymbol e.trace n = ph.accepted.map (·.symbolId) := by
  rw [acceptedSymbol, h.life.accepted_eq]
  cases ph.accepted <;> rfl

/-- The registry holds an accepted order until its last report is processed. -/
theorem registry_iff (h : e.InPhase n ph) : e.core.orderSymbolById[n]? = some s ↔
    acceptedSymbol e.trace n = some s ∧ ∀ x ∈ e.trace, Life.isLastReport n x = false := by
  have hover : ph.isOver = false ↔ ∀ x ∈ e.trace, Life.isLastReport n x = false := by
    rw [← Bool.not_eq_true, h.life.isOver_iff]
    simp
  rw [h.stage.registry, h.acceptedSymbol_eq, ← hover]
  cases ph <;> simp [Phase.symbol, Phase.accepted, Phase.isOver]

theorem openAt_iff (h : e.InPhase n ph) :
    OpenAt e.trace n s ↔ ph.symbol = some s ∧ Life.isFinal ph = false := by
  have hfinal : Life.isFinal ph = false ↔ ∀ x ∈ e.trace, Life.isFinalReport n x = false := by
    rw [← Bool.not_eq_true, h.life.isFinal_iff]
    simp
  rw [OpenAt, h.acceptedSymbol_eq, ← hfinal]
  cases ph <;> simp [Phase.symbol, Phase.accepted, Life.isFinal]

theorem registry_of_open (h : e.InPhase n ph) (hopen : OpenAt e.trace n s) :
    e.core.orderSymbolById[n]? = some s :=
  h.stage.registry.trans (h.openAt_iff.1 hopen).1

/-- Nothing of an order is on its way when the queue is empty. -/
theorem pending_of_idle (htracked : e.Tracked) (h : e.InPhase n ph) (idle : e.queue.pop = none) :
    ph.pending n = [] := by
  have hwaiting : (e.queue.waiting (EventKind.moves n)).Perm (ph.pending n) :=
    (List.perm_append_left_iff _).1 ((htracked.conserved _).trans h.life.pending)
  have hnone : e.queue.waiting (EventKind.moves n) = [] := by
    rw [EventQueue.waiting, EventQueue.pop_eq_none.1 idle]
    rfl
  rw [hnone] at hwaiting
  exact List.nil_perm.1 hwaiting

/-- With an empty queue the orders in the registry and the orders in the tables are the open ones,
and none of them is in a terminal state. -/
theorem open_of_idle (htracked : e.Tracked) (h : e.InPhase n ph) (idle : e.queue.pop = none) :
    (e.core.orderSymbolById[n]? = some s ↔ OpenAt e.trace n s) ∧
      ((∃ order state, (e.core.exchange s).face n = some (order, state)) ↔ OpenAt e.trace n s) ∧
      ∀ order state, (e.core.exchange s).face n = some (order, state) →
        state.isTerminal = false := by
  have hpending := h.pending_of_idle htracked idle
  have hface : (e.core.exchange s).face n = ph.faces s := congrFun h.stage.faces s
  have hsettled := h.settled
  rw [h.openAt_iff, hface, h.stage.registry]
  -- an order without an event on its way rests, or is in no table
  cases ph with
  | resting o dt state =>
    refine ⟨by simp [Life.isFinal], ?_, ?_⟩
    · simp only [Phase.faces, Phase.face, Life.isFinal, and_true]
      split_ifs with hs
      · simp [hs]
      · simp [hs]
    · intro order state' heq
      have hstate : state' = state := by
        unfold Phase.faces at heq
        split_ifs at heq
        exact (congrArg Prod.snd (Option.some.inj heq)).symm
      exact hstate ▸ h.life.not_terminal_of_resting
  | travelling o | awaiting o dt | closing o dt s' ts r | refused o ts r => cases hpending
  | unborn | dismissed o | closed o dt => simp [Phase.symbol, Phase.faces]
  | _ => cases hsettled

end InPhase

variable [TickSource T] [L3Source U] [Strategy S] [LatencyModel L R] [SeedableRng R]
  {st : Status (EngineError (Strategy.Error S))} {allowed : ℤ → EventKind → Prop}

/-- The registry stays within the cap. -/
theorem capped (built : Built allowed e₀) (h : Reaches turn (External allowed) e₀ e st)
    (hpos : 0 < e.core.config.maxOpenOrders) :
    e.core.orderSymbolById.size ≤ e.core.config.maxOpenOrders := by
  obtain ⟨-, hcapped⟩ := ledger_invariant (I := Ledger.Capped) built h
    (fun _ _ _ => Nat.zero_le _) fun _ entry _ _ h => h.post entry
  have hlimit := (limited built h).1
  rw [← hlimit] at hpos ⊢
  exact hcapped hpos

/-- The registry holds the accepted orders whose terminal report is not yet processed, under their
symbols. Neither the registry nor the open orders exceed the cap. And when the queue is empty the
registry and the tables of the exchanges hold exactly the open orders. -/
theorem registry_exact (built : Built allowed e₀) (h : Reaches turn (External allowed) e₀ e st)
    (outside : ∀ ts kind, allowed ts kind → kind.isOrderEvent = false) :
    (∀ n s : ℕ, e.core.orderSymbolById[n]? = some s ↔
      acceptedSymbol e.trace n = some s ∧ ∀ x ∈ e.trace, Life.isLastReport n x = false) ∧
    (0 < e.core.config.maxOpenOrders →
      e.core.orderSymbolById.size ≤ e.core.config.maxOpenOrders ∧
        ∀ ids : Finset ℕ, (∀ n ∈ ids, ∃ s, OpenAt e.trace n s) →
          ids.card ≤ e.core.config.maxOpenOrders) ∧
    (e.queue.pop = none → ∀ n s : ℕ,
      (e.core.orderSymbolById[n]? = some s ↔ OpenAt e.trace n s) ∧
      ((∃ order state, (e.core.exchange s).face n = some (order, state)) ↔ OpenAt e.trace n s) ∧
      ∀ order state, (e.core.exchange s).face n = some (order, state) →
        state.isTerminal = false) := by
  have htracked := tracked built h outside
  refine ⟨fun n s => ?_, fun hpos => ⟨capped built h hpos, fun ids hids => ?_⟩, fun idle n s => ?_⟩
  · obtain ⟨ph, hin⟩ := htracked.inPhase n
    exact hin.registry_iff
  · have hsubset : ids ⊆ e.core.orderSymbolById.keys.toFinset := by
      intro n hn
      obtain ⟨s, hopen⟩ := hids n hn
      obtain ⟨ph, hin⟩ := htracked.inPhase n
      rw [List.mem_toFinset, ExtTreeMap.mem_keys]
      exact ExtTreeMap.mem_iff_isSome_getElem?.2 (by rw [hin.registry_of_open hopen]; rfl)
    calc ids.card ≤ e.core.orderSymbolById.keys.toFinset.card := Finset.card_le_card hsubset
      _ ≤ e.core.orderSymbolById.keys.length := List.toFinset_card_le _
      _ = e.core.orderSymbolById.size := ExtTreeMap.length_keys
      _ ≤ e.core.config.maxOpenOrders := capped built h hpos
  · obtain ⟨ph, hin⟩ := htracked.inPhase n
    exact hin.open_of_idle htracked idle

/-- Two orders against a cap of one : the first rests, the second is refused. -/
theorem registry_exact_sample :
    let order : Order := ⟨0, 0, 0, 0, 100, 2, 1, .buy, .limit⟩
    let tick : Tick := ⟨1000, 0, 0, 101, 1, 1, .buy, 0⟩
    let e := (runFor turn 20 (sample { maxOpenOrders := 1 } 10
      [[.submitOrder order, .submitOrder order]] [[tick]])).1
    e.queue.pop = none ∧ OpenAt e.trace 1 1 ∧ ¬OpenAt e.trace 2 1 ∧
      e.core.orderSymbolById.size ≤ 1 := by
  intro order tick e
  let e₀ : Sample := sample { maxOpenOrders := 1 } 10
    [[.submitOrder order, .submitOrder order]] [[tick]]
  have built : Built (fun _ kind => kind.isOrderEvent = false) e₀ :=
    .external (.new _ _ _ _ _) (.addTickSource [tick])
  have h : Reaches turn (External fun _ kind => kind.isOrderEvent = false) e₀ e
      (runFor turn 20 e₀).2 := reaches_runFor e₀ 20
  have idle : e.queue.pop = none := by
    refine EventQueue.pop_eq_none.2 (List.isEmpty_iff.1 ?_)
    decide +kernel
  have hregistry : e.core.orderSymbolById[1]? = some 1 ∧ e.core.orderSymbolById[2]? = none := by
    decide +kernel
  have hcap : e.core.config.maxOpenOrders = 1 := by decide +kernel
  obtain ⟨-, hsize, hidle⟩ := registry_exact built h fun _ _ h => h
  refine ⟨idle, (hidle idle 1 1).1.1 hregistry.1, fun hopen => ?_, ?_⟩
  · have hsome := (hidle idle 2 1).1.2 hopen
    rw [hregistry.2] at hsome
    cases hsome
  · rw [hcap] at hsize
    exact (hsize Nat.one_pos).1

end Engine

end Backtester
