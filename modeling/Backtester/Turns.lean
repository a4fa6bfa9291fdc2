import Backtester.Posting

/-!
# What a turn pops

A turn pops at most one event, and then the handler of that event works on the core
(`Engine.pops_cases`). After the handler only the strategy speaks, which reaches neither the
exchanges nor the depth marks (`Ledger.Commanded.frame`).
-/

open Run Std

set_option linter.unusedSectionVars false

namespace Backtester

variable {Q : Type} [QueueModel Q]

/-- The strategy does not reach the exchanges or the marks. -/
theorem Ledger.Commanded.frame {L L' : Ledger Q} {new : List Effect} (h : Commanded L new L') :
    L'.exchanges = L.exchanges ∧ L'.l2DepthSymbols = L.l2DepthSymbols ∧
      L'.l3DepthSymbols = L.l3DepthSymbols := by
  obtain ⟨entries, hentries, rfl⟩ := h.entries
  refine List.foldlRecOn entries Ledger.post (motive := fun L' => L'.exchanges = L.exchanges ∧
    L'.l2DepthSymbols = L.l2DepthSymbols ∧ L'.l3DepthSymbols = L.l3DepthSymbols) ⟨rfl, rfl, rfl⟩ ?_
  intro L' h entry hmem
  obtain ⟨ts, order, rfl⟩ := hentries entry hmem
  exact h

namespace Core

variable {S L R : Type} [Strategy S] {c c' : Core Q S L R}

theorem exchanges_speaks (h : Speaks c c') : c'.exchanges = c.exchanges := by
  obtain ⟨new, -, hcommanded⟩ := h
  exact hcommanded.frame.1

theorem exchanges_pushAfter (c : Core Q S L R) (ts delay : ℤ) (kind : EventKind) :
    (c.pushAfter ts delay kind).exchanges = c.exchanges := by
  rw [pushAfter_eq]

theorem exchanges_pushAfterSat (c : Core Q S L R) (ts delay : ℤ) (kind : EventKind) :
    (c.pushAfterSat ts delay kind).exchanges = c.exchanges := by
  rw [pushAfterSat_eq]

end Core

namespace Engine

variable {T U S L R : Type} [Strategy S] [LatencyModel L R] {e : Engine T U Q S L R} {ts : ℤ}
  {kind : EventKind}

/-- After the handler of an event only the strategy speaks, and only the strategy fails. -/
theorem dispatch_cases (e : Engine T U Q S L R) (event : Event) :
    let r := (e.core.cleared.atTime event.tsSim).handle event.kind
    (∃ new, Ledger.Commanded r.1.ledger new (e.dispatch event).1.core.ledger) ∧
      ((∃ err, r.2 = .fail err ∧ (e.dispatch event).2 = some err) ∨
        (∀ err, r.2 ≠ .fail err) ∧
          ∀ err, (e.dispatch event).2 = some err → ∃ err', err = .strategy err') := by
  intro r
  have hledger : (e.handleEvent event).1.core.ledger = r.1.ledger := ledger_absorb _ _
  have hflow : (e.handleEvent event).2 = r.2 := rfl
  unfold dispatch
  generalize e.handleEvent event = handled at hledger hflow
  obtain ⟨e', err | _ | wakeup⟩ := handled
  · exact ⟨⟨[], hledger ▸ .start⟩, .inl ⟨err, hflow.symm, rfl⟩⟩
  · exact ⟨⟨[], hledger ▸ .start⟩, .inr ⟨by simp [← hflow], by simp⟩⟩
  · obtain ⟨new, -, hcommanded⟩ := commanded_deferredFlush e' wakeup
    exact ⟨⟨new, hledger ▸ hcommanded⟩, .inr ⟨by simp [← hflow],
      fun err => strategy_of_deferredFlush⟩⟩

variable [TickSource T] [L3Source U]

/-- The next turn pops an event. -/
def Pops (e : Engine T U Q S L R) (ts : ℤ) (kind : EventKind) : Prop :=
  ∃ new, e.turn.1.trace = e.trace ++ new ∧ poppedIn EventKind.any new = [(ts, kind)]

/-- A turn takes in records, and then dispatches the event it pops, or flushes, or does nothing. -/
theorem turn_pops (e : Engine T U Q S L R) : ∃ e₁ : Engine T U Q S L R,
    e₁ = (e.ingest (ε := Strategy.Error S)).1 ∧
    ((∀ ts kind, ¬e.Pops ts kind) ∧
        poppedIn EventKind.any e.turn.1.trace = poppedIn EventKind.any e.trace ∧
        (e.turn.1 = e₁ ∨ e.turn.1 = e₁.flush.1) ∨
      ∃ event queue, e₁.queue.pop = some (event, queue) ∧
        (∀ ts kind, e.Pops ts kind ↔ (ts, kind) = (event.tsSim, event.kind)) ∧
        poppedIn EventKind.any e.turn.1.trace =
          poppedIn EventKind.any e.trace ++ [(event.tsSim, event.kind)] ∧
        e.turn = (((e₁.withQueue queue).dispatch event).1,
          statusOf ((e₁.withQueue queue).dispatch event).2)) := by
  have hpops : ∀ popped new, e.turn.1.trace = e.trace ++ new →
      poppedIn EventKind.any new = popped → ∀ ts kind, e.Pops ts kind ↔ popped = [(ts, kind)] := by
    rintro popped new htrace rfl ts kind
    constructor
    · rintro ⟨new', htrace', hpopped⟩
      rwa [List.append_cancel_left (htrace.symm.trans htrace')]
    · exact fun h => ⟨new, htrace, h⟩
  obtain ⟨e₁, pass, heq, hturn⟩ := turn_cases e
  obtain ⟨hcore, intake, htrace, hintake⟩ := e.ingest_frame (ε := Strategy.Error S)
  have hpopped := poppedIn_of_isIntake hintake EventKind.any
  have he₁ : e₁ = (e.ingest (ε := Strategy.Error S)).1 := by rw [heq]
  rw [heq] at hcore htrace
  have hquiet : ∀ new', e.turn.1.trace = e₁.trace ++ new' → poppedIn EventKind.any new' = [] →
      (∀ ts kind, ¬e.Pops ts kind) ∧
        poppedIn EventKind.any e.turn.1.trace = poppedIn EventKind.any e.trace := by
    intro new' htrace' hpopped'
    rw [htrace, List.append_assoc] at htrace'
    have hnone : poppedIn EventKind.any (intake ++ new') = [] := by
      rw [poppedIn_append, hpopped, hpopped', List.append_nil]
    refine ⟨fun ts kind hpop => ?_, by rw [htrace', poppedIn_append, hnone, List.append_nil]⟩
    cases (hpops [] _ htrace' hnone ts kind).1 hpop
  have hidle : e.turn.1 = e₁ → (∀ ts kind, ¬e.Pops ts kind) ∧
      poppedIn EventKind.any e.turn.1.trace = poppedIn EventKind.any e.trace ∧
        (e.turn.1 = e₁ ∨ e.turn.1 = e₁.flush.1) := by
    intro hturn
    obtain ⟨hnone, hsame⟩ := hquiet [] (by simp [hturn]) rfl
    exact ⟨hnone, hsame, .inl hturn⟩
  rcases hturn with ⟨-, hturn, -⟩ | ⟨-, event, queue, hpop, hturn⟩ | ⟨-, -, hturn⟩ |
    ⟨-, -, hturn, -⟩
  · exact ⟨e₁, he₁, .inl (hidle hturn)⟩
  · obtain ⟨new', hworks, -⟩ := dispatch_spec (e₁.withQueue queue) event
    have htrace' : e.turn.1.trace =
        e.trace ++ (intake ++ .popped event e₁.core.activeBatchTimerId :: new') := by
      rw [hturn]
      refine hworks.trace.trans ?_
      change e₁.trace ++ [.popped event e₁.core.activeBatchTimerId] ++ new' = _
      rw [htrace, List.append_assoc, List.append_assoc, List.singleton_append]
    have hpopped' : poppedIn EventKind.any
        (intake ++ .popped event e₁.core.activeBatchTimerId :: new') =
          [(event.tsSim, event.kind)] := by
      rw [poppedIn_append, hpopped, ← List.singleton_append, poppedIn_append,
        hworks.poppedIn_eq_nil]
      rfl
    refine ⟨e₁, he₁, .inr ⟨event, queue, hpop, fun ts kind => ?_, ?_, hturn⟩⟩
    · rw [hpops _ _ htrace' hpopped']
      simp [eq_comm]
    · rw [htrace', poppedIn_append, hpopped']
  · obtain ⟨new', hworks, -⟩ := flush_spec e₁
    obtain ⟨hnone, hsame⟩ := hquiet new' (by rw [hturn, hworks.trace]) (hworks.poppedIn_eq_nil _)
    exact ⟨e₁, he₁, .inl ⟨hnone, hsame, .inr (congrArg Prod.fst hturn)⟩⟩
  · exact ⟨e₁, he₁, .inl (hidle (congrArg Prod.fst hturn))⟩

/-- In a turn that pops no event the strategy speaks at most. -/
theorem pops_cases (e : Engine T U Q S L R) :
    ((∀ ts kind, ¬e.Pops ts kind) ∧
      poppedIn EventKind.any e.turn.1.trace = poppedIn EventKind.any e.trace ∧
      ∃ new, Ledger.Commanded e.core.ledger new e.turn.1.core.ledger) ∨
    ∃ e₁ : Engine T U Q S L R, ∃ event : Event, e₁.core = e.core ∧ (∀ ts kind,
      e.Pops ts kind ↔ (ts, kind) = (event.tsSim, event.kind)) ∧
      poppedIn EventKind.any e.turn.1.trace =
        poppedIn EventKind.any e.trace ++ [(event.tsSim, event.kind)] ∧
      e.turn = ((e₁.dispatch event).1, statusOf (e₁.dispatch event).2) := by
  have hcore := (e.ingest_frame (ε := Strategy.Error S)).1
  obtain ⟨e₁, rfl, ⟨hnone, hsame, hturn⟩ | ⟨event, queue, -, hpops, hpopped, hturn⟩⟩ := turn_pops e
  · refine .inl ⟨hnone, hsame, ?_⟩
    rcases hturn with hturn | hturn
    · exact ⟨[], by rw [hturn, hcore]; exact .start⟩
    · obtain ⟨new, -, hcommanded⟩ := commanded_flush (e.ingest (ε := Strategy.Error S)).1
      exact ⟨new, by rw [hturn, ← hcore]; exact hcommanded⟩
  · exact .inr ⟨Engine.withQueue _ queue, event, hcore, hpops, hpopped, hturn⟩

/-- What a turn pops can be read off the traces. -/
theorem pops_iff : e.Pops ts kind ↔
    poppedIn EventKind.any e.turn.1.trace = poppedIn EventKind.any e.trace ++ [(ts, kind)] := by
  rcases pops_cases e with ⟨hnone, hpopped, -⟩ | ⟨e₁, event, -, hpops, hpopped, -⟩
  · rw [hpopped]
    simp [hnone]
  · rw [hpops, hpopped, List.append_cancel_left_eq]
    simp [eq_comm]

end Engine

end Backtester
