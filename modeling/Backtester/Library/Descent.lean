import Backtester.Library.Run

/-!
# Machines that halt

A machine halts when a measure descends along a well-founded relation with every turn that leaves it
running (`Run.halts_of_descends`). The measure of a state need not be a function of it.

`Workload` is the measure of a machine that works off a queue : what it may still take in, what it
may still spend, and the ranks of the items that wait. It descends when something is taken in, when
something is spent, and when an item is replaced by any number of items of lower rank
(`Workload.less_of_replace`), which is the multiset order.
-/

namespace Run

variable {σ ε α : Type} {turn : σ → σ × Status ε} {s : σ}

/-- The first turn of a run that goes on. -/
theorem runFor_succ_of_running (h : (turn s).2 = .running) (n : ℕ) :
    runFor turn (n + 1) s = runFor turn n (turn s).1 := by
  induction n with
  | zero => exact Prod.ext rfl h
  | succ n ih => rw [runFor, ih, runFor]

/-- A machine halts when the measure of its states descends. -/
theorem halts_of_descends {r : α → α → Prop} (wf : WellFounded r) {I : σ → α → Prop}
    (step : ∀ s a, I s a → (turn s).2 = .running → ∃ a', I (turn s).1 a' ∧ r a' a) {a : α}
    (start : I s a) : ∃ n, (runFor turn n s).2 ≠ .running := by
  induction a using wf.induction generalizing s with
  | _ a ih =>
    by_cases hrunning : (turn s).2 = .running
    · obtain ⟨a', hI, hr⟩ := step s a start hrunning
      obtain ⟨n, hn⟩ := ih a' hr hI
      refine ⟨n + 1, ?_⟩
      rw [runFor_succ_of_running hrunning]
      exact hn
    · exact ⟨1, hrunning⟩

end Run

/-- What may still be taken in, what may still be spent, and the ranks of what waits. -/
abbrev Workload := ℕ × ℕ × Multiset ℕ

namespace Workload

/-- Less may still be taken in, or as much and less spent, or as much of both and what waits is less
(Dershowitz-Manna). -/
def Less : Workload → Workload → Prop :=
  Prod.Lex (· < ·) (Prod.Lex (· < ·) Multiset.IsDershowitzMannaLT)

theorem wellFounded_less : WellFounded Less := by
  have hwaits : IsWellFounded (Multiset ℕ) Multiset.IsDershowitzMannaLT :=
    ⟨Multiset.wellFounded_isDershowitzMannaLT⟩
  unfold Less
  exact IsWellFounded.wf

variable {records records' budget budget' : ℕ} {rest new old : Multiset ℕ}

theorem less_of_intake (h : records < records') :
    Less (records, budget, new) (records', budget', old) :=
  .left _ _ h

theorem less_of_spend (h : budget < budget') :
    Less (records, budget, new) (records, budget', old) :=
  .right _ (.left _ _ h)

/-- Something is replaced by items of lower rank. -/
theorem less_of_replace (hold : old ≠ 0) (hlower : ∀ y ∈ new, ∃ z ∈ old, y < z) :
    Less (records, budget, rest + new) (records, budget, rest + old) :=
  .right _ (.right _ ⟨rest, new, old, hold, rfl, rfl, hlower⟩)

end Workload
