import Mathlib

/-!
# Folds as runs

`List.foldl step` runs a machine over a list of inputs. `Along step P s l` says that every input was
in the relation `P` to the state it found. What a step preserves, a fold preserves
(`Along.invariant`); two folds whose steps keep their states related stay related (`Along.related`);
and a quantity whose steps are off by at most some allowance is off by at most the sum of the
allowances (`Along.drift_le`).
-/

namespace Fold

variable {σ τ ι κ α : Type*} {step : σ → ι → σ} {step' : τ → κ → τ} {P : σ → ι → Prop}
  {s : σ} {t : τ} {l : List ι}

/-- Every input of `l` is in the relation `P` to the state it finds. -/
def Along (step : σ → ι → σ) (P : σ → ι → Prop) : σ → List ι → Prop
  | _, [] => True
  | s, i :: l => P s i ∧ Along step P (step s i) l

instance Along.decidable [∀ s i, Decidable (P s i)] :
    ∀ (s : σ) (l : List ι), Decidable (Along step P s l)
  | _, [] => inferInstanceAs (Decidable True)
  | s, i :: l => haveI := decidable (step s i) l; inferInstanceAs (Decidable (P s i ∧ _))

theorem along_append {l' : List ι} :
    Along step P s (l ++ l') ↔ Along step P s l ∧ Along step P (l.foldl step s) l' := by
  induction l generalizing s with
  | nil => exact ⟨fun h => ⟨trivial, h⟩, And.right⟩
  | cons i l ih => exact (and_congr_right fun _ => ih).trans and_assoc.symm

theorem Along.mono {P' : σ → ι → Prop} (hPP' : ∀ s i, P s i → P' s i) :
    ∀ {l : List ι} {s : σ}, Along step P s l → Along step P' s l
  | [], _, _ => trivial
  | i :: _, s, h => ⟨hPP' s i h.1, mono hPP' h.2⟩

theorem Along.of_forall {Q : ι → Prop} (h : ∀ i ∈ l, Q i) : Along step (fun _ i => Q i) s l := by
  induction l generalizing s with
  | nil => trivial
  | cons i l ih => exact ⟨h i List.mem_cons_self, ih fun j hj => h j (List.mem_cons_of_mem i hj)⟩

theorem Along.and_forall {Q : ι → Prop} (h : Along step P s l) (hQ : ∀ i ∈ l, Q i) :
    Along step (fun s i => Q i ∧ P s i) s l := by
  induction l generalizing s with
  | nil => trivial
  | cons i l ih =>
    exact ⟨⟨hQ i List.mem_cons_self, h.1⟩, ih h.2 fun j hj => hQ j (List.mem_cons_of_mem i hj)⟩

theorem Along.invariant {I : σ → Prop} (hstep : ∀ s i, I s → P s i → I (step s i)) (hs : I s)
    (h : Along step P s l) : I (l.foldl step s) := by
  induction l generalizing s with
  | nil => exact hs
  | cons i l ih => exact ih (hstep s i hs h.1) h.2

/-- Two folds, over some inputs and over their images, whose steps keep a relation. -/
theorem Along.related {R : σ → τ → Prop} {P' : τ → κ → Prop} {g : ι → κ}
    (hstep : ∀ s t i, R s t → P s i → P' t (g i) → R (step s i) (step' t (g i)))
    (hst : R s t) (h : Along step P s l) (h' : Along step' P' t (l.map g)) :
    R (l.foldl step s) ((l.map g).foldl step' t) := by
  induction l generalizing s t with
  | nil => exact hst
  | cons i l ih => exact ih (hstep s t i hst h.1 h'.1) h.2 h'.2

/-- The sum of a quantity that each input has at the state it finds. -/
def total [AddMonoid α] (step : σ → ι → σ) (f : σ → ι → α) : σ → List ι → α
  | _, [] => 0
  | s, i :: l => f s i + total step f (step s i) l

theorem total_map [AddMonoid α] (f : ι → α) (s : σ) (l : List ι) :
    total step (fun _ i => f i) s l = (l.map f).sum := by
  induction l generalizing s with
  | nil => rfl
  | cons i l ih => rw [total, ih, List.map_cons, List.sum_cons]

theorem total_add [AddCommMonoid α] (f g : σ → ι → α) (s : σ) (l : List ι) :
    total step (fun s i => f s i + g s i) s l = total step f s l + total step g s l := by
  induction l generalizing s with
  | nil => exact (add_zero 0).symm
  | cons i l ih => rw [total, ih, total, total, add_add_add_comm]

theorem total_mul_left [NonUnitalNonAssocSemiring α] (a : α) (f : σ → ι → α) (s : σ) (l : List ι) :
    total step (fun s i => a * f s i) s l = a * total step f s l := by
  induction l generalizing s with
  | nil => exact (mul_zero a).symm
  | cons i l ih => rw [total, ih, total, mul_add]

/-- Of two totals, one below the other at each input, the sums agree exactly when all parts do. -/
theorem total_eq_iff [AddCommMonoid α] [PartialOrder α] [IsOrderedCancelAddMonoid α]
    {f g : σ → ι → α} (hle : ∀ s i, f s i ≤ g s i) :
    total step f s l = total step g s l ↔ Along step (fun s i => f s i = g s i) s l := by
  have htotal : ∀ (s : σ) (l : List ι), total step f s l ≤ total step g s l := by
    intro s l
    induction l generalizing s with
    | nil => exact le_rfl
    | cons i l ih => exact add_le_add (hle s i) (ih (step s i))
  induction l generalizing s with
  | nil => exact iff_of_true rfl trivial
  | cons i l ih =>
    exact (add_eq_add_iff_eq_and_eq (hle s i) (htotal (step s i) l)).trans
      (and_congr_right fun _ => ih)

/-- When every step changes a quantity by its gain up to some allowance, a fold changes it by the
sum of the gains up to the sum of the allowances. -/
theorem Along.drift_le [AddCommGroup α] [LinearOrder α] [IsOrderedAddMonoid α] {f : σ → α}
    {gain allowance : σ → ι → α}
    (hstep : ∀ s i, P s i → |f (step s i) - f s - gain s i| ≤ allowance s i)
    (h : Along step P s l) :
    |f (l.foldl step s) - f s - total step gain s l| ≤ total step allowance s l := by
  induction l generalizing s with
  | nil => simp [total]
  | cons i l ih =>
    calc |f (l.foldl step (step s i)) - f s - (gain s i + total step gain (step s i) l)|
        = |(f (step s i) - f s - gain s i) +
            (f (l.foldl step (step s i)) - f (step s i) - total step gain (step s i) l)| := by
          congr 1
          abel
      _ ≤ |f (step s i) - f s - gain s i| +
            |f (l.foldl step (step s i)) - f (step s i) - total step gain (step s i) l| :=
          abs_add_le _ _
      _ ≤ allowance s i + total step allowance (step s i) l := add_le_add (hstep s i h.1) (ih h.2)

end Fold
