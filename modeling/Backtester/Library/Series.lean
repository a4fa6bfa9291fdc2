import Mathlib

/-!
# Sums over a series

A series may be summed in pieces : `SplitTree.reduce` folds the pieces and joins what they give, and
with an associative operation and its identity every way to split gives what one fold gives
(`SplitTree.reduce_eq_foldl`).

The squared deviations from the mean are summed in two passes (`sqDiff`), from the sum of the
squares (`sqDiff_mean`), or in one pass by Welford's recurrence (`mean_snoc`, `sqDiff_snoc`).
-/

namespace Series

/-! ## Splitting -/

/-- A way to split a series into pieces that are folded on their own. -/
inductive SplitTree (α : Type*) where
  | leaf (items : List α)
  | node (left right : SplitTree α)

namespace SplitTree

variable {α β : Type*}

/-- The leaves from left to right. -/
def items : SplitTree α → List α
  | leaf items => items
  | node left right => left.items ++ right.items

/-- Every piece is folded from the identity, and what two parts give is joined. -/
def reduce (identity : β) (op : β → β → β) (f : α → β) : SplitTree α → β
  | leaf items => (items.map f).foldl op identity
  | node left right => op (left.reduce identity op f) (right.reduce identity op f)

theorem op_foldl {identity : β} {op : β → β → β} (hassoc : ∀ a b c, op (op a b) c = op a (op b c))
    (hright : ∀ a, op a identity = a) (hleft : ∀ a, op identity a = a) (a : β) (l : List β) :
    op a (l.foldl op identity) = l.foldl op a := by
  induction l generalizing a with
  | nil => exact hright a
  | cons b l ih =>
    rw [List.foldl_cons, List.foldl_cons, hleft, ← ih b, ← hassoc, ih]

theorem reduce_eq_foldl {identity : β} {op : β → β → β}
    (hassoc : ∀ a b c, op (op a b) c = op a (op b c)) (hright : ∀ a, op a identity = a)
    (hleft : ∀ a, op identity a = a) (f : α → β) (t : SplitTree α) :
    t.reduce identity op f = (t.items.map f).foldl op identity := by
  induction t with
  | leaf items => rfl
  | node left right ihl ihr =>
    rw [reduce, ihl, ihr, items, List.map_append, List.foldl_append, op_foldl hassoc hright hleft]

end SplitTree

/-! ## Deviations from the mean -/

section Deviations

variable {K : Type*} [Field K]

/-- The mean of a list. -/
def mean (l : List K) : K := l.sum / l.length

/-- The sum of the squared differences from `m`. -/
def sqDiff (m : K) (l : List K) : K := (l.map fun x => (x - m) * (x - m)).sum

/-- The sum of the squares. -/
def sumSq (l : List K) : K := (l.map fun x => x * x).sum

theorem sqDiff_eq (m : K) (l : List K) :
    sqDiff m l = sumSq l - 2 * m * l.sum + l.length * (m * m) := by
  induction l with
  | nil => simp [sqDiff, sumSq]
  | cons x l ih =>
    simp only [sqDiff, sumSq, List.map_cons, List.sum_cons, List.length_cons] at ih ⊢
    rw [ih]
    push_cast
    ring

variable [CharZero K]

theorem length_mul_mean (l : List K) : l.length * mean l = l.sum := by
  rcases eq_or_ne l [] with rfl | hl
  · simp
  · exact mul_div_cancel₀ _ (Nat.cast_ne_zero.mpr (List.length_pos_of_ne_nil hl).ne')

theorem sqDiff_mean (l : List K) : sqDiff (mean l) l = sumSq l - l.length * mean l * mean l := by
  have h := length_mul_mean l
  rw [sqDiff_eq]
  linear_combination 2 * mean l * h

theorem mean_snoc (l : List K) (x : K) :
    mean (l ++ [x]) = mean l + (x - mean l) / (l.length + 1 : ℕ) := by
  have h := length_mul_mean l
  have hn : (l.length + 1 : K) ≠ 0 := mod_cast Nat.succ_ne_zero l.length
  rw [mean, List.sum_append, List.sum_singleton, List.length_append, List.length_singleton]
  push_cast
  field_simp
  linear_combination -h

/-- Welford's recurrence. -/
theorem sqDiff_snoc (l : List K) (x : K) : sqDiff (mean (l ++ [x])) (l ++ [x]) =
    sqDiff (mean l) l + (x - mean l) * (x - mean (l ++ [x])) := by
  have h := length_mul_mean l
  have h' := length_mul_mean (l ++ [x])
  have hsq : sumSq (l ++ [x]) = sumSq l + x * x := by simp [sumSq]
  rw [List.sum_append, List.sum_singleton, ← h, List.length_append, List.length_singleton] at h'
  push_cast at h'
  rw [sqDiff_mean, sqDiff_mean, hsq, List.length_append, List.length_singleton]
  push_cast
  linear_combination (-mean (l ++ [x]) - mean l) * h'

end Deviations

end Series
