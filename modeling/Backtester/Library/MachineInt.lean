import Mathlib

/-!
# Signed machine integers as `ℤ`

A signed integer of `w` bits is an element of `ℤ` in `[-2^(w-1), 2^(w-1))`. Plain
operators of a release build keep the low bits (`wrap`), saturating ones stop at the
ends of the range (`clamp`). Both are the identity on values in range
(`wrap_eq_self`, `clamp_eq_self`).
-/

namespace MachineInt

/-- The value fits a signed integer of `w` bits. -/
def InRange (w : ℕ) (x : ℤ) : Prop := -2 ^ (w - 1) ≤ x ∧ x < 2 ^ (w - 1)

instance (w : ℕ) (x : ℤ) : Decidable (InRange w x) := inferInstanceAs (Decidable (_ ∧ _))

/-- The low `w` bits of `x`, read as a signed integer. -/
def wrap (w : ℕ) (x : ℤ) : ℤ := Int.bmod x (2 ^ w)

/-- The signed integer of `w` bits nearest to `x`. -/
def clamp (w : ℕ) (x : ℤ) : ℤ := max (-2 ^ (w - 1)) (min x (2 ^ (w - 1) - 1))

theorem wrap_eq_self {w : ℕ} (hw : 0 < w) {x : ℤ} (h : InRange w x) : wrap w x = x := by
  obtain ⟨v, rfl⟩ : ∃ v, w = v + 1 := ⟨w - 1, by omega⟩
  simp only [InRange, Nat.add_sub_cancel] at h
  have hp : ((2 ^ (v + 1) : ℕ) : ℤ) = 2 * 2 ^ v := by push_cast; ring
  exact Int.bmod_eq_of_le_mul_two (by omega) (by omega)

/-- A summand wraps to zero exactly when it does not change the wrapped sum. -/
theorem wrap_add_eq_iff {w : ℕ} {x y : ℤ} : wrap w x = wrap w (x + y) ↔ wrap w y = 0 := by
  unfold wrap
  rw [eq_comm, Int.bmod_eq_bmod_iff_bmod_sub_eq_zero, add_sub_cancel_left]

theorem clamp_eq_self {w : ℕ} {x : ℤ} (h : InRange w x) : clamp w x = x := by
  unfold clamp
  obtain ⟨hl, hu⟩ := h
  omega

theorem inRange_of_abs {w : ℕ} {x : ℤ} (h : InRange w |x|) : InRange w x := by
  have hl := neg_abs_le x
  have hu := le_abs_self x
  obtain ⟨-, h⟩ := h
  exact ⟨by omega, by omega⟩

/-- A product fits the sum of the widths. -/
theorem InRange.mul {w v : ℕ} (hw : 0 < w) (hv : 0 < v) {x y : ℤ} (hx : InRange w x)
    (hy : InRange v y) : InRange (w + v) (x * y) := by
  have habs : |x * y| ≤ 2 ^ (w - 1) * 2 ^ (v - 1) := by
    rw [abs_mul]
    exact mul_le_mul (abs_le.2 ⟨hx.1, hx.2.le⟩) (abs_le.2 ⟨hy.1, hy.2.le⟩) (abs_nonneg y)
      (by positivity)
  have hlt : (2 : ℤ) ^ (w - 1) * 2 ^ (v - 1) < 2 ^ (w + v - 1) := by
    rw [← pow_add]
    exact pow_lt_pow_right₀ (by norm_num) (by omega)
  obtain ⟨hl, hu⟩ := abs_le.1 habs
  exact ⟨by omega, by omega⟩

theorem clamp_inRange (w : ℕ) (x : ℤ) : InRange w (clamp w x) := by
  have : (0 : ℤ) < 2 ^ (w - 1) := by positivity
  unfold clamp InRange
  omega

/-! ## Truncated division -/

/-- A truncated quotient is off by less than one divisor. -/
theorem abs_sub_mul_tdiv_lt (a : ℤ) {b : ℤ} (hb : 0 < b) : |a - b * a.tdiv b| < b := by
  rw [← Int.tmod_def, abs_lt]
  exact ⟨Int.lt_tmod_of_pos a hb, Int.tmod_lt_of_pos a hb⟩

/-! ## Saturating sums -/

/-- The saturating sum of a list, from the left. -/
def satSum (w : ℕ) (l : List ℤ) : ℤ := l.foldl (fun a x => clamp w (a + x)) 0

@[simp] theorem satSum_nil (w : ℕ) : satSum w [] = 0 := rfl

@[simp] theorem satSum_snoc (w : ℕ) (l : List ℤ) (x : ℤ) :
    satSum w (l ++ [x]) = clamp w (satSum w l + x) := by
  simp [satSum]

theorem satSum_inRange (w : ℕ) (l : List ℤ) : InRange w (satSum w l) := by
  have hpos : (0 : ℤ) < 2 ^ (w - 1) := by positivity
  induction l using List.reverseRecOn with
  | nil => exact ⟨by simp, hpos⟩
  | append_singleton l x _ =>
    rw [satSum_snoc]
    exact clamp_inRange w _

/-- A saturating sum is the sum when no prefix of the list sums to more than fits. -/
theorem satSum_eq_sum {w : ℕ} {l : List ℤ} (h : ∀ pre, pre <+: l → InRange w pre.sum) :
    satSum w l = l.sum := by
  induction l using List.reverseRecOn with
  | nil => rfl
  | append_singleton l x ih =>
    have hl : satSum w l = l.sum := ih fun pre hpre => h pre (hpre.trans (List.prefix_append l [x]))
    have hx : InRange w (l.sum + x) := by simpa using h _ (List.prefix_refl _)
    rw [satSum_snoc, hl, clamp_eq_self hx, List.sum_append, List.sum_singleton]

end MachineInt
