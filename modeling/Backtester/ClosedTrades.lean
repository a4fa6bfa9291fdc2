import Backtester.FillArithmetic

/-!
# Closed trades

Win rate, average PnL and average holding period are taken per closed trade. The statistics
recognise a closed trade by its PnL, so that a fill that reduces, closes or flips a position is
missed when its PnL is truncated to zero (`IncrementalStats.closedTrades_eq_iff`).
-/

open MachineInt Fold

namespace Backtester

namespace Holding

/-- What `deltaQty` gains at `price`, before the division that leaves its PnL. -/
def gain (h : Holding) (deltaQty price : ℤ) : ℤ :=
  (if 0 < h.qty then subI64 price h.avgPrice else subI64 h.avgPrice price) *
    min (absI64 h.qty) (absI64 deltaQty)

theorem clamp_eq_zero_iff {w : ℕ} (hw : 1 < w) {x : ℤ} : clamp w x = 0 ↔ x = 0 := by
  have : (1 : ℤ) < 2 ^ (w - 1) := one_lt_pow₀ (by norm_num) (by omega)
  unfold clamp
  omega

theorem tdiv_eq_zero_iff {x y : ℤ} (hy : 0 < y) : x.tdiv y = 0 ↔ |x| < y := by
  have hremainder := abs_sub_mul_tdiv_lt x hy
  constructor
  · intro hzero
    rwa [hzero, mul_zero, sub_zero] at hremainder
  · intro hlt
    obtain hx | hx := le_total 0 x
    · rw [abs_of_nonneg hx] at hlt
      exact Int.tdiv_eq_zero_of_lt hx hlt
    · rw [abs_of_nonpos hx] at hlt
      rw [← neg_neg x, Int.neg_tdiv, Int.tdiv_eq_zero_of_lt (neg_nonneg.2 hx) hlt, neg_zero]

/-- The PnL is zero when the gain is less than one tick of PnL. -/
theorem closingPnl_eq_zero_iff (h : Holding) (deltaQty price : ℤ) :
    closingPnl h.qty h.avgPrice deltaQty price = 0 ↔ |h.gain deltaQty price| < scale := by
  have hclamp : |clamp 128 (h.gain deltaQty price)| < scale ↔ |h.gain deltaQty price| < scale := by
    unfold clamp scale
    rw [abs_lt, abs_lt]
    omega
  have hpnl : closingPnl h.qty h.avgPrice deltaQty price =
      clamp 64 ((clamp 128 (h.gain deltaQty price)).tdiv scale) := rfl
  rw [hpnl, clamp_eq_zero_iff (by norm_num), tdiv_eq_zero_iff (by decide), hclamp]

end Holding

/-! ## Counting -/

namespace Holdings

variable (H : Holdings) (f : TradeFill)

/-- The position of the symbol of the fill. -/
def holdingFor : Holding := (H f.symbolId).getD {}

/-- The fill reduces, closes or flips a position. -/
def Closes : Prop := ¬IsIdle f ∧ ¬(H.holdingFor f).Adds (f.side.signed f.qty)

instance : Decidable (H.Closes f) := inferInstanceAs (Decidable (_ ∧ _))

/-- The fill gains or loses at least one tick of PnL. -/
def Realises : Prop := scale ≤ |(H.holdingFor f).gain (f.side.signed f.qty) f.price|

instance : Decidable (H.Realises f) := inferInstanceAs (Decidable (_ ≤ _))

/-- How many of the fills reduce, close or flip a position. -/
def closings (l : List TradeFill) : ℕ := total fill (fun H f => if H.Closes f then 1 else 0) H l

/-- How many of them realise a PnL. -/
def realisedClosings (l : List TradeFill) : ℕ :=
  total fill (fun H f => if H.Closes f ∧ H.Realises f then 1 else 0) H l

end Holdings

namespace IncrementalStats

/-- The statistics count the closings that realise a PnL. -/
theorem closedTrades_onFill (stats : IncrementalStats) (f : TradeFill) :
    (stats.onFill f).closedTrades = stats.closedTrades +
      if (Holdings.of stats.posState).Closes f ∧ (Holdings.of stats.posState).Realises f then 1
      else 0 := by
  have hholding : (Holdings.of stats.posState).holdingFor f =
      PosState.holding (stats.posState[f.symbolId]?.getD {}) := Holdings.getD_of _ _
  have hrealises : (Holdings.of stats.posState).Realises f ↔
      closingPnl (stats.posState[f.symbolId]?.getD {}).qty
        (stats.posState[f.symbolId]?.getD {}).avgPrice (f.side.signed f.qty) f.price ≠ 0 := by
    rw [Holdings.Realises, hholding, ← not_lt]
    exact not_congr (Holding.closingPnl_eq_zero_iff _ _ _).symm
  by_cases hidle : Holdings.IsIdle f
  · rw [if_neg fun h => h.1.1 hidle]
    have hstays : f.qty ≤ 0 ∨ f.side.signed f.qty = 0 := hidle
    simp only [onFill, if_pos hstays]
    rfl
  · have hmoves : ¬(f.qty ≤ 0 ∨ f.side.signed f.qty = 0) := hidle
    by_cases hadds : ((Holdings.of stats.posState).holdingFor f).Adds (f.side.signed f.qty)
    · rw [if_neg fun h => h.1.2 hadds]
      rw [hholding] at hadds
      have hadds' : (stats.posState[f.symbolId]?.getD {}).qty = 0 ∨
          (stats.posState[f.symbolId]?.getD {}).qty.sign = (f.side.signed f.qty).sign := hadds
      simp only [onFill, if_neg hmoves, if_pos hadds']
      rfl
    · have hcloses : (Holdings.of stats.posState).Closes f := ⟨hidle, hadds⟩
      rw [hholding] at hadds
      have hadds' : ¬((stats.posState[f.symbolId]?.getD {}).qty = 0 ∨
          (stats.posState[f.symbolId]?.getD {}).qty.sign = (f.side.signed f.qty).sign) := hadds
      simp only [onFill, if_neg hmoves, if_neg hadds', hcloses, true_and, hrealises]
      split_ifs <;> rfl

theorem closedTrades_foldl (stats : IncrementalStats) (l : List TradeFill) :
    (l.foldl onFill stats).closedTrades =
      stats.closedTrades + (Holdings.of stats.posState).realisedClosings l := by
  induction l generalizing stats with
  | nil => rfl
  | cons f l ih =>
    rw [List.foldl_cons, ih, closedTrades_onFill, Holdings.of_onFill, add_assoc]
    rfl

/-- Every closing is counted exactly when every closing realises a PnL. -/
theorem closedTrades_eq_iff (l : List TradeFill) :
    (l.foldl onFill {}).closedTrades = Holdings.none.closings l ↔
      Along Holdings.fill (fun H f => H.Closes f → H.Realises f) Holdings.none l := by
  have hnone : Holdings.of ({} : IncrementalStats).posState = Holdings.none := by
    funext s
    simp [Holdings.of, Holdings.none]
  have hzero : ({} : IncrementalStats).closedTrades = 0 := rfl
  rw [closedTrades_foldl, hnone, hzero, zero_add]
  unfold Holdings.realisedClosings Holdings.closings
  refine (total_eq_iff fun H f => ?_).trans ⟨Along.mono fun H f h => ?_, Along.mono fun H f h => ?_⟩
  · split_ifs with hboth hcloses
    · exact le_rfl
    · exact absurd hboth.1 hcloses
    · exact zero_le_one
    · exact le_rfl
  · intro hcloses
    by_contra hmissed
    simp [hcloses, hmissed] at h
  · by_cases hcloses : H.Closes f
    · rw [if_pos ⟨hcloses, h hcloses⟩, if_pos hcloses]
    · rw [if_neg fun hboth => hcloses hboth.1, if_neg hcloses]

/-- A position opened and closed at one price is no closed trade. -/
theorem breakEven_uncounted :
    let fills : List TradeFill :=
      [⟨1, 1, 10000000000, 100000000, 0, 1, .buy, false⟩,
        ⟨2, 2, 10000000000, 100000000, 0, 1, .sell, false⟩]
    (fills.foldl onFill {}).closedTrades = 0 ∧ Holdings.none.closings fills = 1 := by
  decide +kernel

end IncrementalStats

end Backtester
