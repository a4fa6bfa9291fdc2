import Backtester.FillArithmetic

/-!
# Realised PnL and cash

A position is carried at average cost, so that what it is worth at that price, the PnL it has
realised and the cash its fills have moved stay in balance. A fill that adds rounds the average
price, by less than one tick per unit of the new position. A fill that closes rounds the PnL, by
less than one tick. These errors add up and nothing else is lost
(`Account.realised_conserves_cash`).
-/

open MachineInt Fold

namespace Backtester

namespace Holding

variable {h : Holding} {deltaQty price : ℤ}

/-- The position at its average price. -/
def bookValue (h : Holding) : ℤ := h.qty * h.avgPrice

/-- By how much rounding may move a fill of the position. -/
def rounding (h : Holding) (deltaQty price : ℤ) : ℤ :=
  if h.Adds deltaQty then |(h.fill deltaQty price).qty| else scale

/-- A position and what is added to it have one sign. -/
theorem qty_eq_of_adds (hadds : h.Adds deltaQty) : h.qty = deltaQty.sign * |h.qty| := by
  obtain hzero | hsign := hadds
  · rw [hzero, abs_zero, mul_zero]
  · rw [← hsign, Int.sign_mul_abs]

theorem abs_sign_of_ne {x : ℤ} (hx : x ≠ 0) : |x.sign| = 1 := by
  rw [Int.abs_eq_natAbs, Int.natAbs_sign_of_ne_zero hx, Nat.cast_one]

theorem abs_qty_of_adds (hadds : h.Adds deltaQty) (hdelta : deltaQty ≠ 0) :
    |h.qty + deltaQty| = |h.qty| + |deltaQty| := by
  calc |h.qty + deltaQty|
      = |deltaQty.sign * (|h.qty| + |deltaQty|)| := by
        rw [mul_add, ← qty_eq_of_adds hadds, Int.sign_mul_abs]
    _ = |h.qty| + |deltaQty| := by
        rw [abs_mul, abs_sign_of_ne hdelta, one_mul,
          abs_of_nonneg (add_nonneg (abs_nonneg _) (abs_nonneg _))]

/-- Adding is exact up to the remainder of the average price. -/
theorem bookValue_of_adds (hfits : h.Fits deltaQty price) (hadds : h.Adds deltaQty)
    (hdelta : deltaQty ≠ 0) :
    |(h.fill deltaQty price).bookValue - h.bookValue - deltaQty * price| ≤
      |(h.fill deltaQty price).qty| := by
  rw [fill_of_adds hfits hadds]
  dsimp only [bookValue]
  have hsize : 0 < |h.qty| + |deltaQty| :=
    add_pos_of_nonneg_of_pos (abs_nonneg _) (abs_pos.2 hdelta)
  have hremainder := abs_sub_mul_tdiv_lt (h.cost deltaQty price) hsize
  generalize (h.cost deltaQty price).tdiv (|h.qty| + |deltaQty|) = average at hremainder ⊢
  have hsigned : (h.qty + deltaQty) * average - h.qty * h.avgPrice - deltaQty * price =
      -deltaQty.sign * (h.cost deltaQty price - (|h.qty| + |deltaQty|) * average) := by
    have hq := qty_eq_of_adds hadds
    have hd := Int.sign_mul_abs deltaQty
    unfold cost
    linear_combination (average - h.avgPrice) * hq - (average - price) * hd
  rw [hsigned, abs_mul, abs_neg, abs_sign_of_ne hdelta, one_mul, abs_qty_of_adds hadds hdelta]
  exact hremainder.le

theorem perUnit_mul_abs_qty : h.perUnit price * |h.qty| = (price - h.avgPrice) * h.qty := by
  unfold perUnit
  split_ifs with hq
  · rw [abs_of_pos hq]
  · rw [abs_of_nonpos (not_lt.1 hq)]
    ring

theorem opposed_of_closes (hcloses : ¬h.Adds deltaQty) (hdelta : deltaQty ≠ 0) :
    0 < h.qty ∧ deltaQty < 0 ∨ h.qty < 0 ∧ 0 < deltaQty := by
  have hsides := mt adds_iff.2 hcloses
  omega

theorem perUnit_mul_abs_delta (hcloses : ¬h.Adds deltaQty) (hdelta : deltaQty ≠ 0) :
    h.perUnit price * |deltaQty| = -((price - h.avgPrice) * deltaQty) := by
  unfold perUnit
  obtain ⟨hq, hd⟩ | ⟨hq, hd⟩ := opposed_of_closes hcloses hdelta
  · rw [if_pos hq, abs_of_neg hd]
    ring
  · rw [if_neg hq.not_gt, abs_of_pos hd]
    ring

/-- The position keeps its side exactly when the fill is smaller. -/
theorem sign_add_eq_iff (hcloses : ¬h.Adds deltaQty) (hdelta : deltaQty ≠ 0) :
    (h.qty + deltaQty).sign = h.qty.sign ↔ |deltaQty| < |h.qty| := by
  obtain ⟨hq, hd⟩ | ⟨hq, hd⟩ := opposed_of_closes hcloses hdelta
  · rw [Int.sign_eq_one_of_pos hq, Int.sign_eq_one_iff_pos, abs_of_pos hq, abs_of_neg hd]
    omega
  · rw [Int.sign_eq_neg_one_of_neg hq, Int.sign_eq_neg_one_iff_neg, abs_of_neg hq, abs_of_pos hd]
    omega

/-- Closing is exact before the PnL is rounded. -/
theorem bookValue_of_closes (hfits : h.Fits deltaQty price) (hcloses : ¬h.Adds deltaQty)
    (hdelta : deltaQty ≠ 0) :
    (h.fill deltaQty price).bookValue =
      h.bookValue + h.perUnit price * h.closed deltaQty + deltaQty * price := by
  rw [fill_of_closes hfits hcloses, closed]
  split_ifs with hflat hsame
  · have hsize : |h.qty| = |deltaQty| := abs_eq_abs.2 (Or.inr (eq_neg_of_add_eq_zero_left hflat))
    rw [min_eq_left hsize.le, perUnit_mul_abs_qty]
    dsimp only [bookValue]
    linear_combination -price * hflat
  · rw [min_eq_right ((sign_add_eq_iff hcloses hdelta).1 hsame).le,
      perUnit_mul_abs_delta hcloses hdelta]
    dsimp only [bookValue]
    ring
  · rw [min_eq_left (not_lt.1 (mt (sign_add_eq_iff hcloses hdelta).2 hsame)), perUnit_mul_abs_qty]
    dsimp only [bookValue]
    ring

/-- One fill keeps book value, realised PnL and cash in balance up to rounding. -/
theorem bookValue_fill (hfits : h.Fits deltaQty price) (hdelta : deltaQty ≠ 0) :
    |(h.fill deltaQty price).bookValue - h.bookValue -
        (scale * h.realised deltaQty price + deltaQty * price)| ≤ h.rounding deltaQty price := by
  by_cases hadds : h.Adds deltaQty
  · rw [realised_of_adds hadds, mul_zero, zero_add, rounding, if_pos hadds]
    exact bookValue_of_adds hfits hadds hdelta
  · have hscale : (0 : ℤ) < scale := by decide
    have hremainder := abs_sub_mul_tdiv_lt (h.perUnit price * h.closed deltaQty) hscale
    rw [bookValue_of_closes hfits hadds hdelta, realised_of_closes hfits hadds, rounding,
      if_neg hadds]
    refine le_trans (le_of_eq ?_) hremainder.le
    congr 1
    ring

end Holding

/-! ## Sequences of fills -/

/-- The cash that the fill moves : received by a sell, paid by a buy. -/
def FillCall.cash (c : FillCall) : ℤ :=
  match c.order.side with
  | .buy => -(c.price * c.qty)
  | .sell => c.price * c.qty
  | .none => 0

theorem FillCall.cash_eq (c : FillCall) : c.cash = -(c.deltaQty * c.price) := by
  unfold cash deltaQty
  cases c.order.side <;> simp only [Side.signed] <;> ring

namespace Account

variable {account : Account} {c : FillCall}

/-- By how much rounding may move a fill : the new position when the fill opens or adds to it,
`scale` when it reduces, closes or flips it. -/
def rounding (account : Account) (c : FillCall) : ℤ :=
  if c.deltaQty = 0 then 0
  else if (account.holdingFor c).Adds c.deltaQty then
    |(account.take c).positionQty c.order.symbolId|
  else scale

/-- The position of a symbol at its average price. -/
def bookValue (account : Account) (s : ℕ) : ℤ := (account.positionAt s).holding.bookValue

/-- One fill keeps book value, realised PnL and cash in balance up to rounding. -/
theorem bookValue_take (hfits : account.Fits c) :
    |(account.take c).bookValue c.order.symbolId - account.bookValue c.order.symbolId -
        (scale * account.realised c + -1 * c.cash)| ≤ account.rounding c := by
  by_cases hidle : c.deltaQty = 0
  · obtain ⟨htake, hpnl⟩ := onFill_of_idle account hidle
    rw [htake, hpnl, FillCall.cash_eq, rounding, if_pos hidle, hidle]
    simp
  · obtain ⟨hpositions, -, hpnl⟩ := onFill_of_moves hfits.1 hidle
    have hposition := (hpositions c.order.symbolId).trans (if_pos rfl)
    have hbound := Holding.bookValue_fill (hfits.2 hidle) hidle
    have hrounding : account.rounding c = (account.holdingFor c).rounding c.deltaQty c.price := by
      rw [rounding, if_neg hidle, positionQty_eq, hposition]
      rfl
    rw [hrounding, bookValue, hposition, Position.holding_fill, hpnl, FillCall.cash_eq,
      neg_one_mul, neg_neg]
    exact hbound

/-- Realised PnL conserves cash up to rounding. -/
theorem realised_conserves_cash {s : ℕ} {l : List FillCall} (hone : ∀ c ∈ l, c.order.symbolId = s)
    (hfits : Along take Fits {} l) :
    let account := l.foldl take {}
    |scale * total take realised {} l -
        ((l.map FillCall.cash).sum + account.positionQty s * (account.positionAt s).avgPrice)| ≤
      total take rounding {} l := by
  intro account
  have hstart : bookValue {} s = 0 := by
    rw [bookValue, positionAt_empty]
    rfl
  have hbound : |bookValue (l.foldl take {}) s - bookValue {} s -
      total take (fun a c => scale * a.realised c + -1 * c.cash) {} l| ≤ total take rounding {} l :=
    Along.drift_le (f := fun a => bookValue a s) (fun a c hc => by
      obtain ⟨rfl, hfits⟩ := hc
      exact bookValue_take hfits) (hfits.and_forall hone)
  rw [hstart, sub_zero, total_add, total_mul_left, total_mul_left, total_map,
    abs_sub_comm] at hbound
  rw [positionQty_eq]
  refine le_trans (le_of_eq ?_) hbound
  congr 1
  unfold bookValue Holding.bookValue Position.holding
  ring

/-- Two buys whose average price is rounded, a partial sell, a sell that flips, and a buy back. -/
theorem realised_conserves_cash_sample :
    let call (side : Side) (qty price : ℤ) : FillCall :=
      ⟨⟨1, 0, 0, 0, price, qty, 1, side, .limit⟩, qty, price⟩
    let l := [call .buy 300000001 10000000000, call .buy 200000000 10133333333,
      call .sell 100000000 9900000000, call .sell 700000000 10300000001,
        call .buy 100000000 9000000000]
    let account := l.foldl Account.take {}
    |scale * total take realised {} l -
        ((l.map FillCall.cash).sum + account.positionQty 1 * (account.positionAt 1).avgPrice)| ≤
      total take rounding {} l :=
  realised_conserves_cash (by decide) (by decide +kernel)

end Account

end Backtester
