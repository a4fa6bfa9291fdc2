import Backtester.FillArithmetic

/-!
# Fees and PnL at the ends of the range

`compute_fee` and the closing branch of `Account::on_fill` widen to `i128` and clamp the result, but
three operations run before that is of help : the difference of the prices and the size of the
position are still taken on `i64`, and the product of price, quantity and fee rate can be longer
than `i128`. Nothing else can go wrong (`Account.sound_iff`). In `Account.unsound` the difference is
too long.
-/

open MachineInt

namespace Backtester

/-! ## What the results should be -/

/-- No operation of `compute_fee` overflows. -/
def FeeSafe (price qty feeBps : ℤ) : Prop :=
  0 < feeBps → InRange 64 |qty| ∧ InRange 128 (price * |qty|) ∧ InRange 128 (price * |qty| * feeBps)

/-- The fee without machine arithmetic, clamped. -/
def exactFee (price qty feeBps : ℤ) : ℤ :=
  max 0 (min (price * qty * feeBps / (scale * 10000)) i64Max)

namespace Holding

/-- No operation of the closing branch overflows. The saturating ones cannot. -/
structure ClosingSafe (h : Holding) (deltaQty price : ℤ) : Prop where
  abs_qty : InRange 64 |h.qty|
  abs_delta : InRange 64 |deltaQty|
  perUnit : InRange 64 (h.perUnit price)

/-- The PnL without machine arithmetic, clamped. -/
def exactPnl (h : Holding) (deltaQty price : ℤ) : ℤ :=
  clamp 64 ((h.perUnit price * h.closed deltaQty).tdiv scale)

end Holding

/-- The call is one that the engine can make : a positive quantity, at any price. -/
structure FillCall.Valid (c : FillCall) : Prop where
  qty_pos : 0 < c.qty
  qty_le : c.qty ≤ i64Max
  price : InRange 64 c.price

instance (c : FillCall) : Decidable c.Valid :=
  decidable_of_iff (0 < c.qty ∧ c.qty ≤ i64Max ∧ InRange 64 c.price)
    ⟨fun ⟨hpos, hle, hprice⟩ => ⟨hpos, hle, hprice⟩, fun h => ⟨h.qty_pos, h.qty_le, h.price⟩⟩

namespace Account

/-- The fill reduces, closes or flips the position. -/
def Closes (account : Account) (c : FillCall) : Prop :=
  c.deltaQty ≠ 0 ∧ ¬(account.holdingFor c).Adds c.deltaQty

instance (account : Account) (c : FillCall) : Decidable (account.Closes c) :=
  inferInstanceAs (Decidable (_ ∧ _))

/-- Fee and PnL of the fill are computed without overflow, and exact. -/
structure Sound (account : Account) (c : FillCall) (feeBps : ℤ) : Prop where
  feeSafe : FeeSafe c.price c.qty feeBps
  fee : computeFee c.price c.qty feeBps = exactFee c.price c.qty feeBps
  closingSafe : account.Closes c → (account.holdingFor c).ClosingSafe c.deltaQty c.price
  pnl : account.Closes c →
    account.realised c = (account.holdingFor c).exactPnl c.deltaQty c.price

/-- Price, quantity and fee rate multiply within `i128`, and a fill that closes a position finds one
that can be negated at a price whose distance from the average fits `i64`. -/
structure Moderate (account : Account) (c : FillCall) (feeBps : ℤ) : Prop where
  fee : InRange 128 (c.price * c.qty * feeBps)
  qty : account.Closes c → (account.holdingFor c).qty ≠ -2 ^ 63
  perUnit : account.Closes c → InRange 64 ((account.holdingFor c).perUnit c.price)

end Account

/-! ## Fees -/

theorem feeSafe_iff {c : FillCall} (hc : c.Valid) {feeBps : ℤ} (hfee : 0 ≤ feeBps) :
    FeeSafe c.price c.qty feeBps ↔ InRange 128 (c.price * c.qty * feeBps) := by
  have habs : |c.qty| = c.qty := abs_of_pos hc.qty_pos
  have hqty : InRange 64 c.qty := by
    have hpos := hc.qty_pos
    have hle := hc.qty_le
    unfold i64Max at hle
    exact ⟨by omega, by omega⟩
  unfold FeeSafe
  rw [habs]
  constructor
  · intro hsafe
    obtain hzero | hpos := hfee.eq_or_lt
    · rw [← hzero, mul_zero]
      decide
    · exact (hsafe hpos).2.2
  · exact fun hproduct _ => ⟨hqty, hc.price.mul (by norm_num) (by norm_num) hqty, hproduct⟩

/-- Above zero, truncation is the floor. -/
theorem max_tdiv_eq {x y m : ℤ} (hy : 0 < y) :
    max 0 (min (x.tdiv y) m) = max 0 (min (x / y) m) := by
  obtain hx | hx := le_or_gt 0 x
  · rw [Int.tdiv_eq_ediv_of_nonneg hx]
  · have htdiv : x.tdiv y ≤ 0 := by
      have hneg := Int.tdiv_nonneg (neg_nonneg.2 hx.le) hy.le
      rw [Int.neg_tdiv] at hneg
      omega
    have hediv : x / y < 0 := Int.ediv_neg_of_neg_of_pos hx hy
    omega

/-- Without overflow, the fee is the floor of the quotient, and never negative. -/
theorem computeFee_eq {price qty feeBps : ℤ} (hqty : 0 < qty) (hfee : 0 ≤ feeBps)
    (hsafe : FeeSafe price qty feeBps) :
    computeFee price qty feeBps = exactFee price qty feeBps := by
  unfold computeFee exactFee
  split_ifs with hzero
  · obtain rfl := le_antisymm hzero hfee
    simp [i64Max]
  · obtain ⟨habs, hgross, hproduct⟩ := hsafe (not_le.1 hzero)
    have hsize : absI64 qty = qty := by
      rw [Holding.absI64_of_inRange habs, abs_of_pos hqty]
    rw [abs_of_pos hqty] at hgross hproduct
    have hgross' : mulI128 price qty = price * qty := wrap_eq_self (by norm_num) hgross
    have hproduct' : mulI128 (price * qty) feeBps = price * qty * feeBps :=
      wrap_eq_self (by norm_num) hproduct
    dsimp only
    rw [hsize, hgross', hproduct']
    exact max_tdiv_eq (by decide)

/-! ## Positions -/

namespace Holding

/-- Quantity and average price fit `i64`. -/
def Bounded (h : Holding) : Prop := InRange 64 h.qty ∧ InRange 64 h.avgPrice

instance (h : Holding) : Decidable h.Bounded := inferInstanceAs (Decidable (_ ∧ _))

theorem Bounded.fill {h : Holding} {deltaQty price : ℤ} (hbounded : h.Bounded)
    (hprice : InRange 64 price) : (h.fill deltaQty price).Bounded := by
  have hzero : InRange 64 0 := by decide
  have haverage : InRange 64 (averagePrice h.qty h.avgPrice deltaQty price) := by
    unfold averagePrice
    dsimp only
    split_ifs
    · exact clamp_inRange 64 _
    · exact hzero
  unfold Holding.fill
  dsimp only
  split_ifs
  · exact ⟨clamp_inRange 64 _, haverage⟩
  · exact ⟨hzero, hzero⟩
  · exact ⟨clamp_inRange 64 _, hbounded.2⟩
  · exact ⟨clamp_inRange 64 _, hprice⟩

/-- A position can be negated unless it is the least one. -/
theorem abs_qty_inRange_iff {h : Holding} (hbounded : h.Bounded) :
    InRange 64 |h.qty| ↔ h.qty ≠ -2 ^ 63 := by
  obtain ⟨⟨hl, hu⟩, -⟩ := hbounded
  obtain hq | hq := le_or_gt 0 h.qty
  · rw [abs_of_nonneg hq]
    exact ⟨fun _ => by omega, fun _ => ⟨by omega, hu⟩⟩
  · rw [abs_of_neg hq]
    exact ⟨fun hrange => by have := hrange.2; omega, fun hne => ⟨by omega, by omega⟩⟩

end Holding

namespace Account

/-- Whatever fills have made of an account, its positions fit `i64`. -/
theorem bounded_take {account : Account} {c : FillCall} (hc : InRange 64 c.price)
    (h : ∀ s, (account.positionAt s).holding.Bounded) (s : ℕ) :
    ((account.take c).positionAt s).holding.Bounded := by
  unfold take
  rw [onFill_eq]
  dsimp only
  split_ifs
  · exact h s
  · rw [positionAt_insert]
    split_ifs
    · exact (h _).fill hc
    · exact h s

theorem bounded_of_fills {l : List FillCall} (hl : ∀ c ∈ l, c.Valid) :
    ∀ s, ((l.foldl take {}).positionAt s).holding.Bounded :=
  Fold.Along.invariant (I := fun a => ∀ s, (positionAt a s).holding.Bounded)
    (fun _ _ h hc => bounded_take hc.price h)
    (fun s => by rw [positionAt_empty]; decide)
    (Fold.Along.of_forall hl)

theorem abs_deltaQty_inRange {c : FillCall} (hc : c.Valid) : InRange 64 |c.deltaQty| := by
  have hpos := hc.qty_pos
  have hle := hc.qty_le
  unfold i64Max at hle
  unfold FillCall.deltaQty
  cases c.order.side with
  | buy => rw [Side.signed, abs_of_pos hpos]; exact ⟨by omega, by omega⟩
  | sell => rw [Side.signed, abs_neg, abs_of_pos hpos]; exact ⟨by omega, by omega⟩
  | none => rw [Side.signed, abs_zero]; decide

/-- Fee and PnL are exact exactly at moderate inputs. -/
theorem sound_iff {l : List FillCall} (hl : ∀ c ∈ l, c.Valid) {c : FillCall} (hc : c.Valid)
    {feeBps : ℤ} (hfee : 0 ≤ feeBps) :
    (l.foldl take {}).Sound c feeBps ↔ (l.foldl take {}).Moderate c feeBps := by
  have hbounded : ((l.foldl take {}).holdingFor c).Bounded := bounded_of_fills hl c.order.symbolId
  have hdelta := abs_deltaQty_inRange hc
  constructor
  · intro hsound
    exact ⟨(feeSafe_iff hc hfee).1 hsound.feeSafe,
      fun hcloses => (Holding.abs_qty_inRange_iff hbounded).1 (hsound.closingSafe hcloses).abs_qty,
      fun hcloses => (hsound.closingSafe hcloses).perUnit⟩
  · intro hmoderate
    have hfeeSafe := (feeSafe_iff hc hfee).2 hmoderate.fee
    have hsafe : (l.foldl take {}).Closes c →
        ((l.foldl take {}).holdingFor c).ClosingSafe c.deltaQty c.price := fun hcloses =>
      ⟨(Holding.abs_qty_inRange_iff hbounded).2 (hmoderate.qty hcloses), hdelta,
        hmoderate.perUnit hcloses⟩
    refine ⟨hfeeSafe, computeFee_eq hc.qty_pos hfee hfeeSafe, hsafe, fun hcloses => ?_⟩
    obtain ⟨hmoves, hopposed⟩ := hcloses
    have hclosing := hsafe ⟨hmoves, hopposed⟩
    rw [(onFill_of_moves hdelta hmoves).2.2]
    exact Holding.realised_eq_clamp hclosing.abs_qty hdelta hclosing.perUnit hopposed

theorem sound_sample :
    let call (side : Side) (qty price : ℤ) : FillCall :=
      ⟨⟨1, 0, 0, 0, price, qty, 1, side, .limit⟩, qty, price⟩
    ([call .buy 300000000 10000000000].foldl take {}).Sound (call .sell 500000000 10100000000)
      5 := by
  intro call
  exact (sound_iff (by decide) (by decide) (by decide)).2
    ⟨by decide +kernel, fun _ => by decide +kernel, fun _ => by decide +kernel⟩

/-- A unit bought at `-1` and sold at the greatest price is booked as a loss. The distance of the
two prices does not fit `i64`. -/
theorem unsound :
    let call (side : Side) (qty price : ℤ) : FillCall :=
      ⟨⟨1, 0, 0, 0, price, qty, 1, side, .limit⟩, qty, price⟩
    let bought := call .buy 100000000 (-100000000)
    let sold := call .sell 100000000 i64Max
    let account := [bought].foldl take {}
    (bought.Valid ∧ sold.Valid) ∧
      account.realised sold = -9223372036754775809 ∧
      (account.holdingFor sold).exactPnl sold.deltaQty sold.price = i64Max ∧
      ¬account.Sound sold 0 := by
  intro call bought sold account
  refine ⟨⟨by decide, by decide⟩, by decide +kernel, by decide +kernel, fun hsound => ?_⟩
  exact absurd (hsound.pnl (by decide +kernel)) (by decide +kernel)

/-- A product of more than 127 bits makes the fee zero. -/
example : computeFee i64Max i64Max 16 = 0 ∧ exactFee i64Max i64Max 16 = i64Max := by decide

end Account

end Backtester
