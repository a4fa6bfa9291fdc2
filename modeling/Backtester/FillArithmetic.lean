import Backtester.Holdings
import Backtester.Library.Fold

/-!
# The arithmetic of a fill

A fill of a position at average cost, with and without machine arithmetic. When no operation
saturates or overflows (`Holding.Fits`), the new quantity, the average price and the PnL are the
exact ones (`Holding.fill_of_adds`, `Holding.fill_of_closes`, `Holding.realised_of_closes`). What
`Account.onFill` does to an account is what `Position.fill` does to the position of the order's
symbol (`Account.onFill_eq`).
-/

open MachineInt

namespace Backtester

namespace Holding

variable {h : Holding} {deltaQty price : ℤ}

/-- The fill opens the position or adds to it. Every other fill reduces, closes or flips it. -/
def Adds (h : Holding) (deltaQty : ℤ) : Prop := h.qty = 0 ∨ h.qty.sign = deltaQty.sign

instance (h : Holding) (deltaQty : ℤ) : Decidable (h.Adds deltaQty) :=
  inferInstanceAs (Decidable (_ ∨ _))

theorem adds_iff : h.Adds deltaQty ↔
    h.qty = 0 ∨ h.qty < 0 ∧ deltaQty < 0 ∨ 0 < h.qty ∧ 0 < deltaQty := by
  unfold Adds
  obtain hq | hq | hq := lt_trichotomy h.qty 0
  · rw [Int.sign_eq_neg_one_of_neg hq, eq_comm (a := -1), Int.sign_eq_neg_one_iff_neg]
    omega
  · simp [hq]
  · rw [Int.sign_eq_one_of_pos hq, eq_comm (a := 1), Int.sign_eq_one_iff_pos]
    omega

/-- What the position has cost once `deltaQty` is added at `price`. -/
def cost (h : Holding) (deltaQty price : ℤ) : ℤ := h.avgPrice * |h.qty| + price * |deltaQty|

/-- The gain per unit at `price`. -/
def perUnit (h : Holding) (price : ℤ) : ℤ :=
  if 0 < h.qty then price - h.avgPrice else h.avgPrice - price

/-- How much of the position `deltaQty` closes. -/
def closed (h : Holding) (deltaQty : ℤ) : ℤ := min |h.qty| |deltaQty|

/-- No operation of the fill saturates or overflows. -/
structure Fits (h : Holding) (deltaQty price : ℤ) : Prop where
  abs_qty : InRange 64 |h.qty|
  abs_delta : InRange 64 |deltaQty|
  newQty : InRange 64 (h.qty + deltaQty)
  cost : h.Adds deltaQty → InRange 128 (h.cost deltaQty price)
  average : h.Adds deltaQty → InRange 64 ((h.cost deltaQty price).tdiv (|h.qty| + |deltaQty|))
  perUnit : ¬h.Adds deltaQty → InRange 64 (h.perUnit price)
  gain : ¬h.Adds deltaQty → InRange 128 (h.perUnit price * h.closed deltaQty)
  pnl : ¬h.Adds deltaQty → InRange 64 ((h.perUnit price * h.closed deltaQty).tdiv scale)

instance (h : Holding) (deltaQty price : ℤ) : Decidable (h.Fits deltaQty price) :=
  decidable_of_iff
    ((InRange 64 |h.qty| ∧ InRange 64 |deltaQty| ∧ InRange 64 (h.qty + deltaQty)) ∧
      (h.Adds deltaQty → InRange 128 (h.cost deltaQty price) ∧
        InRange 64 ((h.cost deltaQty price).tdiv (|h.qty| + |deltaQty|))) ∧
      (¬h.Adds deltaQty → InRange 64 (h.perUnit price) ∧
        InRange 128 (h.perUnit price * h.closed deltaQty) ∧
        InRange 64 ((h.perUnit price * h.closed deltaQty).tdiv scale)))
    ⟨fun ⟨⟨hqty, hdelta, hnew⟩, hadds, hcloses⟩ =>
      ⟨hqty, hdelta, hnew, fun h => (hadds h).1, fun h => (hadds h).2, fun h => (hcloses h).1,
        fun h => (hcloses h).2.1, fun h => (hcloses h).2.2⟩,
    fun h => ⟨⟨h.abs_qty, h.abs_delta, h.newQty⟩, fun hadds => ⟨h.cost hadds, h.average hadds⟩,
      fun hcloses => ⟨h.perUnit hcloses, h.gain hcloses, h.pnl hcloses⟩⟩⟩

theorem absI64_of_inRange {x : ℤ} (hx : InRange 64 |x|) : absI64 x = |x| :=
  wrap_eq_self (by norm_num) hx

/-- A fill that adds sets the average price to the truncated quotient of cost and size. -/
theorem fill_of_adds (hfits : h.Fits deltaQty price) (hadds : h.Adds deltaQty) :
    h.fill deltaQty price =
      ⟨h.qty + deltaQty, (h.cost deltaQty price).tdiv (|h.qty| + |deltaQty|)⟩ := by
  have haverage : averagePrice h.qty h.avgPrice deltaQty price =
      (h.cost deltaQty price).tdiv (|h.qty| + |deltaQty|) := by
    simp only [averagePrice, absI64_of_inRange hfits.abs_qty, absI64_of_inRange hfits.abs_delta]
    split_ifs with hsize
    · have hcost : wrap 128 (h.avgPrice * |h.qty| + price * |deltaQty|) = h.cost deltaQty price :=
        wrap_eq_self (by norm_num) (hfits.cost hadds)
      rw [hcost, clampI128ToI64, clamp_eq_self (hfits.average hadds)]
    · have hzero : |h.qty| + |deltaQty| = 0 :=
        le_antisymm (not_lt.1 hsize) (add_nonneg (abs_nonneg _) (abs_nonneg _))
      rw [hzero, Int.tdiv_zero]
  have hnew : satAddI64 h.qty deltaQty = h.qty + deltaQty := clamp_eq_self hfits.newQty
  rw [← haverage, ← hnew]
  exact if_pos hadds

/-- A fill that does not add keeps the average price, unless nothing is left or the rest was opened
at this price. -/
theorem fill_of_closes (hfits : h.Fits deltaQty price) (hcloses : ¬h.Adds deltaQty) :
    h.fill deltaQty price =
      if h.qty + deltaQty = 0 then ⟨0, 0⟩
      else if (h.qty + deltaQty).sign = h.qty.sign then ⟨h.qty + deltaQty, h.avgPrice⟩
      else ⟨h.qty + deltaQty, price⟩ := by
  have hnew : satAddI64 h.qty deltaQty = h.qty + deltaQty := clamp_eq_self hfits.newQty
  rw [← hnew]
  exact if_neg hcloses

theorem realised_of_adds (hadds : h.Adds deltaQty) : h.realised deltaQty price = 0 := if_pos hadds

theorem realised_of_not_adds (hcloses : ¬h.Adds deltaQty) :
    h.realised deltaQty price = closingPnl h.qty h.avgPrice deltaQty price := if_neg hcloses

/-- The PnL is the truncated quotient of the gain, clamped. -/
theorem realised_eq_clamp (hqty : InRange 64 |h.qty|) (hdelta : InRange 64 |deltaQty|)
    (hunit : InRange 64 (h.perUnit price)) (hcloses : ¬h.Adds deltaQty) :
    h.realised deltaQty price = clamp 64 ((h.perUnit price * h.closed deltaQty).tdiv scale) := by
  have hunit' : (if 0 < h.qty then subI64 price h.avgPrice else subI64 h.avgPrice price) =
      h.perUnit price := by
    unfold perUnit at hunit ⊢
    split_ifs at hunit ⊢ <;> exact wrap_eq_self (by norm_num) hunit
  have hclosed : InRange 64 (h.closed deltaQty) := by
    obtain hmin | hmin := min_choice |h.qty| |deltaQty| <;> rw [closed, hmin] <;> assumption
  have hgain : satMulI128 (h.perUnit price) (min |h.qty| |deltaQty|) =
      h.perUnit price * h.closed deltaQty :=
    clamp_eq_self (hunit.mul (by norm_num) (by norm_num) hclosed)
  rw [realised_of_not_adds hcloses, closingPnl]
  simp only [hunit', absI64_of_inRange hqty, absI64_of_inRange hdelta]
  rw [hgain]
  rfl

/-- The PnL is the truncated quotient of the gain. -/
theorem realised_of_closes (hfits : h.Fits deltaQty price) (hcloses : ¬h.Adds deltaQty) :
    h.realised deltaQty price = (h.perUnit price * h.closed deltaQty).tdiv scale := by
  rw [realised_eq_clamp hfits.abs_qty hfits.abs_delta (hfits.perUnit hcloses) hcloses,
    clamp_eq_self (hfits.pnl hcloses)]

end Holding

/-! ## Accounts -/

/-- The position after `deltaQty` at `price`, of an order submitted at `tsSubmit`. -/
def Position.fill (p : Position) (tsSubmit deltaQty price : ℤ) : Position :=
  { p with
    qty := (p.holding.fill deltaQty price).qty
    avgPrice := (p.holding.fill deltaQty price).avgPrice
    lastOpenTs :=
      if p.qty = 0 ∨ ¬p.holding.Adds deltaQty ∧ satAddI64 p.qty deltaQty ≠ 0 ∧
        (satAddI64 p.qty deltaQty).sign ≠ p.qty.sign then tsSubmit
      else p.lastOpenTs }

namespace Position

theorem fill_of_adds {p : Position} {tsSubmit deltaQty price : ℤ}
    (hadds : p.holding.Adds deltaQty) :
    p.fill tsSubmit deltaQty price =
      { p with
        lastOpenTs := if p.qty = 0 then tsSubmit else p.lastOpenTs
        qty := satAddI64 p.qty deltaQty
        avgPrice := averagePrice p.qty p.avgPrice deltaQty price } := by
  have hholding : p.holding.fill deltaQty price =
      ⟨satAddI64 p.qty deltaQty, averagePrice p.qty p.avgPrice deltaQty price⟩ := if_pos hadds
  simp only [fill, hholding, hadds, not_true_eq_false, false_and, or_false]

theorem fill_of_closes {p : Position} {tsSubmit deltaQty price : ℤ}
    (hcloses : ¬p.holding.Adds deltaQty) :
    p.fill tsSubmit deltaQty price =
      if satAddI64 p.qty deltaQty = 0 then { p with qty := 0, avgPrice := 0 }
      else if (satAddI64 p.qty deltaQty).sign = p.qty.sign then
        { p with qty := satAddI64 p.qty deltaQty }
      else
        { p with qty := satAddI64 p.qty deltaQty, avgPrice := price, lastOpenTs := tsSubmit } := by
  have hqty : p.qty ≠ 0 := fun h => hcloses (Or.inl h)
  have hholding : p.holding.fill deltaQty price =
      if satAddI64 p.qty deltaQty = 0 then ⟨0, 0⟩
      else if (satAddI64 p.qty deltaQty).sign = p.qty.sign then
        ⟨satAddI64 p.qty deltaQty, p.avgPrice⟩
      else ⟨satAddI64 p.qty deltaQty, price⟩ := if_neg hcloses
  simp only [fill, hholding]
  split_ifs <;> simp_all

@[simp] theorem holding_fill (p : Position) (tsSubmit deltaQty price : ℤ) :
    (p.fill tsSubmit deltaQty price).holding = p.holding.fill deltaQty price := rfl

@[simp] theorem fundingPnl_fill (p : Position) (tsSubmit deltaQty price : ℤ) :
    (p.fill tsSubmit deltaQty price).fundingPnl = p.fundingPnl := rfl

end Position

namespace Account

/-- The position of a symbol, flat when there is none. -/
def positionAt (account : Account) (symbolId : ℕ) : Position :=
  account.positions[symbolId]?.getD {}

@[simp] theorem positionAt_empty (s : ℕ) : positionAt {} s = {} := by
  simp [positionAt]

theorem positionAt_insert (account : Account) (s : ℕ) (p : Position) (total : ℤ) (s' : ℕ) :
    positionAt ⟨account.positions.insert s p, total⟩ s' =
      if s' = s then p else account.positionAt s' := by
  simp only [positionAt, Std.ExtTreeMap.getElem?_insert, Std.compare_eq_iff_eq, eq_comm (a := s)]
  split_ifs <;> rfl

theorem positionQty_eq (account : Account) (s : ℕ) :
    account.positionQty s = (account.positionAt s).qty := by
  unfold positionQty positionAt
  cases account.positions[s]? <;> rfl

/-- What a fill does : the position of its symbol takes the signed quantity. -/
theorem onFill_eq (account : Account) (order : Order) (fillQty fillPrice : ℤ) :
    account.onFill order fillQty fillPrice =
      let deltaQty := wrap 64 (order.side.signed fillQty)
      let p := account.positionAt order.symbolId
      if deltaQty = 0 then (account, 0)
      else
        ({ account with
            positions := account.positions.insert order.symbolId
              (p.fill order.tsSubmit deltaQty fillPrice) },
          p.holding.realised deltaQty fillPrice) := by
  unfold onFill
  refine if_congr Iff.rfl rfl ?_
  have hp : account.positions[order.symbolId]?.getD {} = account.positionAt order.symbolId := rfl
  simp only [hp]
  by_cases hadds : (account.positionAt order.symbolId).holding.Adds
      (wrap 64 (order.side.signed fillQty))
  · rw [Position.fill_of_adds hadds, Holding.realised_of_adds hadds]
    exact if_pos hadds
  · rw [Position.fill_of_closes hadds, Holding.realised_of_not_adds hadds]
    refine (if_neg hadds).trans ?_
    split_ifs <;> rfl

end Account

/-! ## Sequences of fills -/

/-- The arguments of a call of `Account::on_fill`. -/
structure FillCall where
  order : Order
  qty : ℤ
  price : ℤ
  deriving DecidableEq, Repr

/-- By how much the call changes the position. -/
def FillCall.deltaQty (c : FillCall) : ℤ := c.order.side.signed c.qty

namespace Account

/-- The account after a fill. -/
def take (account : Account) (c : FillCall) : Account :=
  (account.onFill c.order c.qty c.price).1

/-- The PnL that the call returns. -/
def realised (account : Account) (c : FillCall) : ℤ :=
  (account.onFill c.order c.qty c.price).2

/-- The position that the fill is about. -/
def holdingFor (account : Account) (c : FillCall) : Holding :=
  (account.positionAt c.order.symbolId).holding

/-- No operation of the call saturates or overflows. -/
def Fits (account : Account) (c : FillCall) : Prop :=
  InRange 64 |c.deltaQty| ∧ (c.deltaQty ≠ 0 → (account.holdingFor c).Fits c.deltaQty c.price)

instance (account : Account) (c : FillCall) : Decidable (account.Fits c) :=
  inferInstanceAs (Decidable (_ ∧ (_ → _)))

variable {account : Account} {c : FillCall}

theorem wrap_deltaQty (hdelta : InRange 64 |c.deltaQty|) :
    wrap 64 (c.order.side.signed c.qty) = c.deltaQty :=
  wrap_eq_self (by norm_num) (inRange_of_abs hdelta)

theorem onFill_of_idle (account : Account) (hidle : c.deltaQty = 0) :
    account.take c = account ∧ account.realised c = 0 := by
  have hdelta : c.order.side.signed c.qty = 0 := hidle
  have hwrap : wrap 64 (0 : ℤ) = 0 := by decide
  unfold take realised
  rw [onFill_eq, hdelta, hwrap]
  exact ⟨rfl, rfl⟩

theorem onFill_of_moves (hdelta : InRange 64 |c.deltaQty|) (hmoves : c.deltaQty ≠ 0) :
    (∀ s, (account.take c).positionAt s =
      if s = c.order.symbolId then
        (account.positionAt s).fill c.order.tsSubmit c.deltaQty c.price
      else account.positionAt s) ∧
    (account.take c).totalFundingPnl = account.totalFundingPnl ∧
    account.realised c = (account.holdingFor c).realised c.deltaQty c.price := by
  unfold take realised
  rw [onFill_eq, wrap_deltaQty hdelta]
  dsimp only
  rw [if_neg hmoves]
  refine ⟨fun s => (positionAt_insert account _ _ _ s).trans ?_, rfl, rfl⟩
  split_ifs with hs
  · rw [hs]
  · rfl

end Account

end Backtester
