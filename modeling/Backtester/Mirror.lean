import Backtester.FillArithmetic

/-!
# Longs and shorts

Exchanging buys and sells turns every position of an account over. Every division of the account
truncates towards zero, so what is rounded off a long is rounded off the short that mirrors it, and
the two accounts stay mirror images through any sequence of fills and funding payments
(`Account.mirrored`).
-/

open MachineInt Fold

namespace Backtester

/-! ## Mirror images -/

/-- Buying becomes selling, and selling becomes buying. -/
def Side.exchanged : Side → Side
  | .buy => .sell
  | .sell => .buy
  | .none => .none

@[simp] theorem Side.signed_exchanged (side : Side) (q : ℤ) :
    side.exchanged.signed q = -side.signed q := by
  cases side <;> simp [Side.exchanged, Side.signed]

namespace Holding

variable {h : Holding} {deltaQty price : ℤ}

/-- The opposite position at the same price. -/
def mirrored (h : Holding) : Holding := ⟨-h.qty, h.avgPrice⟩

@[simp] theorem adds_mirrored : h.mirrored.Adds (-deltaQty) ↔ h.Adds deltaQty := by
  simp only [Adds, mirrored, neg_eq_zero, Int.sign_neg, neg_inj]

theorem cost_mirrored : h.mirrored.cost (-deltaQty) price = h.cost deltaQty price := by
  simp only [cost, mirrored, abs_neg]

theorem closed_mirrored : h.mirrored.closed (-deltaQty) = h.closed deltaQty := by
  simp only [closed, mirrored, abs_neg]

theorem perUnit_mirrored (hqty : h.qty ≠ 0) : h.mirrored.perUnit price = -h.perUnit price := by
  unfold perUnit mirrored
  dsimp only
  split_ifs with hshort hlong hlong <;> omega

theorem fill_mirrored (hfits : h.Fits deltaQty price) (hfits' : h.mirrored.Fits (-deltaQty) price) :
    h.mirrored.fill (-deltaQty) price = (h.fill deltaQty price).mirrored := by
  have hnew : h.mirrored.qty + -deltaQty = -(h.qty + deltaQty) := by
    simp only [mirrored]
    ring
  by_cases hadds : h.Adds deltaQty
  · rw [fill_of_adds hfits hadds, fill_of_adds hfits' (adds_mirrored.2 hadds), hnew, cost_mirrored]
    simp only [mirrored, abs_neg]
  · rw [fill_of_closes hfits hadds, fill_of_closes hfits' (mt adds_mirrored.1 hadds), hnew]
    simp only [mirrored, neg_eq_zero, Int.sign_neg, neg_inj]
    split_ifs <;> simp

theorem realised_mirrored (hfits : h.Fits deltaQty price)
    (hfits' : h.mirrored.Fits (-deltaQty) price) :
    h.mirrored.realised (-deltaQty) price = -h.realised deltaQty price := by
  by_cases hadds : h.Adds deltaQty
  · rw [realised_of_adds hadds, realised_of_adds (adds_mirrored.2 hadds), neg_zero]
  · have hqty : h.qty ≠ 0 := fun hzero => hadds (Or.inl hzero)
    rw [realised_of_closes hfits hadds, realised_of_closes hfits' (mt adds_mirrored.1 hadds),
      perUnit_mirrored hqty, closed_mirrored, neg_mul, Int.neg_tdiv]

end Holding

namespace Position

variable {p : Position} {tsSubmit deltaQty price : ℤ}

/-- The position of the other direction, with the funding of the other direction. -/
def mirrored (p : Position) : Position := { p with qty := -p.qty, fundingPnl := -p.fundingPnl }

theorem holding_mirrored : p.mirrored.holding = p.holding.mirrored := rfl

theorem fill_mirrored (hfits : p.holding.Fits deltaQty price)
    (hfits' : p.mirrored.holding.Fits (-deltaQty) price) :
    p.mirrored.fill tsSubmit (-deltaQty) price = (p.fill tsSubmit deltaQty price).mirrored := by
  have hfill := Holding.fill_mirrored hfits hfits'
  have hnew : satAddI64 p.qty deltaQty = p.qty + deltaQty := clamp_eq_self hfits.newQty
  have hnew' : satAddI64 p.mirrored.qty (-deltaQty) = -(p.qty + deltaQty) := by
    have hsum : -(p.qty + deltaQty) = p.mirrored.qty + -deltaQty := by
      simp only [mirrored]
      ring
    rw [hsum]
    exact clamp_eq_self hfits'.newQty
  rw [← holding_mirrored] at hfill
  unfold fill
  rw [hfill, hnew, hnew']
  simp only [holding_mirrored, Holding.adds_mirrored]
  simp only [mirrored, Holding.mirrored, neg_eq_zero, Int.sign_neg, neg_inj, ne_eq]

end Position

/-! ## Funding -/

namespace Account

variable {account : Account} {event : FundingEvent} {markPrice : ℤ}

/-- What a funding event pays on a quantity : the notional at the mark price, times the rate. -/
def payment (qty rate markPrice : ℤ) : ℤ := ((qty * markPrice).tdiv scale * rate).tdiv scale

theorem payment_neg (qty rate markPrice : ℤ) :
    payment (-qty) rate markPrice = -payment qty rate markPrice := by
  simp only [payment, neg_mul, Int.neg_tdiv]

/-- The event finds nothing to pay. -/
def Unpaid (account : Account) (event : FundingEvent) (markPrice : ℤ) : Prop :=
  (account.positionAt event.symbolId).qty = 0 ∨ event.rate = 0 ∨ markPrice = 0

instance (account : Account) (event : FundingEvent) (markPrice : ℤ) :
    Decidable (account.Unpaid event markPrice) := inferInstanceAs (Decidable (_ ∨ _))

/-- No operation of the funding event saturates or overflows. -/
structure FundingFits (account : Account) (event : FundingEvent) (markPrice : ℤ) : Prop where
  notional : InRange 128 ((account.positionAt event.symbolId).qty * markPrice)
  charge : InRange 128
    (((account.positionAt event.symbolId).qty * markPrice).tdiv scale * event.rate)
  pnl : InRange 64 (-payment (account.positionAt event.symbolId).qty event.rate markPrice)
  fundingPnl : InRange 64 ((account.positionAt event.symbolId).fundingPnl +
    -payment (account.positionAt event.symbolId).qty event.rate markPrice)
  total : InRange 64 (account.totalFundingPnl +
    -payment (account.positionAt event.symbolId).qty event.rate markPrice)

theorem applyFunding_of_unpaid (h : account.Unpaid event markPrice) :
    account.applyFunding event markPrice = (account, 0) := by
  unfold applyFunding
  unfold Unpaid positionAt at h
  cases hp : account.positions[event.symbolId]? with
  | none => rfl
  | some p =>
    rw [hp] at h
    exact if_pos h

/-- Funding pays the exact amount, and moves nothing but the funding of its symbol and the total. -/
theorem applyFunding_of_paid (hpaid : ¬account.Unpaid event markPrice)
    (hfits : account.FundingFits event markPrice) :
    (∀ s, (account.applyFunding event markPrice).1.positionAt s =
      if s = event.symbolId then
        { account.positionAt s with
          fundingPnl := (account.positionAt s).fundingPnl +
            -payment (account.positionAt s).qty event.rate markPrice }
      else account.positionAt s) ∧
    (account.applyFunding event markPrice).1.totalFundingPnl = account.totalFundingPnl +
      -payment (account.positionAt event.symbolId).qty event.rate markPrice ∧
    (account.applyFunding event markPrice).2 =
      -payment (account.positionAt event.symbolId).qty event.rate markPrice := by
  cases hp : account.positions[event.symbolId]? with
  | none =>
    refine absurd (Or.inl ?_) hpaid
    rw [positionAt, hp]
    rfl
  | some p =>
    have hposition : account.positionAt event.symbolId = p := by
      rw [positionAt, hp]
      rfl
    unfold Unpaid at hpaid
    rw [hposition] at hpaid ⊢
    have hnotional : satMulI128 p.qty markPrice = p.qty * markPrice :=
      clamp_eq_self (hposition ▸ hfits.notional)
    have hcharge : satMulI128 ((p.qty * markPrice).tdiv scale) event.rate =
        (p.qty * markPrice).tdiv scale * event.rate := clamp_eq_self (hposition ▸ hfits.charge)
    have hpnl : clampI128ToI64 (-payment p.qty event.rate markPrice) =
        -payment p.qty event.rate markPrice := clamp_eq_self (hposition ▸ hfits.pnl)
    have hfunding : satAddI64 p.fundingPnl (-payment p.qty event.rate markPrice) =
        p.fundingPnl + -payment p.qty event.rate markPrice :=
      clamp_eq_self (hposition ▸ hfits.fundingPnl)
    have htotal : satAddI64 account.totalFundingPnl (-payment p.qty event.rate markPrice) =
        account.totalFundingPnl + -payment p.qty event.rate markPrice :=
      clamp_eq_self (hposition ▸ hfits.total)
    have happly : account.applyFunding event markPrice =
        (⟨account.positions.insert event.symbolId
            { p with fundingPnl := p.fundingPnl + -payment p.qty event.rate markPrice },
          account.totalFundingPnl + -payment p.qty event.rate markPrice⟩,
        -payment p.qty event.rate markPrice) := by
      unfold applyFunding
      simp only [hp, hnotional, hcharge]
      rw [if_neg hpaid]
      have hpay : ((p.qty * markPrice).tdiv scale * event.rate).tdiv scale =
        payment p.qty event.rate markPrice := rfl
      rw [hpay, hpnl, hfunding, htotal]
    rw [happly]
    refine ⟨fun s => (positionAt_insert account _ _ _ s).trans ?_, rfl, rfl⟩
    split_ifs with hs
    · rw [hs, hposition]
    · rfl

end Account

/-! ## Runs -/

/-- A call that moves an account. -/
inductive AccountEvent where
  | fill (call : FillCall)
  | funding (event : FundingEvent) (markPrice : ℤ)
  deriving DecidableEq, Repr

/-- The call with the side of its order exchanged. -/
def AccountEvent.exchanged : AccountEvent → AccountEvent
  | .fill c => .fill { c with order := { c.order with side := c.order.side.exchanged } }
  | .funding event markPrice => .funding event markPrice

namespace Account

/-- The account after the call, and the PnL that the call returns. -/
def apply (account : Account) : AccountEvent → Account × ℤ
  | .fill c => account.onFill c.order c.qty c.price
  | .funding event markPrice => account.applyFunding event markPrice

/-- The account after the calls. -/
def run (events : List AccountEvent) : Account :=
  events.foldl (fun account e => (account.apply e).1) {}

/-- No operation of the call saturates or overflows. -/
def Exact (account : Account) : AccountEvent → Prop
  | .fill c => account.Fits c
  | .funding event markPrice => account.Unpaid event markPrice ∨ account.FundingFits event markPrice

instance (account : Account) (event : FundingEvent) (markPrice : ℤ) :
    Decidable (account.FundingFits event markPrice) :=
  decidable_of_iff
    (InRange 128 ((account.positionAt event.symbolId).qty * markPrice) ∧
      InRange 128 (((account.positionAt event.symbolId).qty * markPrice).tdiv scale * event.rate) ∧
      InRange 64 (-payment (account.positionAt event.symbolId).qty event.rate markPrice) ∧
      InRange 64 ((account.positionAt event.symbolId).fundingPnl +
        -payment (account.positionAt event.symbolId).qty event.rate markPrice) ∧
      InRange 64 (account.totalFundingPnl +
        -payment (account.positionAt event.symbolId).qty event.rate markPrice))
    ⟨fun ⟨h₁, h₂, h₃, h₄, h₅⟩ => ⟨h₁, h₂, h₃, h₄, h₅⟩,
      fun ⟨h₁, h₂, h₃, h₄, h₅⟩ => ⟨h₁, h₂, h₃, h₄, h₅⟩⟩

instance (account : Account) : (e : AccountEvent) → Decidable (account.Exact e)
  | .fill c => inferInstanceAs (Decidable (account.Fits c))
  | .funding _ _ => inferInstanceAs (Decidable (_ ∨ _))

/-- Every position of the one is that of the other, turned over. -/
structure Mirrors (a b : Account) : Prop where
  positions : ∀ s, b.positionAt s = (a.positionAt s).mirrored
  totalFundingPnl : b.totalFundingPnl = -a.totalFundingPnl

theorem mirrors_empty : Mirrors {} {} := ⟨fun s => by simp [Position.mirrored], rfl⟩

theorem Mirrors.fill {a b : Account} {c : FillCall} (h : Mirrors a b) (hfits : a.Exact (.fill c))
    (hfits' : b.Exact (AccountEvent.exchanged (.fill c))) :
    Mirrors (a.apply (.fill c)).1 (b.apply (AccountEvent.exchanged (.fill c))).1 ∧
      (b.apply (AccountEvent.exchanged (.fill c))).2 = -(a.apply (.fill c)).2 := by
  let c' : FillCall := { c with order := { c.order with side := c.order.side.exchanged } }
  have hdelta : c'.deltaQty = -c.deltaQty := Side.signed_exchanged c.order.side c.qty
  by_cases hidle : c.deltaQty = 0
  · obtain ⟨htake, hpnl⟩ := onFill_of_idle a hidle
    obtain ⟨htake', hpnl'⟩ := onFill_of_idle (c := c') b (by rw [hdelta, hidle, neg_zero])
    have hmirrors : Mirrors (a.take c) (b.take c') := by rwa [htake, htake']
    exact ⟨hmirrors, hpnl'.trans (by rw [← neg_zero, ← hpnl]; rfl)⟩
  · obtain ⟨hpositions, htotal, hpnl⟩ := onFill_of_moves hfits.1 hidle
    have hmoves' : c'.deltaQty ≠ 0 := by rwa [hdelta, neg_ne_zero]
    obtain ⟨hpositions', htotal', hpnl'⟩ := onFill_of_moves (c := c') hfits'.1 hmoves'
    have hposition := h.positions c.order.symbolId
    have hholding := hfits.2 hidle
    have hholding' : (b.positionAt c.order.symbolId).holding.Fits (-c.deltaQty) c.price :=
      hdelta ▸ hfits'.2 hmoves'
    rw [hposition] at hholding'
    refine ⟨⟨fun s => ?_, ?_⟩, ?_⟩
    · refine (hpositions' s).trans (Eq.trans ?_ (congrArg Position.mirrored (hpositions s)).symm)
      by_cases hs : s = c.order.symbolId
      · rw [if_pos hs, if_pos hs, hdelta, hs, hposition]
        exact Position.fill_mirrored hholding hholding'
      · rw [if_neg hs, if_neg hs, h.positions s]
    · exact htotal'.trans (h.totalFundingPnl.trans (congrArg Neg.neg htotal).symm)
    · refine hpnl'.trans (Eq.trans ?_ (congrArg Neg.neg hpnl).symm)
      have hfor : b.holdingFor c' = (a.holdingFor c).mirrored := congrArg Position.holding hposition
      rw [hfor, hdelta]
      exact Holding.realised_mirrored hholding hholding'

theorem Mirrors.unpaid {a b : Account} (h : Mirrors a b) (event : FundingEvent) (markPrice : ℤ) :
    b.Unpaid event markPrice ↔ a.Unpaid event markPrice := by
  unfold Unpaid
  rw [h.positions]
  simp only [Position.mirrored, neg_eq_zero]

theorem Mirrors.funding {a b : Account} {event : FundingEvent} {markPrice : ℤ} (h : Mirrors a b)
    (hfits : a.Exact (.funding event markPrice)) (hfits' : b.Exact (.funding event markPrice)) :
    Mirrors (a.apply (.funding event markPrice)).1 (b.apply (.funding event markPrice)).1 ∧
      (b.apply (.funding event markPrice)).2 = -(a.apply (.funding event markPrice)).2 := by
  by_cases hunpaid : a.Unpaid event markPrice
  · have happly : a.apply (.funding event markPrice) = (a, 0) := applyFunding_of_unpaid hunpaid
    have happly' : b.apply (.funding event markPrice) = (b, 0) :=
      applyFunding_of_unpaid ((h.unpaid event markPrice).2 hunpaid)
    rw [happly, happly']
    exact ⟨h, rfl⟩
  · have hunpaid' := mt (h.unpaid event markPrice).1 hunpaid
    obtain ⟨hpositions, htotal, hpnl⟩ := applyFunding_of_paid hunpaid (hfits.resolve_left hunpaid)
    obtain ⟨hpositions', htotal', hpnl'⟩ :=
      applyFunding_of_paid hunpaid' (hfits'.resolve_left hunpaid')
    have hqty : ∀ s, payment (b.positionAt s).qty event.rate markPrice =
        -payment (a.positionAt s).qty event.rate markPrice := fun s => by
      rw [h.positions s]
      exact payment_neg _ _ _
    refine ⟨⟨fun s => ?_, ?_⟩, ?_⟩
    · refine (hpositions' s).trans (Eq.trans ?_ (congrArg Position.mirrored (hpositions s)).symm)
      rw [hqty]
      split_ifs with hs
      · simp only [h.positions s, Position.mirrored, neg_add]
      · exact h.positions s
    · refine htotal'.trans (Eq.trans ?_ (congrArg Neg.neg htotal).symm)
      rw [hqty, h.totalFundingPnl, neg_add]
    · refine hpnl'.trans (Eq.trans ?_ (congrArg Neg.neg hpnl).symm)
      rw [hqty]

/-- One call keeps two accounts mirror images, and returns them opposite PnL. -/
theorem Mirrors.apply {a b : Account} (h : Mirrors a b) (e : AccountEvent) (hfits : a.Exact e)
    (hfits' : b.Exact e.exchanged) :
    Mirrors (a.apply e).1 (b.apply e.exchanged).1 ∧
      (b.apply e.exchanged).2 = -(a.apply e).2 := by
  cases e with
  | fill c => exact h.fill hfits hfits'
  | funding event markPrice => exact h.funding hfits hfits'

/-- Exchanging the sides of all orders turns the account over, after every call. -/
theorem mirrored {events : List AccountEvent}
    (hexact : Along (fun account e => (apply account e).1) Exact {} events)
    (hexact' : Along (fun account e => (apply account e).1) Exact {}
      (events.map AccountEvent.exchanged))
    {before : List AccountEvent} {e : AccountEvent} (hrun : before ++ [e] <+: events) :
    let long := run before
    let short := run (before.map AccountEvent.exchanged)
    Mirrors (long.apply e).1 (short.apply e.exchanged).1 ∧
      (short.apply e.exchanged).2 = -(long.apply e).2 := by
  obtain ⟨after, rfl⟩ := hrun
  rw [List.append_assoc] at hexact hexact'
  rw [List.map_append] at hexact'
  obtain ⟨hbefore, he, -⟩ := along_append.1 hexact
  obtain ⟨hbefore', he', -⟩ := along_append.1 hexact'
  have hmirrors : Mirrors (run before) (run (before.map AccountEvent.exchanged)) :=
    Along.related (fun a b e h hfits hfits' => (h.apply e hfits hfits').1) mirrors_empty
      hbefore hbefore'
  exact hmirrors.apply e he he'

/-- Opened, added to, paid on and turned over, on either side. -/
theorem mirrored_sample :
    let call (side : Side) (qty price : ℤ) : AccountEvent :=
      .fill ⟨⟨1, 0, 0, 0, price, qty, 1, side, .limit⟩, qty, price⟩
    let before := [call .buy 300000001 10000000000, call .buy 200000000 10133333333,
      .funding ⟨5, 12345, 1⟩ 10100000000]
    let e := call .sell 700000000 10300000001
    let long := run before
    let short := run (before.map AccountEvent.exchanged)
    Mirrors (long.apply e).1 (short.apply e.exchanged).1 ∧
      (short.apply e.exchanged).2 = -(long.apply e).2 := by
  intro call before e
  exact @mirrored (before ++ [e]) (by decide +kernel) (by decide +kernel) before e
    (List.prefix_refl _)

end Account

end Backtester
