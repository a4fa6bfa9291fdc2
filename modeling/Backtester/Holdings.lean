import Backtester.Stats

/-!
# Holdings

A position at average cost (`Holding`), what a fill makes of it and what it realises. The account,
the statistics of the log and whoever replays the logged fills keep holdings by symbol, in the same
way (`Holdings`).
-/

open MachineInt Std

set_option linter.unusedSectionVars false

namespace Backtester

/-- A position at average cost. -/
structure Holding where
  qty : ℤ := 0
  avgPrice : ℤ := 0
  deriving DecidableEq, Repr

namespace Holding

/-- The holding after `deltaQty` at `price`. -/
def fill (h : Holding) (deltaQty price : ℤ) : Holding :=
  if h.qty = 0 ∨ h.qty.sign = deltaQty.sign then
    ⟨satAddI64 h.qty deltaQty, averagePrice h.qty h.avgPrice deltaQty price⟩
  else
    let newQty := satAddI64 h.qty deltaQty
    if newQty = 0 then ⟨0, 0⟩
    else if newQty.sign = h.qty.sign then ⟨newQty, h.avgPrice⟩
    else ⟨newQty, price⟩

/-- What `deltaQty` at `price` realises. -/
def realised (h : Holding) (deltaQty price : ℤ) : ℤ :=
  if h.qty = 0 ∨ h.qty.sign = deltaQty.sign then 0
  else closingPnl h.qty h.avgPrice deltaQty price

end Holding

/-- The position of the statistics. -/
def PosState.holding (p : PosState) : Holding := ⟨p.qty, p.avgPrice⟩

/-- The position of the account. -/
def Position.holding (p : Position) : Holding := ⟨p.qty, p.avgPrice⟩

/-- Holdings by symbol. -/
abbrev Holdings := ℕ → Option Holding

namespace Holdings

/-- No position in any symbol. -/
def none : Holdings := fun _ => Option.none

/-- The fill changes no position. -/
def IsIdle (f : TradeFill) : Prop := f.qty ≤ 0 ∨ f.side.signed f.qty = 0

instance (f : TradeFill) : Decidable (IsIdle f) := inferInstanceAs (Decidable (_ ∨ _))

/-- A fill changes the position in its symbol. -/
def fill (H : Holdings) (f : TradeFill) : Holdings :=
  if IsIdle f then H
  else Function.update H f.symbolId
    (some (((H f.symbolId).getD {}).fill (f.side.signed f.qty) f.price))

/-- What a fill realises of the position it meets. -/
def realised (H : Holdings) (f : TradeFill) : ℤ :=
  if IsIdle f then 0 else ((H f.symbolId).getD {}).realised (f.side.signed f.qty) f.price

/-- The fills one after the other. -/
def fills (H : Holdings) (l : List TradeFill) : Holdings := l.foldl fill H

/-- What each fill of a list realises. -/
def gross (H : Holdings) : List TradeFill → List ℤ
  | [] => []
  | f :: l => H.realised f :: (H.fill f).gross l

@[simp] theorem fills_snoc (H : Holdings) (l : List TradeFill) (f : TradeFill) :
    H.fills (l ++ [f]) = (H.fills l).fill f := by
  simp [fills]

@[simp] theorem gross_snoc (H : Holdings) (l : List TradeFill) (f : TradeFill) :
    H.gross (l ++ [f]) = H.gross l ++ [(H.fills l).realised f] := by
  induction l generalizing H with
  | nil => rfl
  | cons g l ih => exact congrArg (H.realised g :: ·) (ih (H.fill g))

@[simp] theorem length_gross (H : Holdings) (l : List TradeFill) :
    (H.gross l).length = l.length := by
  induction l generalizing H with
  | nil => rfl
  | cons f l ih => exact congrArg (· + 1) (ih (H.fill f))

/-- The holdings that a map of states shows. -/
def of (m : ExtTreeMap ℕ PosState) : Holdings := fun s => m[s]?.map PosState.holding

theorem getD_of (m : ExtTreeMap ℕ PosState) (s : ℕ) :
    (of m s).getD {} = PosState.holding (m[s]?.getD {}) := by
  unfold of
  cases m[s]? <;> rfl

theorem of_insert (m : ExtTreeMap ℕ PosState) (s : ℕ) (p : PosState) :
    of (m.insert s p) = Function.update (of m) s (some p.holding) := by
  funext s'
  simp only [of, ExtTreeMap.getElem?_insert, Std.compare_eq_iff_eq, Function.update_apply]
  by_cases hs : s = s'
  · simp [hs]
  · simp [hs, Ne.symm hs]

/-- Replaying a fill. -/
theorem of_replayFill (m : ExtTreeMap ℕ PosState) (f : TradeFill) :
    of (replayFill m f).1 = (of m).fill f ∧ (replayFill m f).2.pnl = (of m).realised f := by
  by_cases hidle : IsIdle f
  · rw [fill, realised, if_pos hidle, if_pos hidle]
    have hsame : replayFill m f = (m, ⟨f.tsExchange, 0, 0⟩) := if_pos hidle
    rw [hsame]
    exact ⟨rfl, rfl⟩
  · have hmoves : ¬(f.qty ≤ 0 ∨ f.side.signed f.qty = 0) := hidle
    rw [fill, realised, if_neg hidle, if_neg hidle, getD_of]
    simp only [replayFill, if_neg hmoves]
    unfold Holding.fill Holding.realised PosState.holding
    dsimp only
    split_ifs <;> exact ⟨of_insert _ _ _, rfl⟩

/-- The statistics follow a fill. -/
theorem of_onFill (stats : IncrementalStats) (f : TradeFill) :
    of (stats.onFill f).posState = (of stats.posState).fill f := by
  by_cases hidle : IsIdle f
  · have hstays : f.qty ≤ 0 ∨ f.side.signed f.qty = 0 := hidle
    rw [fill, if_pos hidle]
    simp only [IncrementalStats.onFill, if_pos hstays]
  · have hmoves : ¬(f.qty ≤ 0 ∨ f.side.signed f.qty = 0) := hidle
    rw [fill, if_neg hidle, getD_of]
    simp only [IncrementalStats.onFill, if_neg hmoves]
    unfold Holding.fill PosState.holding
    dsimp only
    split_ifs <;> exact of_insert _ _ _

/-- The positions and the deltas of a replay. -/
theorem of_replayFills (l : List TradeFill) : of (replayFills l).1 = none.fills l ∧
    (pnlDeltasFromFills l).map PnlDelta.pnl = none.gross l := by
  induction l using List.reverseRecOn with
  | nil => exact ⟨funext fun s => by simp [of, replayFills, fills, none], rfl⟩
  | append_singleton l f ih =>
    obtain ⟨hpos, hpnl⟩ := ih
    obtain ⟨hpos', hpnl'⟩ := of_replayFill (replayFills l).1 f
    have hsnoc : replayFills (l ++ [f]) = ((replayFill (replayFills l).1 f).1,
        (replayFills l).2 ++ [(replayFill (replayFills l).1 f).2]) := by simp [replayFills]
    unfold pnlDeltasFromFills at hpnl ⊢
    rw [hsnoc]
    refine ⟨?_, ?_⟩
    · rw [hpos', hpos, fills_snoc]
    · rw [List.map_append, hpnl, List.map_singleton, hpnl', hpos, gross_snoc]

end Holdings

namespace Account

/-- The holdings of the account. -/
def holdings (account : Account) : Holdings :=
  fun s => account.positions[s]?.map Position.holding

theorem getD_holdings (account : Account) (s : ℕ) :
    (account.holdings s).getD {} = Position.holding (account.positions[s]?.getD {}) := by
  unfold holdings
  cases account.positions[s]? <;> rfl

theorem holdings_insert (account : Account) (s : ℕ) (p : Position) (total : ℤ) :
    holdings ⟨account.positions.insert s p, total⟩ =
      Function.update account.holdings s (some p.holding) := by
  funext s'
  simp only [holdings, ExtTreeMap.getElem?_insert, Std.compare_eq_iff_eq, Function.update_apply]
  by_cases hs : s = s'
  · simp [hs]
  · simp [hs, Ne.symm hs]

end Account

end Backtester
