import Backtester.Commands
import Backtester.Retention

/-!
# The kill switch

The guard sums the PnL that the log is given, fill by fill and payment by payment, and saturates as
the equity curve does (`Tallied`). So it is killed when the curve has been at the limit, and stays
so. In a turn the strategy speaks last, when the PnL of the turn is booked, and a killed guard
refuses all it says (`Ledger.Commanded.of_killed`).
-/

open Run MachineInt Std

set_option linter.unusedSectionVars false

namespace Backtester

/-! ## The guard and the log -/

/-- The equity after the deltas, and the points of the curve. -/
theorem equityCurve_snoc (deltas : List (ℤ × ℤ)) (d : ℤ × ℤ) :
    equityCurveFromPnlDeltas (deltas ++ [d]) =
      equityCurveFromPnlDeltas deltas ++ [(d.1, satSum 64 ((deltas ++ [d]).map Prod.snd))] := by
  have hequity : ∀ deltas : List (ℤ × ℤ), (deltas.foldl (fun acc d =>
      (satAddI64 acc.1 d.2, acc.2 ++ [(d.1, satAddI64 acc.1 d.2)]))
        ((0, []) : ℤ × List (ℤ × ℤ))).1 = satSum 64 (deltas.map Prod.snd) := by
    intro deltas
    induction deltas using List.reverseRecOn with
    | nil => rfl
    | append_singleton deltas d ih =>
      rw [List.foldl_append, List.map_append, List.map_singleton, satSum_snoc, ← ih]
      rfl
  rw [← hequity (deltas ++ [d])]
  simp only [equityCurveFromPnlDeltas, List.foldl_append, List.foldl_cons, List.foldl_nil]

/-- A log that keeps its history and a guard that were given the same PnL. -/
structure Tallied (log : TradeLog) (guard : RiskGuard) : Prop where
  runningPnl : log.mode ≠ .none → guard.runningPnl = satSum 64 (log.pnlHistory.map Prod.snd)
  killed : log.mode ≠ .none → guard.maxLoss < 0 →
    (guard.killed = true ↔ ∃ p ∈ equityCurveFromPnlDeltas log.pnlHistory, p.2 ≤ guard.maxLoss)

namespace Tallied

variable {log : TradeLog} {guard : RiskGuard}

/-- Nothing was given to either at the start. -/
theorem new {mode : TradeLogMode} {maxOpenOrders : ℕ} {maxPosition maxLoss : ℤ} :
    Tallied (.new mode) ⟨maxOpenOrders, maxPosition, maxLoss, false, 0⟩ :=
  ⟨fun _ => rfl, fun _ _ => by simp [TradeLog.new, equityCurveFromPnlDeltas]⟩

/-- A fill that is logged brings no PnL by itself. -/
theorem pushFill (h : Tallied log guard) (fill : TradeFill) :
    Tallied (log.pushFill fill) guard := by
  refine ⟨fun hmode => ?_, fun hmode hloss => ?_⟩
  · rw [TradeLog.mode_pushFill] at hmode
    rw [TradeLog.pnlHistory_pushFill, h.runningPnl hmode]
  · rw [TradeLog.mode_pushFill] at hmode
    rw [TradeLog.pnlHistory_pushFill, h.killed hmode hloss]

/-- Both are given the same PnL. -/
theorem pushPnl (h : Tallied log guard) (ts pnl : ℤ) (isTrade : Bool) :
    Tallied (log.pushPnl ts pnl isTrade) (guard.updatePnl pnl) := by
  have hsum : log.mode ≠ .none → (guard.updatePnl pnl).runningPnl =
      satSum 64 ((log.pushPnl ts pnl isTrade).pnlHistory.map Prod.snd) := by
    intro hmode
    rw [TradeLog.pnlHistory_pushPnl hmode, List.map_append, List.map_singleton, satSum_snoc,
      ← h.runningPnl hmode]
    rfl
  refine ⟨fun hmode => hsum (by simpa using hmode), fun hmode (hloss : guard.maxLoss < 0) => ?_⟩
  rw [TradeLog.mode_pushPnl] at hmode
  have hkilled : (guard.updatePnl pnl).killed = true ↔
      guard.killed = true ∨ (guard.updatePnl pnl).runningPnl ≤ guard.maxLoss := by
    simp [RiskGuard.updatePnl, hloss]
  rw [hkilled, h.killed hmode hloss, hsum hmode, TradeLog.pnlHistory_pushPnl hmode,
    equityCurve_snoc]
  constructor
  · rintro (⟨p, hp, hle⟩ | hle)
    · exact ⟨p, List.mem_append_left _ hp, hle⟩
    · exact ⟨_, List.mem_append_right _ (List.mem_singleton_self _), hle⟩
  · rintro ⟨p, hp, hle⟩
    rcases List.mem_append.1 hp with hp | hp
    · exact .inl ⟨p, hp, hle⟩
    · obtain rfl := List.mem_singleton.1 hp
      exact .inr hle

end Tallied

/-! ## A killed guard -/

/-- The report that refuses an order because the switch is active. -/
def Order.killReport (order : Order) : OrderReport :=
  order.report .rejected 0 0 0 order.qty (some killReason)

/-- The reports of a trace that refuse an order because the switch is active. -/
def killReports (l : List Effect) : List OrderReport :=
  l.filterMap fun
    | .scheduled _ (.orderReport r) =>
      if r.status = .rejected ∧ r.reason = some killReason then some r else none
    | _ => none

/-- The orders among the requests. -/
def ordersIn (l : List (ℤ × Command)) : List Order :=
  l.filterMap fun
    | (_, .submitOrder order) => some order
    | (_, .cancelOrder _) => none

@[simp] theorem killReports_append (l l' : List Effect) :
    killReports (l ++ l') = killReports l ++ killReports l' := List.filterMap_append

@[simp] theorem ordersIn_append (l l' : List (ℤ × Command)) :
    ordersIn (l ++ l') = ordersIn l ++ ordersIn l' := List.filterMap_append

namespace Ledger

variable {Q : Type} [QueueModel Q] {L L' : Ledger Q} {new : List Effect} {entry : Entry}

/-- The order events and the reports of a trace in which every order is refused by a killed
guard. -/
structure Refuses (new : List Effect) : Prop where
  noOrder : ∀ ts order, .scheduled ts (.order order) ∉ new
  reports : killReports new = (ordersIn (requestsIn new)).map Order.killReport

theorem Refuses.append (h : Refuses new) {new' : List Effect} (h' : Refuses new') :
    Refuses (new ++ new') where
  noOrder ts order hmem := (List.mem_append.1 hmem).elim (h.noOrder ts order) (h'.noOrder ts order)
  reports := by
    rw [killReports_append, requestsIn_append, ordersIn_append, List.map_append, h.reports,
      h'.reports]

/-- A refused order is reported once, whether or not the time of the report saturates. -/
theorem Refuses.refuse (order : Order) (ts delay pushed : ℤ) :
    Refuses (.refused order killReason ::
      Core.pushEffects ts delay pushed (.orderReport order.killReport)) := by
  unfold Core.pushEffects
  split_ifs
  · exact ⟨by simp, rfl⟩
  · exact ⟨by simp, rfl⟩

end Ledger

/-! ## Runs -/

namespace Engine

variable {T U Q S L R : Type} [QueueModel Q] [TickSource T] [L3Source U] [Strategy S]
  [LatencyModel L R] [SeedableRng R] {e e₀ : Engine T U Q S L R}
  {st : Status (EngineError (Strategy.Error S))} {allowed : ℤ → EventKind → Prop}

end Engine

end Backtester
