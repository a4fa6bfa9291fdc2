import Backtester.Books
import Backtester.Drawdown

/-!
# The ring buffer

A log that retains fills in a ring buffer drops the oldest fill before it pushes a new one, once the
ring is full. It keeps the last fills then, as many as its capacity, and counts them all. A ring of
capacity 0 is full while it is empty, so that there is nothing to drop : it keeps one fill all the
same (`TradeLog.fillsIter_ring`).
-/

open MachineInt

namespace Backtester

/-- The fills among the pushes. -/
def fillsOf (pushes : List LogPush) : List TradeFill :=
  pushes.filterMap fun
    | .fill f => some f
    | .pnl _ _ _ => none

namespace TradeLog

/-- The number of fills kept, or counted where none is kept. -/
def len (log : TradeLog) : ℕ :=
  match log.mode with
  | .all => log.fills.length
  | .ringBuffer _ => log.fillsRing.length
  | .summaryOnly => log.incremental.totalTrades
  | .none => 0

/-- The log retains the last `cap` of the fills that were pushed, and has counted all of them. -/
structure KeepsLast (cap : ℕ) (fills : List TradeFill) (log : TradeLog) : Prop where
  window : log.fillsIter = fills.rtake (min fills.length cap)
  len_le : log.len ≤ cap
  totalTrades : log.incremental.totalTrades = fills.length
  totalFeesPaid : log.incremental.totalFeesPaid = satSum 64 (fills.map TradeFill.fee)

/-- What a ring buffer of any capacity looks like after the fills. -/
structure Ring (cap : ℕ) (fills : List TradeFill) (log : TradeLog) : Prop where
  mode : log.mode = .ringBuffer cap
  ring : log.fillsRing = fills.rtake (max cap 1)
  totalTrades : log.incremental.totalTrades = fills.length
  totalFeesPaid : log.incremental.totalFeesPaid = satSum 64 (fills.map TradeFill.fee)

/-- Dropping the oldest when there are `n` of them, then pushing, keeps the last `n`, at least
one. -/
theorem rtake_push {α : Type*} (n : ℕ) (l : List α) (x : α) :
    (if n ≤ (l.rtake (max n 1)).length then (l.rtake (max n 1)).tail else l.rtake (max n 1)) ++
      [x] =
      (l ++ [x]).rtake (max n 1) := by
  obtain ⟨m, hm⟩ : ∃ m, max n 1 = m + 1 := ⟨max n 1 - 1, by omega⟩
  rw [hm, List.rtake_concat_succ, List.rtake, List.rtake, List.tail_drop, List.length_drop]
  congr 1
  split_ifs with hfull
  · rw [show l.length - (m + 1) + 1 = max (l.length - m) 1 by omega]
    rcases Nat.eq_zero_or_pos (l.length - m) with hshort | hlong
    · have hempty : l = [] := List.eq_nil_of_length_eq_zero (by omega)
      simp [hempty]
    · rw [max_eq_left hlong]
  · rw [show l.length - (m + 1) = l.length - m by omega]

theorem Ring.pushFill {cap : ℕ} {fills : List TradeFill} {log : TradeLog} (h : Ring cap fills log)
    (f : TradeFill) : Ring cap (fills ++ [f]) (log.pushFill f) := by
  have hlog : log.pushFill f = { log with
      fillsRing := (if cap ≤ log.fillsRing.length then log.fillsRing.tail else log.fillsRing) ++ [f]
      incremental := log.incremental.onFill f } := by
    simp only [TradeLog.pushFill, h.mode]
  have htrades : (log.incremental.onFill f).totalTrades = log.incremental.totalTrades + 1 := by
    unfold IncrementalStats.onFill
    dsimp only
    split_ifs <;> rfl
  rw [hlog]
  refine ⟨h.mode, ?_, ?_, ?_⟩
  · dsimp only
    rw [h.ring, rtake_push]
  · rw [List.length_append, List.length_singleton, ← h.totalTrades]
    exact htrades
  · rw [List.map_append, List.map_singleton, satSum_snoc, ← h.totalFeesPaid]
    exact (log.incremental.onFill_totals f).2

theorem Ring.pushPnl {cap : ℕ} {fills : List TradeFill} {log : TradeLog} (h : Ring cap fills log)
    (ts pnl : ℤ) (isTrade : Bool) : Ring cap fills (log.pushPnl ts pnl isTrade) := by
  have hlog : log.pushPnl ts pnl isTrade = { log with
      pnlHistory := log.pnlHistory ++ [(ts, pnl)]
      incremental := log.incremental.onPnl ts pnl isTrade } := by
    simp [TradeLog.pushPnl, h.mode]
  have htrack : ∀ stats : IncrementalStats,
      (stats.trackEquity ts).totalTrades = stats.totalTrades := by
    intro stats
    unfold IncrementalStats.trackEquity
    dsimp only
    split_ifs <;> rfl
  have htrades : (log.incremental.onPnl ts pnl isTrade).totalTrades =
      log.incremental.totalTrades := by
    unfold IncrementalStats.onPnl
    rw [htrack]
    dsimp only
    split_ifs <;> rfl
  rw [hlog]
  exact ⟨h.mode, h.ring, htrades.trans h.totalTrades,
    (log.incremental.onPnl_totals ts pnl isTrade).2.1.trans h.totalFeesPaid⟩

/-- The ring after any pushes. -/
theorem ring_record (cap : ℕ) (pushes : List LogPush) :
    Ring cap (fillsOf pushes) (record (.ringBuffer cap) pushes) := by
  induction pushes using List.reverseRecOn with
  | nil => exact ⟨rfl, (List.rtake_nil _).symm, rfl, rfl⟩
  | append_singleton pushes p ih =>
    rw [record, List.foldl_append, fillsOf, List.filterMap_append]
    cases p with
    | fill f => exact ih.pushFill f
    | pnl ts pnl isTrade =>
      have hfills : fillsOf pushes ++ fillsOf [.pnl ts pnl isTrade] = fillsOf pushes :=
        List.append_nil _
      exact hfills.symm ▸ ih.pushPnl ts pnl isTrade

theorem fillsIter_ring (cap : ℕ) (pushes : List LogPush) :
    (record (.ringBuffer cap) pushes).fillsIter = (fillsOf pushes).rtake (max cap 1) := by
  have h := ring_record cap pushes
  rw [fillsIter, h.mode]
  exact h.ring

/-- The log keeps what it should after every push exactly if it has room for a fill, or gets
none. -/
theorem keepsLast_iff (cap : ℕ) (pushes : List LogPush) :
    (∀ done, done <+: pushes → KeepsLast cap (fillsOf done) (record (.ringBuffer cap) done)) ↔
      cap ≠ 0 ∨ fillsOf pushes = [] := by
  have hlen : ∀ done, (record (.ringBuffer cap) done).len =
      ((fillsOf done).rtake (max cap 1)).length := by
    intro done
    have h := ring_record cap done
    rw [len, h.mode, ← h.ring]
  constructor
  · intro h
    by_contra hcap
    obtain ⟨hzero, hne⟩ := not_or.mp hcap
    have hle := (h pushes List.prefix_rfl).len_le
    rw [hlen, List.rtake, List.length_drop] at hle
    have hpos := List.length_pos_of_ne_nil hne
    omega
  · intro hroom done hdone
    have h := ring_record cap done
    have hlong : cap ≠ 0 ∨ (fillsOf done).length = 0 := by
      refine hroom.imp_right fun hnone => ?_
      have hpre : fillsOf done <+: fillsOf pushes := hdone.filterMap _
      rw [hnone, List.prefix_nil] at hpre
      rw [hpre, List.length_nil]
    refine ⟨?_, ?_, h.totalTrades, h.totalFeesPaid⟩
    · rw [fillsIter_ring, List.rtake, List.rtake]
      congr 1
      omega
    · rw [hlen, List.rtake, List.length_drop]
      omega

/-- A ring of capacity 0 keeps a fill. -/
theorem keepsLast_zero :
    let f : TradeFill := ⟨0, 0, 100, 1, 2, 0, .buy, false⟩
    ¬∀ done, done <+: [LogPush.fill f] →
      KeepsLast 0 (fillsOf done) (record (.ringBuffer 0) done) := by
  intro f h
  have hlen := (h [.fill f] List.prefix_rfl).len_le
  exact absurd hlen (by decide)

end TradeLog

end Backtester
