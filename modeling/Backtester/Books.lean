import Backtester.Holdings
import Backtester.Posting

/-!
# The books balance

Positions at average cost are kept three times : by the account, by the statistics of the log,
and by whoever replays the logged fills. `Holdings` is what all three mean. A fill changes
the three in the same way and realises the same PnL, so they agree after any journal of entries
(`Ledger.Kept`), saturating or not. When no running sum leaves `i64`, the saturating totals are
sums, and the books balance (`Engine.books_balance`).
-/

open Run MachineInt Std

set_option linter.unusedSectionVars false

namespace Backtester

namespace Account

/-- The account follows a fill of one of its orders. -/
theorem holdings_onFill (account : Account) {s : ℕ} {ts : ℤ} {f : Order × TradeFill}
    (hf : IsFill s ts f) (hqty : InRange 64 f.2.qty) :
    (account.onFill f.1 f.2.qty f.2.price).1.holdings = account.holdings.fill f.2 ∧
      (account.onFill f.1 f.2.qty f.2.price).2 = account.holdings.realised f.2 ∧
      (account.onFill f.1 f.2.qty f.2.price).1.totalFundingPnl = account.totalFundingPnl := by
  have hpos := hf.pos
  have hdelta : wrap 64 (f.1.side.signed f.2.qty) = f.2.side.signed f.2.qty := by
    rw [hf.side]
    refine wrap_eq_self (by norm_num) ?_
    obtain ⟨hl, hu⟩ := hqty
    cases f.1.side <;> simp only [Side.signed, InRange] <;> omega
  have hidle : Holdings.IsIdle f.2 ↔ f.2.side.signed f.2.qty = 0 :=
    or_iff_right (Int.not_le.2 hpos)
  have hsymbol : f.1.symbolId = f.2.symbolId := hf.order.trans hf.symbol.symm
  unfold Account.onFill
  rw [hdelta, hsymbol]
  by_cases hzero : f.2.side.signed f.2.qty = 0
  · rw [if_pos hzero, Holdings.fill, Holdings.realised, if_pos (hidle.2 hzero),
      if_pos (hidle.2 hzero)]
    exact ⟨rfl, rfl, rfl⟩
  · have hmoves : ¬Holdings.IsIdle f.2 := fun h => hzero (hidle.1 h)
    rw [if_neg hzero, Holdings.fill, Holdings.realised, if_neg hmoves, if_neg hmoves, getD_holdings]
    unfold Holding.fill Holding.realised Position.holding
    dsimp only
    split_ifs <;> exact ⟨holdings_insert _ _ _ _, rfl, rfl⟩

/-- Funding moves no position. -/
theorem holdings_applyFunding (account : Account) (event : FundingEvent) (markPrice : ℤ) :
    (account.applyFunding event markPrice).1.holdings = account.holdings := by
  unfold Account.applyFunding
  split
  · rfl
  · next p hp =>
    split_ifs
    · rfl
    · dsimp only
      rw [holdings_insert]
      refine Function.update_eq_self_iff.2 ?_
      simp only [holdings, hp, Option.map_some]
      rfl

theorem totalFundingPnl_applyFunding (account : Account) (event : FundingEvent) (markPrice : ℤ)
    (hrange : InRange 64 account.totalFundingPnl) :
    (account.applyFunding event markPrice).1.totalFundingPnl =
      satAddI64 account.totalFundingPnl (account.applyFunding event markPrice).2 := by
  have hzero : satAddI64 account.totalFundingPnl 0 = account.totalFundingPnl := by
    rw [satAddI64, Int.add_zero, clamp_eq_self hrange]
  unfold Account.applyFunding
  split
  · exact hzero.symm
  · split_ifs
    · exact hzero.symm
    · rfl

end Account

namespace IncrementalStats

theorem onFill_totals (stats : IncrementalStats) (f : TradeFill) :
    (stats.onFill f).totalPnl = stats.totalPnl ∧
      (stats.onFill f).totalFeesPaid = satAddI64 stats.totalFeesPaid f.fee := by
  unfold onFill
  dsimp only
  split_ifs <;> exact ⟨rfl, rfl⟩

theorem onPnl_totals (stats : IncrementalStats) (ts pnl : ℤ) (isTrade : Bool) :
    (stats.onPnl ts pnl isTrade).totalPnl = satAddI64 stats.totalPnl pnl ∧
      (stats.onPnl ts pnl isTrade).totalFeesPaid = stats.totalFeesPaid ∧
      (stats.onPnl ts pnl isTrade).posState = stats.posState := by
  have htrack : ∀ stats : IncrementalStats, (stats.trackEquity ts).totalPnl = stats.totalPnl ∧
      (stats.trackEquity ts).totalFeesPaid = stats.totalFeesPaid ∧
      (stats.trackEquity ts).posState = stats.posState := by
    intro stats
    unfold trackEquity
    dsimp only
    split_ifs <;> exact ⟨rfl, rfl, rfl⟩
  obtain ⟨hpnl, hfees, hpos⟩ := htrack _
  refine ⟨hpnl.trans ?_, hfees.trans ?_, hpos.trans ?_⟩ <;> dsimp only <;> split_ifs <;> rfl

end IncrementalStats

/-! ## Journals -/

/-- An entry of the PnL history. -/
structure Push where
  isTrade : Bool
  ts : ℤ
  pnl : ℤ
  deriving DecidableEq, Repr

namespace Ledger

variable {Q : Type} [QueueModel Q]

/-- What settling the fills pushes. -/
def pushesOf (ts : ℤ) : Account → List (Order × TradeFill) → List Push
  | _, [] => []
  | account, f :: fills =>
    ⟨true, ts, netPnl account f⟩ :: pushesOf ts (account.onFill f.1 f.2.qty f.2.price).1 fills

/-- What posting the entry pushes to the PnL history. -/
def pushes (L : Ledger Q) : Entry → List Push
  | .book _ ts fills => pushesOf ts L.account fills
  | .fund event =>
    match L.fundingPrice event.symbolId with
    | none => []
    | some markPrice =>
      [⟨false, event.tsExchange, (L.account.applyFunding event markPrice).2⟩]
  | _ => []

/-- What posting a journal pushes to the PnL history. -/
def pushed (L : Ledger Q) : List Entry → List Push
  | [] => []
  | entry :: journal => L.pushes entry ++ (L.post entry).pushed journal

/-- The entries one after the other. -/
def postAll (L : Ledger Q) (journal : List Entry) : Ledger Q := journal.foldl post L

variable {L L' : Ledger Q} {journal : List Entry} {logged settled : List TradeFill}
  {pushes : List Push} {s : ℕ} {ts : ℤ} {f : Order × TradeFill} {entry : Entry}

@[simp] theorem postAll_snoc (L : Ledger Q) (journal : List Entry) (entry : Entry) :
    L.postAll (journal ++ [entry]) = (L.postAll journal).post entry := by
  simp [postAll]

theorem pushed_snoc (L : Ledger Q) (journal : List Entry) (entry : Entry) :
    L.pushed (journal ++ [entry]) = L.pushed journal ++ (L.postAll journal).pushes entry := by
  induction journal generalizing L with
  | nil => exact List.append_nil _
  | cons first journal ih =>
    change _ ++ (L.post first).pushed (journal ++ [entry]) = _
    rw [ih]
    exact (List.append_assoc _ _ _).symm

/-- The ledger keeps the fills `logged`, of which `settled` are settled, and the entries
`pushes` of the PnL history. -/
structure Kept (logged settled : List TradeFill) (pushes : List Push) (L : Ledger Q) : Prop where
  mode : L.tradeLog.mode = .all
  fills : L.tradeLog.fills = logged
  history : L.tradeLog.pnlHistory = pushes.map fun p => (p.ts, p.pnl)
  stats : Holdings.of L.tradeLog.incremental.posState = Holdings.none.fills logged
  account : L.account.holdings = Holdings.none.fills settled
  trades : (pushes.filter (·.isTrade)).map Push.pnl =
    List.zipWith satSubI64 (Holdings.none.gross settled) (settled.map TradeFill.fee)
  totalPnl : L.tradeLog.incremental.totalPnl = satSum 64 (pushes.map Push.pnl)
  runningPnl : L.riskGuard.runningPnl = satSum 64 (pushes.map Push.pnl)
  fees : L.tradeLog.incremental.totalFeesPaid = satSum 64 (logged.map TradeFill.fee)
  funding : L.account.totalFundingPnl =
    satSum 64 ((pushes.filter (!·.isTrade)).map Push.pnl)

namespace Kept

theorem logFill (h : Kept logged settled pushes L) (f : Order × TradeFill) :
    Kept (logged ++ [f.2]) settled pushes (L.logFill f) := by
  obtain ⟨hpnl, hfees⟩ := L.tradeLog.incremental.onFill_totals f.2
  have hlog : (L.logFill f).tradeLog = { L.tradeLog with
      fills := L.tradeLog.fills ++ [f.2]
      incremental := L.tradeLog.incremental.onFill f.2 } := by
    simp only [Ledger.logFill, TradeLog.pushFill, h.mode]
  refine ⟨?_, ?_, ?_, ?_, h.account, h.trades, ?_, h.runningPnl, ?_, h.funding⟩
  · rw [hlog, h.mode]
  · rw [hlog, h.fills]
  · rw [hlog, h.history]
  · rw [hlog, Holdings.of_onFill, h.stats, Holdings.fills_snoc]
  · rw [hlog, hpnl, h.totalPnl]
  · rw [hlog, hfees, h.fees, List.map_append, List.map_singleton, satSum_snoc]
    rfl

theorem settle (h : Kept logged settled pushes L) (hf : IsFill s ts f)
    (hqty : InRange 64 f.2.qty) : Kept logged (settled ++ [f.2])
      (pushes ++ [⟨true, ts, netPnl L.account f⟩]) (L.settle ts f) := by
  obtain ⟨hholdings, hpnl, hfunding⟩ := L.account.holdings_onFill hf hqty
  obtain ⟨htotal, hfees, hpos⟩ :=
    L.tradeLog.incremental.onPnl_totals ts (netPnl L.account f) true
  have hlog : (L.settle ts f).tradeLog = { L.tradeLog with
      pnlHistory := L.tradeLog.pnlHistory ++ [(ts, netPnl L.account f)]
      incremental := L.tradeLog.incremental.onPnl ts (netPnl L.account f) true } := by
    simp only [Ledger.settle, TradeLog.pushPnlDelta, TradeLog.pushPnl, h.mode]
    rfl
  refine ⟨?_, ?_, ?_, ?_, ?_, ?_, ?_, ?_, ?_, ?_⟩
  · rw [hlog, h.mode]
  · rw [hlog, h.fills]
  · rw [hlog, h.history, List.map_append, List.map_singleton]
  · rw [hlog, hpos, h.stats]
  · rw [Holdings.fills_snoc, ← h.account]
    exact hholdings
  · rw [List.filter_append, List.map_append, h.trades, Holdings.gross_snoc, List.map_append,
      List.zipWith_append (by simp), ← h.account, ← hpnl]
    rfl
  · rw [hlog, htotal, h.totalPnl, List.map_append, List.map_singleton, satSum_snoc]
    rfl
  · rw [List.map_append, List.map_singleton, satSum_snoc, ← h.runningPnl]
    rfl
  · rw [hlog, hfees, h.fees]
  · rw [List.filter_append, List.map_append]
    exact hfunding.trans (h.funding.trans (by simp))

theorem fund (h : Kept logged settled pushes L) (event : FundingEvent) (markPrice : ℤ) :
    Kept logged settled
      (pushes ++ [⟨false, event.tsExchange, (L.account.applyFunding event markPrice).2⟩])
      (L.fund event markPrice) := by
  obtain ⟨htotal, hfees, hpos⟩ := L.tradeLog.incremental.onPnl_totals event.tsExchange
    (L.account.applyFunding event markPrice).2 false
  have hlog : (L.fund event markPrice).tradeLog = { L.tradeLog with
      pnlHistory := L.tradeLog.pnlHistory ++
        [(event.tsExchange, (L.account.applyFunding event markPrice).2)]
      incremental := L.tradeLog.incremental.onPnl event.tsExchange
        (L.account.applyFunding event markPrice).2 false } := by
    simp only [Ledger.fund, TradeLog.pushPnlEvent, TradeLog.pushPnl, h.mode]
    rfl
  refine ⟨?_, ?_, ?_, ?_, ?_, ?_, ?_, ?_, ?_, ?_⟩
  · rw [hlog, h.mode]
  · rw [hlog, h.fills]
  · rw [hlog, h.history, List.map_append, List.map_singleton]
  · rw [hlog, hpos, h.stats]
  · exact (L.account.holdings_applyFunding event markPrice).trans h.account
  · rw [List.filter_append, List.map_append, ← h.trades]
    exact List.append_nil _
  · rw [hlog, htotal, h.totalPnl, List.map_append, List.map_singleton, satSum_snoc]
    rfl
  · rw [List.map_append, List.map_singleton, satSum_snoc, ← h.runningPnl]
    rfl
  · rw [hlog, hfees, h.fees]
  · have hrange : InRange 64 L.account.totalFundingPnl := by
      rw [h.funding]
      exact satSum_inRange _ _
    rw [List.filter_append, List.map_append]
    change _ = satSum 64 (_ ++ [(L.account.applyFunding event markPrice).2])
    rw [satSum_snoc, ← h.funding]
    exact L.account.totalFundingPnl_applyFunding event markPrice hrange

/-- An entry that neither books fills nor pays funding leaves what is kept as it is. -/
theorem same (h : Kept logged settled pushes L) (hlog : L'.tradeLog = L.tradeLog)
    (haccount : L'.account = L.account) (hguard : L'.riskGuard = L.riskGuard) :
    Kept logged settled pushes L' :=
  ⟨hlog ▸ h.mode, hlog ▸ h.fills, hlog ▸ h.history, hlog ▸ h.stats, haccount ▸ h.account, h.trades,
    hlog ▸ h.totalPnl, hguard ▸ h.runningPnl, hlog ▸ h.fees, haccount ▸ h.funding⟩

theorem logFills (h : Kept logged settled pushes L) (fills : List (Order × TradeFill)) :
    Kept (logged ++ fills.map Prod.snd) settled pushes (fills.foldl Ledger.logFill L) ∧
      (fills.foldl Ledger.logFill L).account = L.account := by
  induction fills generalizing logged L with
  | nil => exact ⟨by simpa using h, rfl⟩
  | cons f fills ih =>
    obtain ⟨hkept, haccount⟩ := ih (h.logFill f)
    exact ⟨by simpa using hkept, haccount⟩

theorem settles (h : Kept logged settled pushes L) {fills : List (Order × TradeFill)}
    (hfills : ∀ f ∈ fills, IsFill s ts f ∧ InRange 64 f.2.qty) :
    Kept logged (settled ++ fills.map Prod.snd) (pushes ++ pushesOf ts L.account fills)
      (fills.foldl (Ledger.settle ts) L) := by
  induction fills generalizing settled pushes L with
  | nil => simpa [pushesOf] using h
  | cons f fills ih =>
    obtain ⟨hf, hqty⟩ := hfills f (by simp)
    have hkept := ih (h.settle hf hqty) fun g hg => hfills g (by simp [hg])
    rw [List.append_assoc, List.append_assoc] at hkept
    exact hkept

theorem post (h : Kept logged logged pushes L) (hsound : entry.Sound)
    (hqty : ∀ f ∈ entry.fills, InRange 64 f.qty) :
    Kept (logged ++ entry.fills) (logged ++ entry.fills) (pushes ++ L.pushes entry)
      (L.post entry) := by
  cases entry with
  | book s ts fills =>
    obtain ⟨hlogged, haccount⟩ := h.logFills fills
    have hfills : ∀ f ∈ fills, IsFill s ts f ∧ InRange 64 f.2.qty := fun f hf =>
      ⟨hsound f hf, hqty f.2 (List.mem_map_of_mem hf)⟩
    have hsettled := hlogged.settles hfills
    rw [haccount] at hsettled
    exact hsettled
  | fund event =>
    simp only [Ledger.post, Ledger.pushes, Entry.fills, List.append_nil]
    cases L.fundingPrice event.symbolId with
    | none => simpa using h
    | some markPrice => exact h.fund event markPrice
  | _ =>
    simp only [Ledger.pushes, Entry.fills, List.append_nil]
    exact h.same rfl rfl rfl

/-- What a new ledger keeps, having posted a journal. -/
theorem of_journal (queueModel : Q) {config : EngineConfig} (mode : config.tradeLogMode = .all)
    (hsound : ∀ entry ∈ journal, entry.Sound)
    (hqty : ∀ f ∈ journal.flatMap Entry.fills, InRange 64 f.qty) :
    Kept (journal.flatMap Entry.fills) (journal.flatMap Entry.fills)
      ((Ledger.new queueModel config).pushed journal)
      ((Ledger.new queueModel config).postAll journal) := by
  induction journal using List.reverseRecOn with
  | nil =>
    have hholdings : Holdings.of ∅ = Holdings.none := funext fun s => by
      simp [Holdings.of, Holdings.none]
    have haccount : Account.holdings {} = Holdings.none := funext fun s => by
      simp [Account.holdings, Holdings.none]
    exact ⟨mode, rfl, rfl, hholdings, haccount, rfl, rfl, rfl, rfl, rfl⟩
  | append_singleton journal entry ih =>
    rw [pushed_snoc, postAll_snoc, List.flatMap_append, List.flatMap_singleton]
    refine (ih (fun entry' h => hsound entry' (by simp [h])) fun f hf => hqty f ?_).post
      (hsound entry (by simp)) fun f hf => hqty f ?_
    · rw [List.flatMap_append]
      exact List.mem_append_left _ hf
    · rw [List.flatMap_append, List.flatMap_singleton]
      exact List.mem_append_right _ hf

end Kept

/-- A ledger that logs all fills has the fills of its journal in the log, whatever saturates. -/
theorem fills_postAll (queueModel : Q) {config : EngineConfig} (mode : config.tradeLogMode = .all)
    (journal : List Entry) : ((Ledger.new queueModel config).postAll journal).tradeLog.mode = .all ∧
      ((Ledger.new queueModel config).postAll journal).tradeLog.fills =
        journal.flatMap Entry.fills := by
  have hpush : ∀ (log : TradeLog) (ts pnl : ℤ) (isTrade : Bool),
      (log.pushPnl ts pnl isTrade).mode = log.mode ∧
        (log.pushPnl ts pnl isTrade).fills = log.fills := by
    intro log ts pnl isTrade
    unfold TradeLog.pushPnl
    split_ifs <;> exact ⟨rfl, rfl⟩
  have hlog : ∀ (fills : List (Order × TradeFill)) (L : Ledger Q), L.tradeLog.mode = .all →
      (fills.foldl logFill L).tradeLog.mode = .all ∧
        (fills.foldl logFill L).tradeLog.fills = L.tradeLog.fills ++ fills.map Prod.snd := by
    intro fills
    induction fills with
    | nil => exact fun L hmode => ⟨hmode, by simp⟩
    | cons f fills ih =>
      intro L hmode
      have hpushed : (L.logFill f).tradeLog.mode = .all ∧
          (L.logFill f).tradeLog.fills = L.tradeLog.fills ++ [f.2] := by
        simp [logFill, TradeLog.pushFill, hmode]
      obtain ⟨hmode', hfills⟩ := ih (L.logFill f) hpushed.1
      exact ⟨hmode', hfills.trans (by simp [hpushed.2])⟩
  have hsettle : ∀ (ts : ℤ) (fills : List (Order × TradeFill)) (L : Ledger Q),
      (fills.foldl (settle ts) L).tradeLog.mode = L.tradeLog.mode ∧
        (fills.foldl (settle ts) L).tradeLog.fills = L.tradeLog.fills := by
    intro ts fills
    induction fills with
    | nil => exact fun _ => ⟨rfl, rfl⟩
    | cons f fills ih =>
      intro L
      obtain ⟨hmode, hfills⟩ := hpush L.tradeLog ts (netPnl L.account f) true
      exact ⟨(ih (L.settle ts f)).1.trans hmode, (ih (L.settle ts f)).2.trans hfills⟩
  induction journal using List.reverseRecOn with
  | nil => exact ⟨mode, rfl⟩
  | append_singleton journal entry ih =>
    obtain ⟨hmode, hfills⟩ := ih
    rw [postAll_snoc, List.flatMap_append, List.flatMap_singleton, ← hfills]
    cases entry with
    | book s ts fills =>
      obtain ⟨hmode', hfills'⟩ := hlog fills _ hmode
      simp only [post, Entry.fills, (hsettle ts fills _).1, (hsettle ts fills _).2]
      exact ⟨hmode', hfills'⟩
    | fund event =>
      simp only [post, Entry.fills, List.append_nil]
      split
      · exact ⟨hmode, rfl⟩
      · exact ⟨(hpush _ _ _ _).1.trans hmode, (hpush _ _ _ _).2⟩
    | _ => simpa [post, Entry.fills, putExchange] using hmode

/-! ## Exact journals -/

/-- Nothing saturates or overflows when the journal is posted : the fills are of `i64`, and so are
the PnL of each fill net of its fee, and all running sums of fees, of funding, and of PnL. -/
structure Exact (L : Ledger Q) (journal : List Entry) : Prop where
  qty : ∀ f ∈ journal.flatMap Entry.fills, InRange 64 f.qty
  net : ∀ x ∈ (pnlDeltasFromFills (journal.flatMap Entry.fills)).zip (journal.flatMap Entry.fills),
    InRange 64 (x.1.pnl - x.2.fee)
  fees : ∀ pre, pre <+: (journal.flatMap Entry.fills).map TradeFill.fee → InRange 64 pre.sum
  pnl : ∀ pre, pre <+: (L.pushed journal).map Push.pnl → InRange 64 pre.sum
  funding : ∀ pre, pre <+: ((L.pushed journal).filter (!·.isTrade)).map Push.pnl →
    InRange 64 pre.sum

/-- The books of a ledger that posted the journal balance. -/
structure Balanced (L : Ledger Q) (pushes : List Push) : Prop where
  /-- The three copies of the positions. -/
  account : L.account.holdings = Holdings.of L.tradeLog.incremental.posState
  replay : L.account.holdings = Holdings.of (replayFills L.tradeLog.fills).1
  history : L.tradeLog.pnlHistory = pushes.map fun p => (p.ts, p.pnl)
  /-- The entry of a fill is what it realises, less its fee. -/
  trades : (pushes.filter (·.isTrade)).map Push.pnl =
    List.zipWith (fun d f => d.pnl - f.fee) (pnlDeltasFromFills L.tradeLog.fills) L.tradeLog.fills
  totalPnl : L.tradeLog.incremental.totalPnl =
    ((pnlDeltasFromFills L.tradeLog.fills).map PnlDelta.pnl).sum + L.account.totalFundingPnl -
      L.tradeLog.incremental.totalFeesPaid
  runningPnl : L.riskGuard.runningPnl = L.tradeLog.incremental.totalPnl

/-- Entries of either kind add up to all entries. -/
theorem sum_pushes (pushes : List Push) : (pushes.map Push.pnl).sum =
    ((pushes.filter (·.isTrade)).map Push.pnl).sum +
      ((pushes.filter (!·.isTrade)).map Push.pnl).sum := by
  induction pushes with
  | nil => rfl
  | cons p pushes ih =>
    cases hp : p.isTrade
    · simp only [List.map_cons, List.sum_cons, List.filter_cons, hp, ih]
      simp
      ring
    · simp only [List.map_cons, List.sum_cons, List.filter_cons, hp, ih]
      simp
      ring

/-- Entry by entry, what is realised less the fees adds up to the totals' difference. -/
theorem sum_zipWith_sub (l : List PnlDelta) (fills : List TradeFill)
    (hlength : l.length = fills.length) : (List.zipWith (fun d f => d.pnl - f.fee) l fills).sum =
      (l.map PnlDelta.pnl).sum - (fills.map TradeFill.fee).sum := by
  induction l generalizing fills with
  | nil =>
    obtain rfl := List.length_eq_zero_iff.1 hlength.symm
    rfl
  | cons d l ih =>
    obtain ⟨f, fills, rfl⟩ := List.exists_cons_of_length_eq_add_one hlength.symm
    have hrest := ih fills (by simpa using hlength)
    simp only [List.zipWith_cons_cons, List.sum_cons, List.map_cons, hrest]
    ring

/-- A ledger that has posted an exact journal has balanced books. -/
theorem Kept.balanced (h : Kept (journal.flatMap Entry.fills) (journal.flatMap Entry.fills)
    (L'.pushed journal) L) (exact : L'.Exact journal) : L.Balanced (L'.pushed journal) := by
  generalize hfills : journal.flatMap Entry.fills = fills at h
  have hnet := exact.net
  have hfees := exact.fees
  rw [hfills] at hnet hfees
  obtain ⟨hreplay, hgross⟩ := Holdings.of_replayFills fills
  have hlength : (pnlDeltasFromFills fills).length = fills.length := by
    rw [← Holdings.length_gross Holdings.none fills, ← hgross, List.length_map]
  have htrades : ((L'.pushed journal).filter (·.isTrade)).map Push.pnl =
      List.zipWith (fun d f => d.pnl - f.fee) (pnlDeltasFromFills fills) fills := by
    rw [h.trades, ← hgross, List.zipWith_map, ← List.map_uncurry_zip_eq_zipWith,
      ← List.map_uncurry_zip_eq_zipWith]
    exact List.map_congr_left fun x hx => clamp_eq_self (hnet x hx)
  have htotal := h.totalPnl
  have hfunding := h.funding
  have hpaid := h.fees
  rw [satSum_eq_sum exact.pnl] at htotal
  rw [satSum_eq_sum exact.funding] at hfunding
  rw [satSum_eq_sum hfees] at hpaid
  refine ⟨?_, ?_, h.history, ?_, ?_, h.runningPnl.trans h.totalPnl.symm⟩
  · rw [h.account, h.stats]
  · rw [h.account, h.fills, hreplay]
  · rw [h.fills, htrades]
  · rw [h.fills, htotal, hfunding, hpaid, sum_pushes, htrades, sum_zipWith_sub _ _ hlength]
    ring

end Ledger

/-! ## Runs -/

namespace Engine

variable {T U S L R : Type} {Q : Type} [QueueModel Q]

/-- The ledger an engine starts with. -/
def opening (e : Engine T U Q S L R) : Ledger Q := .new e.core.queueModel e.core.config

/-- The engine has posted the entries of the journal. -/
def HasPosted (e : Engine T U Q S L R) (journal : List Entry) : Prop :=
  (∀ entry ∈ journal, entry.Sound) ∧ e.core.ledger = e.opening.postAll journal

variable [TickSource T] [L3Source U] [Strategy S] [LatencyModel L R] [SeedableRng R]
  {e e' e₀ : Engine T U Q S L R} {st : Status (EngineError (Strategy.Error S))}
  {allowed : ℤ → EventKind → Prop}

/-- Every run keeps a journal. -/
theorem exists_journal (built : Built allowed e₀) (h : Reaches turn (External allowed) e₀ e st) :
    ∃ journal, e.HasPosted journal := by
  let I (config : EngineConfig) (L : Ledger Q) : Prop :=
    ∃ journal, (∀ entry ∈ journal, entry.Sound) ∧
      L = (Ledger.new L.queueModel config).postAll journal
  refine (configured_invariant (I := I) built h ?_ ?_ ?_).2
  · exact fun _ _ => ⟨[], by simp, rfl⟩
  · exact fun _ _ _ h => h
  · rintro config L entry - hentry ⟨journal, hsound, hposted⟩
    refine ⟨journal ++ [entry], fun x hx => ?_, ?_⟩
    · rcases List.mem_append.1 hx with hx | hx
      · exact hsound x hx
      · exact List.mem_singleton.1 hx ▸ hentry
    · rw [Ledger.postAll_snoc, L.queueModel_post, ← hposted]

/-- At every turn of a run that logs all fills, the engine has posted a journal; and whatever
journal it posted, if nothing saturated or overflowed when it did, the books balance. -/
theorem books_balance (built : Built allowed e₀) (h : Reaches turn (External allowed) e₀ e st)
    (mode : e.core.config.tradeLogMode = .all) : (∃ journal, e.HasPosted journal) ∧
      ∀ journal, e.HasPosted journal → e.opening.Exact journal →
        e.core.ledger.Balanced (e.opening.pushed journal) := by
  refine ⟨exists_journal built h, fun journal ⟨hsound, hposted⟩ hexact => ?_⟩
  have hkept := Ledger.Kept.of_journal e.core.queueModel mode hsound hexact.qty
  rw [hposted]
  exact hkept.balanced hexact

/-- Exactness can be read off the log. -/
theorem HasPosted.exact {journal : List Entry} (h : e.HasPosted journal)
    (mode : e.core.config.tradeLogMode = .all)
    (qty : ∀ f ∈ e.core.tradeLog.fills, InRange 64 f.qty)
    (net : ∀ x ∈ (pnlDeltasFromFills e.core.tradeLog.fills).zip e.core.tradeLog.fills,
      InRange 64 (x.1.pnl - x.2.fee))
    (fees : ∀ pre ∈ (e.core.tradeLog.fills.map TradeFill.fee).inits, InRange 64 pre.sum)
    (pnl : ∀ part ∈ (e.core.tradeLog.pnlHistory.map Prod.snd).sublists, InRange 64 part.sum) :
    e.opening.Exact journal := by
  obtain ⟨hsound, hposted⟩ := h
  have hfills : journal.flatMap Entry.fills = e.core.tradeLog.fills := by
    rw [← (Ledger.fills_postAll e.core.queueModel mode journal).2]
    exact (congrArg (·.tradeLog.fills) hposted).symm
  rw [← hfills] at qty net fees
  have hkept := Ledger.Kept.of_journal e.core.queueModel mode hsound qty
  have hhistory : e.core.tradeLog.pnlHistory.map Prod.snd =
      (e.opening.pushed journal).map Push.pnl := by
    have h := (congrArg (·.tradeLog.pnlHistory) hposted).trans hkept.history
    rw [show e.core.tradeLog.pnlHistory = _ from h, List.map_map]
    rfl
  rw [hhistory] at pnl
  have hsub : ∀ part : List ℤ, part.Sublist ((e.opening.pushed journal).map Push.pnl) →
      InRange 64 part.sum := fun part hpart => pnl part (List.mem_sublists.2 hpart)
  refine ⟨qty, net, fun pre hpre => fees pre ((List.mem_inits _ _).2 hpre),
    fun pre hpre => hsub pre hpre.sublist, fun pre hpre => hsub pre (hpre.sublist.trans ?_)⟩
  exact List.filter_sublist.map _

/-- A buy order of two is filled, a funding payment is made for the position, and a sell order
closes one at a profit. The books balance. -/
theorem books_balance_sample :
    let buy : Order := ⟨0, 0, 0, 0, 10000000000, 2, 1, .buy, .limit⟩
    let sell : Order := ⟨0, 0, 0, 0, 10600000000, 1, 1, .sell, .limit⟩
    let ticks : List Tick := [⟨1000, 0, 0, 10100000000, 1, 1, .buy, 0⟩,
      ⟨2000, 0, 1, 10000000000, 5, 1, .sell, 0⟩, ⟨4000, 0, 2, 10600000000, 1, 1, .buy, 0⟩]
    let e₀ := (sample { makerFeeBps := 100 } 10
      [[.submitOrder buy], [], [.submitOrder sell]] [ticks]).pushEvent 3000
        (.funding ⟨3000, 1000000, 1⟩)
    let e := (runFor turn 30 e₀).1
    e.core.tradeLog.pnlHistory = [(2000, -2), (3000, -2), (4000, 5)] ∧
      ∃ journal, e.HasPosted journal ∧ e.opening.Exact journal ∧
        e.core.ledger.Balanced (e.opening.pushed journal) := by
  intro buy sell ticks e₀ e
  have built : Built (fun _ _ => True) e₀ :=
    .external (.external (.new _ _ _ _ _) (.addTickSource ticks)) (.pushEvent trivial)
  have h : Reaches turn (External fun _ _ => True) e₀ e (runFor turn 30 e₀).2 :=
    reaches_runFor e₀ 30
  have mode : e.core.config.tradeLogMode = .all := by decide +kernel
  have history : e.core.tradeLog.pnlHistory =
    [(2000, -2), (3000, -2), (4000, 5)] := by decide +kernel
  have hqty : ∀ f ∈ e.core.tradeLog.fills, InRange 64 f.qty := by decide +kernel
  have hnet : ∀ x ∈ (pnlDeltasFromFills e.core.tradeLog.fills).zip e.core.tradeLog.fills,
      InRange 64 (x.1.pnl - x.2.fee) := by decide +kernel
  have hfees : ∀ pre ∈ (e.core.tradeLog.fills.map TradeFill.fee).inits, InRange 64 pre.sum := by
    decide +kernel
  have hpnl : ∀ part ∈ (e.core.tradeLog.pnlHistory.map Prod.snd).sublists, InRange 64 part.sum := by
    decide +kernel
  clear_value e₀
  obtain ⟨⟨journal, hposted⟩, hbalanced⟩ := books_balance built h mode
  have hexact : e.opening.Exact journal := hposted.exact mode hqty hnet hfees hpnl
  exact ⟨history, journal, hposted, hexact, hbalanced journal hposted hexact⟩

end Engine

end Backtester
