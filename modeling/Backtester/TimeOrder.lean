import Backtester.Clock
import Backtester.Posting
import Backtester.Stats

/-!
# The order of time

On the clock, events are popped in the order of their timestamps. What a turn logs, it logs at the
time of the event it popped, so the log is in order too (`TradeLog.Until`).
-/

open Run StableSort Std

set_option linter.unusedSectionVars false

namespace Backtester

/-! ## A log in order -/

/-- The log is in the order of time, and has nothing after `t`. -/
structure TradeLog.Until (t : ℤ) (log : TradeLog) : Prop where
  fills : SortedBy TradeFill.tsExchange log.fills ∧ ∀ f ∈ log.fills, f.tsExchange ≤ t
  ring : SortedBy TradeFill.tsExchange log.fillsRing ∧ ∀ f ∈ log.fillsRing, f.tsExchange ≤ t
  history : SortedBy Prod.fst log.pnlHistory ∧ ∀ p ∈ log.pnlHistory, p.1 ≤ t

/-- A list in order with nothing after `t` takes an element at `t`. -/
theorem sortedBy_snoc {α : Type} {key : α → ℤ} {l : List α} {a : α} {t : ℤ}
    (h : SortedBy key l ∧ ∀ b ∈ l, key b ≤ t) (ha : key a = t) :
    SortedBy key (l ++ [a]) ∧ ∀ b ∈ l ++ [a], key b ≤ t := by
  refine ⟨List.pairwise_append.2 ⟨h.1, List.pairwise_singleton _ a, fun b hb c hc => ?_⟩,
    fun b hb => ?_⟩
  · obtain rfl := List.mem_singleton.1 hc
    exact (h.2 b hb).trans ha.ge
  · rcases List.mem_append.1 hb with hb | hb
    · exact h.2 b hb
    · obtain rfl := List.mem_singleton.1 hb
      exact ha.le

namespace TradeLog.Until

variable {t t' : ℤ} {log : TradeLog}

theorem mono (h : log.Until t) (hle : t ≤ t') : log.Until t' :=
  ⟨⟨h.fills.1, fun f hf => (h.fills.2 f hf).trans hle⟩,
    ⟨h.ring.1, fun f hf => (h.ring.2 f hf).trans hle⟩,
    ⟨h.history.1, fun p hp => (h.history.2 p hp).trans hle⟩⟩

theorem pushFill (h : log.Until t) {fill : TradeFill} (hfill : fill.tsExchange = t) :
    (log.pushFill fill).Until t := by
  unfold TradeLog.pushFill
  split
  · exact ⟨sortedBy_snoc h.fills hfill, h.ring, h.history⟩
  · next cap _ =>
    -- a full ring drops its oldest fill
    have hring : ∀ ring : List TradeFill, ring.Sublist log.fillsRing →
        SortedBy TradeFill.tsExchange ring ∧ ∀ f ∈ ring, f.tsExchange ≤ t := fun ring hsub =>
      ⟨List.Pairwise.sublist hsub h.ring.1, fun f hf => h.ring.2 f (hsub.subset hf)⟩
    dsimp only
    split_ifs
    · exact ⟨h.fills, sortedBy_snoc (hring _ (List.tail_sublist _)) hfill, h.history⟩
    · exact ⟨h.fills, sortedBy_snoc h.ring hfill, h.history⟩
  · exact ⟨h.fills, h.ring, h.history⟩
  · exact h

theorem pushPnl (h : log.Until t) (pnl : ℤ) (isTrade : Bool) :
    (log.pushPnl t pnl isTrade).Until t := by
  unfold TradeLog.pushPnl
  split_ifs
  · exact h
  · exact ⟨h.fills, h.ring, sortedBy_snoc h.history rfl⟩

theorem fillsIter (h : log.Until t) : SortedBy TradeFill.tsExchange log.fillsIter := by
  unfold TradeLog.fillsIter
  split
  · exact h.fills.1
  · exact h.ring.1
  · exact List.Pairwise.nil

end TradeLog.Until

/-- The curve has the times of the deltas. -/
theorem times_equityCurve (deltas : List (ℤ × ℤ)) :
    (equityCurveFromPnlDeltas deltas).map Prod.fst = deltas.map Prod.fst := by
  unfold equityCurveFromPnlDeltas
  induction deltas using List.reverseRecOn with
  | nil => rfl
  | append_singleton deltas d ih => simpa using ih

namespace Ledger

variable {Q : Type} [QueueModel Q] {L L' : Ledger Q} {new : List Effect} {kind : EventKind} {t : ℤ}
  {symbol : Option ℕ}

/-- What is logged in a turn, is logged when the event is due. -/
theorem Turned.until (h : Turned (Entry.Suits kind t symbol) L new L')
    (hfunding : ∀ event, kind = .funding event → event.tsExchange = t)
    (huntil : L.tradeLog.Until t) :
    L'.tradeLog.Until t := by
  obtain ⟨entries, hentries, rfl⟩ := h.entries
  refine List.foldlRecOn entries Ledger.post (motive := fun L : Ledger Q => L.tradeLog.Until t)
    huntil fun L huntil entry hmem => ?_
  have hdue : (∀ f ∈ entry.fills, f.tsExchange = t) ∧ ∀ ts, entry.time = some ts → ts = t := by
    rcases hentries entry hmem with hsuits | ⟨ts, order, rfl⟩
    · cases entry with
      | book s ts fills =>
        obtain ⟨-, rfl, hfills⟩ := hsuits
        refine ⟨fun f hf => ?_, fun ts' h => (Option.some.inj h).symm⟩
        obtain ⟨f', hf', rfl⟩ := List.mem_map.1 hf
        exact (hfills f' hf').time
      | fund event =>
        exact ⟨by simp [Entry.fills], fun ts h => (Option.some.inj h).symm.trans
          (hfunding event hsuits)⟩
      | _ => exact ⟨by simp [Entry.fills], by simp [Entry.time]⟩
    · exact ⟨by simp [Entry.fills], by simp [Entry.time]⟩
  refine post_log (J := fun log _ => log.Until t) L entry ?_ ?_ huntil
  · exact fun log _ f hf h => h.pushFill (hdue.1 f hf)
  · rintro log guard ts pnl isTrade hts h
    obtain rfl := hdue.2 ts hts
    exact h.pushPnl pnl isTrade

end Ledger

/-! ## Runs -/

namespace EventKind

/-- What may be pushed before a run : background events, and funding at its own time. -/
def IsPunctual (ts : ℤ) (kind : EventKind) : Prop :=
  kind.isBackground = true ∧ ∀ event, kind = .funding event → event.tsExchange = ts

end EventKind

namespace Engine

variable {T U Q S L R : Type} [QueueModel Q] [TickSource T] [L3Source U] [Strategy S]
  [LatencyModel L R] {e e₀ : Engine T U Q S L R} {st : Status (EngineError (Strategy.Error S))}
  {l3s l3s' : List (List L3Update)} {tks tks' : List (List Tick)}
  {r : Engine T U Q S L R × Status (EngineError (Strategy.Error S))}

/-- Funding is due when it is scheduled, and what is logged was logged when an event was popped. -/
structure Chronicle (e : Engine T U Q S L R) : Prop where
  filed : e.core.ledger.Filed
  funding : ∀ ts event, .scheduled ts (.funding event) ∈ e.trace → event.tsExchange = ts
  logged : ∀ t, (∀ x ∈ poppedIn EventKind.any e.trace, x.1 ≤ t) → e.core.tradeLog.Until t

namespace Chronicle

/-- Work schedules no funding. -/
theorem funding_of_work {l new : List Effect}
    (h : ∀ ts event, .scheduled ts (.funding event) ∈ l → event.tsExchange = ts)
    (hwork : ∀ x ∈ new, x.isWork = true) :
    ∀ ts event, .scheduled ts (.funding event) ∈ l ++ new → event.tsExchange = ts := by
  intro ts event hmem
  rcases List.mem_append.1 hmem with hmem | hmem
  · exact h ts event hmem
  · cases hwork _ hmem

theorem ingest (h : e.Chronicle) (r : Record) : (e.schedule r).Chronicle := by
  obtain ⟨rest, htrace, hrest⟩ := trace_schedule e r
  refine ⟨?_, fun ts event hmem => ?_, fun t ht => ?_⟩
  · rw [core_schedule]
    exact h.filed
  · rw [htrace] at hmem
    rcases List.mem_append.1 hmem with hmem | hmem
    · exact h.funding ts event hmem
    · rcases List.mem_cons.1 hmem with hmem | hmem
      · cases hmem
      · rcases hrest _ hmem with hx | ⟨y, hy, hx⟩
        · cases hx
        · cases r <;> simp [Record.events] at hy <;> grind
  · rw [poppedIn_schedule] at ht
    rw [core_schedule]
    exact h.logged t ht

theorem dispatch (h : e.Chronicle) (event : Event)
    (hpast : ∀ x ∈ poppedIn EventKind.any e.trace, x.1 ≤ event.tsSim)
    (hdue : Core.workTime event.kind event.tsSim = event.tsSim)
    (hfunding : ∀ f, event.kind = .funding f → f.tsExchange = event.tsSim) :
    (e.dispatch event).1.Chronicle := by
  obtain ⟨new, hworks, -⟩ := dispatch_spec e event
  obtain ⟨_, -, hturned⟩ := turned_dispatch h.filed event
  obtain ⟨hfiled, -⟩ := hturned.invariant (I := fun _ => True) (fun _ => Entry.Suits.sound)
    (fun _ _ _ _ _ => trivial) h.filed trivial
  have htrace : (e.popped event).trace = e.trace ++ [.popped event e.core.activeBatchTimerId] := rfl
  refine ⟨hfiled, ?_, fun t ht => ?_⟩
  · rw [hworks.trace]
    refine funding_of_work (fun ts f hmem => ?_) hworks.isWork
    rw [htrace] at hmem
    rcases List.mem_append.1 hmem with hmem | hmem
    · exact h.funding ts f hmem
    · cases List.mem_singleton.1 hmem
  · have hnow : (event.tsSim, event.kind) ∈ poppedIn EventKind.any (e.dispatch event).1.trace := by
      rw [hworks.poppedIn_trace, htrace, poppedIn_append, poppedIn_singleton]
      exact List.mem_append_right _ (List.mem_singleton_self _)
    have huntil := h.logged event.tsSim hpast
    rw [suits, hdue] at hturned
    exact (hturned.until hfunding huntil).mono (ht _ hnow)

theorem flush (h : e.Chronicle) : e.flush.1.Chronicle := by
  obtain ⟨new, hworks, -⟩ := flush_spec e
  obtain ⟨_, -, hcommanded⟩ := commanded_flush e
  -- a flush posts orders only, as a timer might
  have hturned : ∀ t, Ledger.Turned (Entry.Suits (.timer 0) t none) e.core.ledger _
      e.flush.1.core.ledger := fun _ => hcommanded.turned
  obtain ⟨hfiled, -⟩ := (hturned 0).invariant (I := fun _ => True) (fun _ => Entry.Suits.sound)
    (fun _ _ _ _ _ => trivial) h.filed trivial
  refine ⟨hfiled, hworks.trace ▸ funding_of_work h.funding hworks.isWork, fun t ht => ?_⟩
  rw [hworks.poppedIn_trace] at ht
  exact (hturned t).until (by simp) (h.logged t ht)

theorem turn (h : e.Chronicle) (hclock : e.Clock l3s tks) (hturn : Turn e l3s tks r l3s' tks') :
    r.1.Chronicle := by
  have hsources : ∀ {e : Engine T U Q S L R} ticks l3, e.Chronicle →
      (e.withSources ticks l3).Chronicle :=
    fun _ _ h => ⟨h.filed, h.funding, h.logged⟩
  cases hturn with
  | ingest ticks l3 pick due => exact hsources ticks l3 (h.ingest _)
  | @event event queue ticks l3 pop later =>
    have hqueue : ((e.withSources ticks l3).withQueue queue).Chronicle :=
      ⟨h.filed, h.funding, h.logged⟩
    refine hqueue.dispatch event (hclock.popped_le_tsSim pop) (hclock.workTime_of_pop pop)
      fun f hkind => h.funding _ _ ?_
    have hmem : (event.tsSim, event.kind) ∈ e.queue.waiting EventKind.any := by
      rw [EventQueue.waiting_pop pop]
      exact List.mem_cons_self
    exact hkind ▸ (mem_scheduledIn.1 ((hclock.agenda _).scheduled_of_waiting hmem)).2
  | flush ticks l3 pop later buffered => exact (hsources ticks l3 h).flush
  | finish ticks l3 pop later unbuffered => exact hsources ticks l3 h

end Chronicle

/-- An engine that has not run yet has nothing logged. -/
theorem Built.chronicle [SeedableRng R] (h : Built EventKind.IsPunctual e) : e.Chronicle := by
  induction h with
  | new queueModel strategy config latencyModel currentBatchNs =>
    refine ⟨Ledger.filed_new queueModel config, by simp [Engine.new], fun t _ => ?_⟩
    exact ⟨⟨.nil, by simp [Engine.new, TradeLog.new]⟩, ⟨.nil, by simp [Engine.new, TradeLog.new]⟩,
      ⟨.nil, by simp [Engine.new, TradeLog.new]⟩⟩
  | external _ hext ih =>
    cases hext with
    | addTickSource source => exact ⟨ih.filed, ih.funding, ih.logged⟩
    | addL3Source source =>
      exact ⟨ih.filed.post (.markL3Depth (L3Source.symbolId source)) trivial, ih.funding, ih.logged⟩
    | @pushEvent ts kind hallowed =>
      refine ⟨ih.filed, fun ts' event hmem => ?_, fun t ht => ih.logged t ?_⟩
      · rcases List.mem_append.1 hmem with hmem | hmem
        · exact ih.funding ts' event hmem
        · obtain ⟨rfl, rfl⟩ : ts' = ts ∧ .funding event = kind := by simpa using hmem
          exact hallowed.2 event rfl
      · simpa [poppedIn] using ht

/-- The clock never runs backwards : events are popped, fills are made and PnL is logged in the
order of time, and so is the equity curve. -/
theorem clock_monotone [SeedableRng R] (built : Built EventKind.IsPunctual e₀)
    (feeds : e₀.Feeds l3s tks) (paced : e₀.Paced l3s tks) (h : Reaches turn closed e₀ e st)
    (hno : Effect.overflow ∉ e.trace) :
    SortedBy Prod.fst (poppedIn EventKind.any e.trace) ∧
      SortedBy TradeFill.tsExchange e.core.tradeLog.fillsIter ∧
      SortedBy Prod.fst e.core.tradeLog.pnlHistory ∧
      SortedBy Prod.fst (equityCurveFromPnlDeltas e.core.tradeLog.pnlHistory) := by
  have hbackground := built.mono fun _ _ h => h.1
  obtain ⟨l3s', tks', -, hclock, hchronicle⟩ :=
    clocked_invariant (I := fun e _ _ _ => e.Chronicle) h
      feeds (hbackground.clock paced) built.chronicle
      (fun e l3s tks r l3s' tks' hclock h hturn _ => h.turn hclock hturn) hno
  have huntil := hchronicle.logged _ hclock.now
  refine ⟨(hclock.agenda _).sorted_popped, huntil.fillsIter, huntil.history.1, ?_⟩
  have hcurve : ∀ l : List (ℤ × ℤ), SortedBy Prod.fst l ↔ (l.map Prod.fst).Pairwise (· ≤ ·) :=
    fun l => List.pairwise_map.symm
  rw [hcurve, times_equityCurve, ← hcurve]
  exact huntil.history.1

/-- Funding is paid, and an order filled, in the order of time. -/
theorem clock_monotone_sample :
    let order : Order := ⟨0, 0, 0, 0, 10000000000, 2, 1, .buy, .limit⟩
    let first : Tick := ⟨1000, 0, 0, 10100000000, 1, 1, .buy, 0⟩
    let second : Tick := ⟨2000, 0, 1, 10000000000, 5, 1, .sell, 0⟩
    let e₀ := (sample { makerFeeBps := 100 } 10 [[.submitOrder order]] [[first, second]]).pushEvent
      3000 (.funding ⟨3000, 100000000, 1⟩)
    let e := (runFor turn 20 e₀).1
    e.core.tradeLog.pnlHistory = [(2000, -2), (3000, -200)] ∧
      SortedBy Prod.fst (equityCurveFromPnlDeltas e.core.tradeLog.pnlHistory) := by
  intro order first second e₀ e
  have built : Built EventKind.IsPunctual e₀ :=
    .external (.external (.new _ _ _ _ _) (.addTickSource [first, second]))
      (.pushEvent ⟨rfl, by rintro event ⟨⟩; rfl⟩)
  have feeds : e₀.Feeds [] [[first, second]] :=
    ((feeds_new _ _ _ _ _).addTickSource (yields_list _)).pushEvent _ _
  have paced : e₀.Paced [] [[first, second]] :=
    ⟨by decide +kernel, by decide +kernel, by decide, by decide⟩
  have run : Reaches turn closed e₀ e (runFor turn 20 e₀).2 := reaches_runFor e₀ 20
  have hno : Effect.overflow ∉ e.trace := by decide +kernel
  exact ⟨by decide +kernel, (clock_monotone built feeds paced run hno).2.2.2⟩

end Engine

end Backtester
