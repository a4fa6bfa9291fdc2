import Backtester.Exposure
import Backtester.Streaming

/-!
# The events of a stream, pushed before the run

The bindings run several strategies over one stream by pushing its events, sorted by time, into each
engine before it runs. That gives the results of a run over the stream itself as long as no event of
the engine's own waits for the time of a tick that is taken in (`Engine.streamed_as_pushed`). Where
one does, the two runs number the events in different orders, and their results differ
(`Engine.streaming_not_materialized`).
-/

open Run StableSort History

set_option linter.unusedSectionVars false

namespace Backtester

/-- Booked fills are outcomes. -/
theorem filledIn_filter (l : List Effect) : filledIn (l.filter Effect.isOutcome) = filledIn l := by
  rw [filledIn, filledIn, List.filterMap_filter]
  refine List.filterMap_congr fun x _ => ?_
  cases x <;> rfl

/-- Calls are outcomes. -/
theorem reportsHanded_filter (l : List Effect) :
    reportsHanded (l.filter Effect.isOutcome) = reportsHanded l := by
  induction l with
  | nil => rfl
  | cons x l ih =>
    have hcons : ∀ l, reportsHanded (x :: l) = reportsHanded [x] ++ reportsHanded l := fun l => by
      simp [reportsHanded]
    rw [List.filter_cons, hcons l, ← ih]
    split_ifs with hx
    · exact hcons _
    · have hnone : reportsHanded [x] = [] := by
        cases x with
        | called call ts market => exact absurd rfl hx
        | _ => rfl
      rw [hnone, List.nil_append]

namespace Engine

variable {T U Q S L R : Type} [QueueModel Q] [TickSource T] [L3Source U] [Strategy S]
  [LatencyModel L R] [SeedableRng R]

/-- The events of a sorted stream, pushed before the run in the order of their times, lead to the
fills, the account and the reports to the strategy of the run that takes the ticks in as they become
due, as long as nothing else is scheduled for the times of a tick when it is taken in, and no tick
is delivered before it happened. -/
theorem streamed_as_pushed (queueModel : Q) (strategy : S) (config : EngineConfig)
    (latencyModel : L)
    (currentBatchNs : ℕ → ℤ) {source : T} {ticks : List Tick} (yields : Yields source ticks)
    (sorted : SortedBy Tick.tsExchange ticks)
    (causal : ∀ tick ∈ ticks, (Record.tick tick).IsCausal config)
    {e : Engine T U Q S L R} {st : Status (EngineError (Strategy.Error S))}
    (run : Reaches turn closed
      ((new queueModel strategy config latencyModel currentBatchNs).addTickSource source) e st)
    (untied : Always (Effect.Untied config) e.trace) :
    ∃ e' : Engine T U Q S L R, Reaches turn closed
        ((new queueModel strategy config latencyModel currentBatchNs).pushEvents
          (materialized config (ticks.map .tick))) e' st ∧
      filledIn e'.trace = filledIn e.trace ∧ e'.core.tradeLog = e.core.tradeLog ∧
      e'.core.account = e.core.account ∧ reportsHanded e'.trace = reportsHanded e.trace := by
  have hyields : List.Forall₂ Yields [source] [ticks] := .cons yields .nil
  obtain ⟨e', rest, hreaches, hlockstep⟩ := lockstep_of_run queueModel strategy config latencyModel
    currentBatchNs hyields (by simpa using sorted) (by simpa using causal) run untied
  have hmerge : KWayMerge.merge Record.key (records [] [ticks]) = ticks.map .tick :=
    KWayMerge.merge_singleton _
  rw [hmerge] at hreaches
  refine ⟨e', hreaches, ?_, congrArg Core.tradeLog hlockstep.core,
    congrArg Core.account hlockstep.core, ?_⟩
  · rw [← filledIn_filter, hlockstep.outcome, filledIn_filter]
  · rw [← reportsHanded_filter, hlockstep.outcome, reportsHanded_filter]

/-- An order of one at 100, sent at the first call. -/
def buyOnce : List (List Command) := [[.submitOrder ⟨0, 0, 0, 0, 100, 1, 1, .buy, .limit⟩]]

/-- A first tick, and a second one that is sold at its price. -/
def soldSecond : List Tick := [⟨1000, 0, 0, 100, 1, 1, .buy, 0⟩, ⟨2000, 0, 1, 100, 1, 1, .sell, 0⟩]

/-- A tick that is sold at its price, and a later one that is delivered before it. -/
def earlySecond : List Tick :=
  [⟨1000, 1000, 0, 100, 1, 1, .sell, 0⟩, ⟨2000, 500, 1, 100, 1, 1, .buy, 0⟩]

/-- The order that is sent at the first tick is acknowledged before the second tick, and filled by
it. -/
theorem streamed_as_pushed_sample :
    let e₀ := sample { orderUpdateLatencyNs := 30 } 10 buyOnce [soldSecond]
    let e := (runFor turn 20 e₀).1
    (filledIn e.trace).map TradeFill.qty = [1] ∧
      (reportsHanded e.trace).map OrderReport.status = [.open, .filled] ∧
      ∃ e' : Sample,
        Reaches turn closed ((sample { orderUpdateLatencyNs := 30 } 10 buyOnce []).pushEvents
          (materialized { orderUpdateLatencyNs := 30 } (soldSecond.map .tick))) e' .finished ∧
        filledIn e'.trace = filledIn e.trace ∧ reportsHanded e'.trace = reportsHanded e.trace := by
  intro e₀ e
  have run : Reaches turn closed e₀ e .finished := reaches_of_runFor 20 (by decide +kernel)
  have untied : Always (Effect.Untied { orderUpdateLatencyNs := 30 }) e.trace := by decide +kernel
  obtain ⟨e', hreaches, hfills, -, -, hreports⟩ := streamed_as_pushed (U := VecL3Source) (R := Unit)
    (⟨⟩ : ConservativeQueue) (⟨buyOnce⟩ : Scripted) { orderUpdateLatencyNs := 30 }
      (⟨10⟩ : ConstantLatency)
    (fun _ => 0) (yields_list soldSecond) (by decide) (by decide) run untied
  exact ⟨by decide +kernel, by decide +kernel, e', hreaches, hfills, hreports⟩

/-- The acknowledgement is due at the time of the second tick. The streaming engine has it in its
queue before it takes the tick in, so the tick fills the order. Where the events are pushed before,
the tick comes first. Nor does the streaming engine know of a tick that is delivered before it
happened. -/
theorem streaming_not_materialized :
    (let e := runFor turn 20 (sample {} 1000 buyOnce [soldSecond])
      let e' := runFor turn 20 ((sample {} 1000 buyOnce []).pushEvents
        (materialized {} (soldSecond.map .tick)))
      e.2 = .finished ∧ e'.2 = .finished ∧
        (filledIn e.1.trace).map TradeFill.qty = [1] ∧ filledIn e'.1.trace = [] ∧
        e.1.core.account.positionQty 1 = 1 ∧ e'.1.core.account.positionQty 1 = 0 ∧
        (reportsHanded e.1.trace).map OrderReport.status = [.open, .filled] ∧
        (reportsHanded e'.1.trace).map OrderReport.status = [.open]) ∧
    let e := runFor turn 20 (sample {} 10 buyOnce [earlySecond])
    let e' := runFor turn 20 ((sample {} 10 buyOnce []).pushEvents
      (materialized {} (earlySecond.map .tick)))
    e.2 = .finished ∧ e'.2 = .finished ∧
      filledIn e.1.trace = [] ∧ (filledIn e'.1.trace).map TradeFill.qty = [1] := by
  decide +kernel

end Engine

end Backtester
