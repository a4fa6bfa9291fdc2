import Backtester.Ingestion

/-!
# Market truth is a stable merge

The records of all sources reach the exchange in one order : the stable sort by
`(ts_exchange, seq)` of the L3 sources followed by the tick sources. At every moment the
truth events popped so far, then those in the queue, then the merge of what the sources still
hold, make up the whole merge (`TruthMerge`). The queue pops the truth events in the order they are
taken in, since that order is sorted by time and later events of one timestamp queue
behind. What the strategy does, and how late anything is, does not enter.
-/

open Run StableSort

set_option linter.unusedSectionVars false

namespace Backtester

/-- The events by which the exchange sees the market. -/
def EventKind.isTruth : EventKind → Bool
  | .tick _ | .l3Update _ => true
  | _ => false

theorem EventKind.isMarket_of_isTruth (kind : EventKind) (h : kind.isTruth = true) :
    kind.isMarket = true := by
  cases kind <;> simp_all [isTruth, isMarket]

namespace Engine

variable {T U Q S L R : Type} [QueueModel Q] [TickSource T] [L3Source U]

/-- The truth events of the whole merge. -/
def truthOf (l3s : List (List L3Update)) (tks : List (List Tick)) : List (ℤ × EventKind) :=
  (KWayMerge.merge Record.key (records l3s tks)).map Record.event

/-- What was popped, what is queued and what the sources still hold make up `all`. -/
def TruthMerge (all : List (ℤ × EventKind)) (e : Engine T U Q S L R) (l3s : List (List L3Update))
    (tks : List (List Tick)) : Prop :=
  poppedIn EventKind.isTruth e.trace ++ e.queue.waiting EventKind.isTruth ++ truthOf l3s tks = all

variable {e : Engine T U Q S L R} {l3s l3s' : List (List L3Update)} {tks tks' : List (List Tick)}

theorem sortedBy_truthOf (h : ∀ l ∈ records l3s tks, SortedBy Record.key l) :
    SortedBy Prod.fst (truthOf l3s tks) := by
  have hts : ∀ a b : Record, a.key ≤ b.key → a.tsExchange ≤ b.tsExchange := by
    intro a b hab
    rcases Prod.Lex.le_iff.1 hab with hlt | ⟨heq, -⟩
    · exact hlt.le
    · exact heq.le
  have hsorted : SortedBy Record.tsExchange (KWayMerge.merge Record.key (records l3s tks)) :=
    KWayMerge.sortedBy_merge hts fun l hl => (h l hl).imp fun hab => hts _ _ hab
  refine List.pairwise_map.2 (hsorted.imp fun {a b} hab => ?_)
  cases a <;> cases b <;> exact hab

theorem truthOf_eq_sortBy (h : ∀ l ∈ records l3s tks, SortedBy Record.key l) :
    truthOf l3s tks = (sortBy Record.key (records l3s tks).flatten).map Record.event := by
  rw [truthOf, KWayMerge.merge_eq_sortBy h]

theorem mem_truthOf {l : List Record} (hl : l ∈ records l3s tks) {r : Record} (hr : r ∈ l) :
    r.event ∈ truthOf l3s tks :=
  List.mem_map_of_mem ((KWayMerge.merge_perm _ _).mem_iff.2 (List.mem_flatten.2 ⟨l, hl, hr⟩))

theorem filter_events (r : Record) (config : EngineConfig) :
    (r.events config).filter (EventKind.isTruth ·.2) = [r.event] := by
  cases r <;> rfl

/-- A record that is not earlier than the queued truth events queues behind them. -/
theorem truth_schedule {r : Record}
    (h : ∀ x ∈ e.queue.waiting EventKind.isTruth, x.1 ≤ r.event.1) :
    (e.schedule r).queue.waiting EventKind.isTruth =
      e.queue.waiting EventKind.isTruth ++ [r.event] := by
  rw [waiting_schedule, filter_events]
  exact insertLast_eq_append h

namespace TruthMerge

variable {all : List (ℤ × EventKind)} {r : Record}

theorem ingest (h : TruthMerge all e l3s tks) (hall : SortedBy Prod.fst all)
    (hpick : KWayMerge.pick Record.key (records l3s tks) = some (r, records l3s' tks'))
    (ticks : SourceQueue T) (l3 : SourceQueue U) :
    TruthMerge all ((e.schedule r).withSources ticks l3) l3s' tks' := by
  have hmerge : truthOf l3s tks = r.event :: truthOf l3s' tks' := by
    rw [truthOf, KWayMerge.merge_cons hpick]
    rfl
  have hle : ∀ x ∈ e.queue.waiting EventKind.isTruth, x.1 ≤ r.event.1 := by
    intro x hx
    rw [← h, hmerge] at hall
    exact (List.pairwise_append.1 hall).2.2 x (by simp [hx]) r.event (by simp)
  have hwait := truth_schedule hle
  unfold TruthMerge at h ⊢
  calc
    _ = poppedIn EventKind.isTruth e.trace ++
        (e.queue.waiting EventKind.isTruth ++ [r.event]) ++ truthOf l3s' tks' := by
      rw [← poppedIn_schedule e r, ← hwait]
      rfl
    _ = all := by
      rw [← h, hmerge]
      simp

variable [Strategy S] [LatencyModel L R]

theorem event {ev : Event} {queue : EventQueue} (h : TruthMerge all e l3s tks)
    (pop : e.queue.pop = some (ev, queue)) (ticks : SourceQueue T) (l3 : SourceQueue U) :
    TruthMerge all (((e.withSources ticks l3).withQueue queue).dispatch ev).1 l3s tks := by
  unfold TruthMerge at h ⊢
  rw [dispatch_market pop ticks l3 EventKind.isMarket_of_isTruth, h]

theorem flush (h : TruthMerge all e l3s tks) (ticks : SourceQueue T) (l3 : SourceQueue U) :
    TruthMerge all (e.withSources ticks l3).flush.1 l3s tks := by
  obtain ⟨new, hw, -⟩ := flush_spec (e.withSources ticks l3)
  unfold TruthMerge at h ⊢
  rw [hw.poppedIn_trace, hw.waiting_market EventKind.isMarket_of_isTruth]
  exact h

/-- With nothing queued and every record left later than `i64::MAX`, all is popped. -/
theorem complete (h : TruthMerge all e l3s tks) (pop : e.queue.pop = none)
    (hmax : ∀ x ∈ all, x.1 ≤ i64Max)
    (later : ∀ l ∈ records l3s tks, ∀ r ∈ l.head?, i64Max < r.tsExchange) :
    poppedIn EventKind.isTruth e.trace = all := by
  have hnil : (records l3s tks).flatten = [] := by
    refine List.flatten_eq_nil_iff.2 fun l hl => ?_
    cases l with
    | nil => rfl
    | cons r l =>
      have hmem : r.event ∈ all := by
        rw [← h]
        simp [mem_truthOf hl (List.mem_cons_self)]
      have hle := hmax _ hmem
      have hlt := later _ hl r rfl
      cases r <;> exact absurd hle (not_le.2 hlt)
  have hwait : e.queue.waiting EventKind.isTruth = [] := by
    simp [EventQueue.waiting, EventQueue.pop_eq_none.1 pop]
  have htruth : truthOf l3s tks = [] := by
    rw [truthOf, KWayMerge.merge_nil hnil, List.map_nil]
  rw [← h, hwait, htruth, List.append_nil, List.append_nil]

end TruthMerge

variable [Strategy S] [LatencyModel L R] [SeedableRng R]

/-- The truth events the engine pops are a prefix of the stable sort of all records, and all of
it when the run is finished; no run fails over a source. -/
theorem truth_is_merge {e₀ : Engine T U Q S L R} {st : Status (EngineError (Strategy.Error S))}
    (built : Built (fun _ kind => kind.isTruth = false) e₀) (feeds : e₀.Feeds l3s tks)
    (sorted : ∀ l ∈ records l3s tks, SortedBy Record.key l)
    (i64 : ∀ l ∈ records l3s tks, ∀ r ∈ l, r.tsExchange ≤ i64Max)
    (run : Reaches turn closed e₀ e st) :
    poppedIn EventKind.isTruth e.trace <+:
        (sortBy Record.key (records l3s tks).flatten).map Record.event ∧
      (st = .finished → poppedIn EventKind.isTruth e.trace =
        (sortBy Record.key (records l3s tks).flatten).map Record.event) ∧
      ∀ err, st = .failed err → err.ofHandler := by
  rw [← truthOf_eq_sortBy sorted]
  have hsorted := sortedBy_truthOf sorted
  have hmax : ∀ x ∈ truthOf l3s tks, x.1 ≤ i64Max := by
    intro x hx
    obtain ⟨r, hr, rfl⟩ := List.mem_map.1 hx
    obtain ⟨l, hl, hrl⟩ := List.mem_flatten.1 ((KWayMerge.merge_perm _ _).mem_iff.1 hr)
    cases r <;> exact i64 l hl _ hrl
  have start : TruthMerge (truthOf l3s tks) e₀ l3s tks := by
    unfold TruthMerge
    rw [built.poppedIn_trace, built.waiting fun _ _ h => h]
    rfl
  generalize truthOf l3s tks = all at hsorted hmax start ⊢
  let I (e : Engine T U Q S L R) (st : Status (EngineError (Strategy.Error S)))
      (l3s : List (List L3Update)) (tks : List (List Tick)) : Prop :=
    TruthMerge all e l3s tks ∧ (st = .finished → poppedIn EventKind.isTruth e.trace = all) ∧
      ∀ err, st = .failed err → err.ofHandler
  have step : ∀ e l3s tks r l3s' tks', I e .running l3s tks → Turn e l3s tks r l3s' tks' →
      I r.1 r.2 l3s' tks' := by
    rintro e l3s tks r l3s' tks' ⟨h, -, -⟩ hturn
    cases hturn with
    | ingest ticks l3 pick due => exact ⟨h.ingest hsorted pick ticks l3, by simp, by simp⟩
    | event ticks l3 pop later =>
      exact ⟨h.event pop ticks l3, fun hf => absurd hf (statusOf_ne_finished _),
        fun err hf => ofHandler_of_dispatch (statusOf_eq_failed.1 hf)⟩
    | flush ticks l3 pop later buffered =>
      exact ⟨h.flush ticks l3, fun hf => absurd hf (statusOf_ne_finished _),
        fun err hf => ofHandler_of_flush (statusOf_eq_failed.1 hf)⟩
    | finish ticks l3 pop later unbuffered =>
      exact ⟨h, fun _ => h.complete pop hmax later, by simp⟩
  obtain ⟨l3s', tks', -, hmerge, hfinished, hfailed⟩ :=
    fed_invariant (I := I) run feeds ⟨start, by simp, by simp⟩ step
  refine ⟨⟨e.queue.waiting EventKind.isTruth ++ truthOf l3s' tks', ?_⟩, hfinished, hfailed⟩
  rw [← List.append_assoc]
  exact hmerge

/-- An L3 update and a tick at the same `(ts_exchange, seq)`, and a later tick. -/
theorem truth_is_merge_sample :
    let update : L3Update := ⟨1000, 0, 1, 7, 100, 5, .buy, l3Add⟩
    let first : Tick := ⟨1000, 0, 0, 100, 1, 1, .buy, 0⟩
    let second : Tick := ⟨2000, 0, 1, 101, 1, 1, .sell, 0⟩
    let e₀ := (sample {} 10 [] [[first, second]]).addL3Source ⟨1, [update]⟩
    poppedIn EventKind.isTruth (runFor turn 20 e₀).1.trace =
        [(1000, .l3Update update), (1000, .tick first), (2000, .tick second)] := by
  intro update first second e₀
  have built : Built (fun _ kind => kind.isTruth = false) e₀ :=
    .external (.external (.new _ _ _ _ _) (.addTickSource [first, second]))
      (.addL3Source (⟨1, [update]⟩ : VecL3Source))
  have feeds : e₀.Feeds [[update]] [[first, second]] :=
    ((feeds_new _ _ _ _ _).addTickSource (yields_list _)).addL3Source (yields_vec 1 _)
  have h := truth_is_merge built feeds (by decide) (by decide) (reaches_runFor e₀ 20)
  exact (h.2.1 (by decide +kernel)).trans (by decide +kernel)

end Engine

end Backtester
