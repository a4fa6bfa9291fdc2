import Backtester.Handlers

/-!
# Turns over finite sources

When the L3 sources yield the lists `l3s` and the tick sources the lists `tks` (`Feeds`),
a turn has four cases (`Turn`). It ingests the record that `KWayMerge.pick` takes from all
lists, L3 before ticks; or it handles the head of the queue, every record left being later; or
the queue is empty and it flushes; or the run is finished. `turn_spec` is what every result
about such runs starts from : no source fails, and no queued source is exhausted.
-/

open Run StableSort

set_option linter.unusedSectionVars false

namespace Backtester

/-! ## Records -/

namespace Record

/-- The exchange time of a record. -/
def tsExchange : Record → ℤ
  | .l3 update => update.tsExchange
  | .tick t => t.tsExchange

/-- The sequence number of a record. -/
def seq : Record → ℕ
  | .l3 update => update.seq
  | .tick t => t.seq

/-- Records are merged by `(ts_exchange, seq)`. -/
def key (r : Record) : ℤ ×ₗ ℕ := toLex (r.tsExchange, r.seq)

/-- The market truth event of a record. -/
def event : Record → ℤ × EventKind
  | .l3 update => (update.tsExchange, .l3Update update)
  | .tick t => (t.tsExchange, .tick t)

/-- The events that a record is scheduled as. -/
def events (config : EngineConfig) : Record → List (ℤ × EventKind)
  | .l3 update => [(update.tsExchange, .l3Update update)]
  | .tick t => [(t.tsExchange, .tick t),
      (Engine.deliveryTs config t, .tickDelivery (Engine.delivered config t))]

end Record

/-- The records of all sources, L3 sources first. -/
def records (l3s : List (List L3Update)) (tks : List (List Tick)) : List (List Record) :=
  l3s.map (·.map .l3) ++ tks.map (·.map .tick)

namespace Engine

variable {T U Q S L R : Type} [QueueModel Q] [TickSource T] [L3Source U]

/-- The sources of the engine yield the lists `l3s` and `tks`. -/
structure Feeds (e : Engine T U Q S L R) (l3s : List (List L3Update)) (tks : List (List Tick)) :
    Prop where
  l3 : e.l3.Holds l3s
  ticks : e.ticks.Holds tks

/-- A new engine has no sources. -/
theorem feeds_new [SeedableRng R] (queueModel : Q) (strategy : S) (config : EngineConfig)
    (latencyModel : L) (currentBatchNs : ℕ → ℤ) :
    (new queueModel strategy config latencyModel currentBatchNs : Engine T U Q S L R).Feeds [] [] :=
  ⟨SourceQueue.holds_empty, SourceQueue.holds_empty⟩

namespace Feeds

variable {e : Engine T U Q S L R} {l3s : List (List L3Update)} {tks : List (List Tick)}

/-- One more source gives one more list of ticks. -/
theorem addTickSource (h : e.Feeds l3s tks) {source : T} {l : List Tick} (hl : Yields source l) :
    (e.addTickSource source).Feeds l3s (tks ++ [l]) :=
  ⟨h.l3, h.ticks.add hl⟩

/-- One more source gives one more list of updates. -/
theorem addL3Source (h : e.Feeds l3s tks) {source : U} {l : List L3Update} (hl : Yields source l) :
    (e.addL3Source source).Feeds (l3s ++ [l]) tks :=
  ⟨h.l3.add hl, h.ticks⟩

/-- Pushing an event leaves the sources alone. -/
theorem pushEvent (h : e.Feeds l3s tks) (ts : ℤ) (kind : EventKind) :
    (e.pushEvent ts kind).Feeds l3s tks :=
  ⟨h.l3, h.ticks⟩

end Feeds

/-- Take in a record : its truth event, and for a tick its delivery. -/
def schedule (e : Engine T U Q S L R) (r : Record) : Engine T U Q S L R :=
  match r with
  | .l3 update => (e.log (.ingested r)).pushEvent update.tsExchange (.l3Update update)
  | .tick tick => (e.log (.ingested r)).scheduleTick tick

/-- The engine with other sources. -/
def withSources (e : Engine T U Q S L R) (ticks : SourceQueue T) (l3 : SourceQueue U) :
    Engine T U Q S L R :=
  { e with ticks := ticks, l3 := l3 }

/-! ## One pass of the ingestion loop -/

variable {e : Engine T U Q S L R} {l3s : List (List L3Update)} {tks : List (List Tick)} {ε : Type}

/-- Which record comes next, by the heads of the two heaps. -/
theorem nextRecord_spec (e : Engine T U Q S L R) :
    (∃ pe, e.nextRecord = some (.inl pe) ∧ e.l3.heap.peek = some pe ∧ pe.ts ≤ e.nextQueueTs ∧
      ∀ pt ∈ e.ticks.heap.peek, pe.ts < pt.ts ∨ pe.ts = pt.ts ∧ pe.seq ≤ pt.seq) ∨
    (∃ pt, e.nextRecord = some (.inr pt) ∧ e.ticks.heap.peek = some pt ∧ pt.ts ≤ e.nextQueueTs ∧
      ∀ pe ∈ e.l3.heap.peek, pt.ts < pe.ts ∨ pt.ts = pe.ts ∧ pt.seq < pe.seq) ∨
    e.nextRecord = none ∧ (∀ pe ∈ e.l3.heap.peek, e.nextQueueTs < pe.ts) ∧
      ∀ pt ∈ e.ticks.heap.peek, e.nextQueueTs < pt.ts := by
  unfold nextRecord
  cases e.l3.heap.peek with
  | none =>
    cases e.ticks.heap.peek with
    | none => simp
    | some pt =>
      by_cases hpt : pt.ts ≤ e.nextQueueTs
      · simp [hpt]
      · simp [hpt, not_le.1 hpt]
  | some pe =>
    cases e.ticks.heap.peek with
    | none =>
      by_cases hpe : pe.ts ≤ e.nextQueueTs
      · simp [hpe]
      · simp [hpe, not_le.1 hpe]
    | some pt =>
      by_cases hpe : pe.ts ≤ e.nextQueueTs
      · by_cases hnext : pe.ts < pt.ts ∨ pe.ts = pt.ts ∧ pe.seq ≤ pt.seq
        · simp [hpe, hnext]
        · have hlt : pt.ts < pe.ts ∨ pt.ts = pe.ts ∧ pt.seq < pe.seq := by omega
          have hpt : pt.ts ≤ e.nextQueueTs := by omega
          simp [hpe, hnext, hpt, hlt]
      · by_cases hpt : pt.ts ≤ e.nextQueueTs
        · have hlt : pt.ts < pe.ts := by omega
          simp [hpe, hpt, hlt]
        · simp [hpe, hpt, not_le.1 hpe, not_le.1 hpt]

/-- The order of the entries is that of time, number and source. -/
theorem entry_key_le {α : Type} [Stamped α] {i j : ℕ} {a b : α}
    (h : (SourceQueue.entry i a).key ≤ (SourceQueue.entry j b).key) :
    Stamped.tsExchange a < Stamped.tsExchange b ∨
      Stamped.tsExchange a = Stamped.tsExchange b ∧
        (Stamped.seq a < Stamped.seq b ∨ Stamped.seq a = Stamped.seq b ∧ i ≤ j) := by
  simpa [PeekedEvent.key, SourceQueue.entry, Prod.Lex.le_iff] using h

/-- The head of a mapped list comes from a head. -/
theorem exists_of_head_map {α β : Type} {f : α → β} {ls : List (List α)} {j : ℕ} {r : β}
    {t : List β} (h : (ls.map (·.map f))[j]? = some (r :: t)) :
    ∃ b l, ls[j]? = some (b :: l) ∧ r = f b := by
  rw [List.getElem?_map] at h
  obtain ⟨l, hl, heq⟩ := Option.map_eq_some_iff.1 h
  cases l with
  | nil => simp at heq
  | cons b l =>
    simp only [List.map_cons, List.cons.injEq] at heq
    exact ⟨b, l, hl, heq.1.symm⟩

/-- The head of some list of records is the head of an L3 list or of a tick list. -/
theorem exists_of_head {j : ℕ} {r : Record} {t : List Record}
    (h : (records l3s tks)[j]? = some (r :: t)) :
    (∃ b l, l3s[j]? = some (b :: l) ∧ r = .l3 b) ∨
      l3s.length ≤ j ∧ ∃ b l, tks[j - l3s.length]? = some (b :: l) ∧ r = .tick b := by
  unfold records at h
  rcases lt_or_ge j l3s.length with hj | hj
  · rw [List.getElem?_append_left (by simpa using hj)] at h
    exact .inl (exists_of_head_map h)
  · rw [List.getElem?_append_right (by simpa using hj), List.length_map] at h
    exact .inr ⟨hj, exists_of_head_map h⟩

/-- The merge picks an update that is least among the updates and not after any tick. -/
theorem pick_l3 {i : ℕ} {a : L3Update} {l : List L3Update} (hi : l3s[i]? = some (a :: l))
    (hl3 : ∀ (j : ℕ) b t, l3s[j]? = some (b :: t) →
      (SourceQueue.entry i a).key ≤ (SourceQueue.entry j b).key)
    (htick : ∀ (j : ℕ) b t, tks[j]? = some (b :: t) → (Record.l3 a).key ≤ (Record.tick b).key) :
    KWayMerge.pick Record.key (records l3s tks) =
      some (.l3 a, records (l3s.set i l) tks) := by
  have hlt := (List.getElem?_eq_some_iff.1 hi).1
  have h : (records l3s tks)[i]? = some (.l3 a :: l.map .l3) := by
    rw [records, List.getElem?_append_left (by simpa using hlt), List.getElem?_map, hi]
    rfl
  rw [KWayMerge.pick_eq_some h]
  · rw [records, List.set_append_left _ _ (by simpa using hlt), ← List.map_set]
    rfl
  · intro j r t hj
    rcases exists_of_head hj with ⟨b, t, hb, rfl⟩ | ⟨hge, b, t, hb, rfl⟩
    · have := entry_key_le (hl3 j b t hb)
      simp only [Record.key, Prod.Lex.le_iff, Prod.Lex.lt_iff, ofLex_toLex]
      simp only [Record.tsExchange, Record.seq]
      change a.tsExchange < b.tsExchange ∨ a.tsExchange = b.tsExchange ∧
        (a.seq < b.seq ∨ a.seq = b.seq ∧ i ≤ j) at this
      omega
    · exact ⟨htick _ b t hb, fun hji => by omega⟩

/-- The merge picks a tick that is least among the ticks and before every update. -/
theorem pick_tick {i : ℕ} {a : Tick} {l : List Tick} (hi : tks[i]? = some (a :: l))
    (hl3 : ∀ (j : ℕ) b t, l3s[j]? = some (b :: t) → (Record.tick a).key < (Record.l3 b).key)
    (htick : ∀ (j : ℕ) b t, tks[j]? = some (b :: t) →
      (SourceQueue.entry i a).key ≤ (SourceQueue.entry j b).key) :
    KWayMerge.pick Record.key (records l3s tks) =
      some (.tick a, records l3s (tks.set i l)) := by
  have h : (records l3s tks)[l3s.length + i]? = some (.tick a :: l.map .tick) := by
    rw [records, List.getElem?_append_right (by simp), List.getElem?_map, List.length_map,
      Nat.add_sub_cancel_left, hi]
    rfl
  rw [KWayMerge.pick_eq_some h]
  · rw [records, List.set_append_right _ _ (by simp), List.length_map, Nat.add_sub_cancel_left,
      ← List.map_set]
    rfl
  · intro j r t hj
    rcases exists_of_head hj with ⟨b, t, hb, rfl⟩ | ⟨hge, b, t, hb, rfl⟩
    · exact ⟨(hl3 j b t hb).le, fun _ => hl3 j b t hb⟩
    · have := entry_key_le (htick _ b t hb)
      simp only [Record.key, Prod.Lex.le_iff, Prod.Lex.lt_iff, ofLex_toLex]
      simp only [Record.tsExchange, Record.seq]
      change a.tsExchange < b.tsExchange ∨ a.tsExchange = b.tsExchange ∧
        (a.seq < b.seq ∨ a.seq = b.seq ∧ i ≤ j - l3s.length) at this
      omega

section Schedule

variable (e : Engine T U Q S L R) (tick : Tick) (r : Record)

/-- A delivery whose time overflows is noted, nothing else. -/
theorem noteDelivery_cases : e.noteDelivery tick = e ∨ e.noteDelivery tick = e.log .overflow := by
  unfold noteDelivery
  split_ifs
  · exact .inr rfl
  · exact .inl rfl

@[simp] theorem core_noteDelivery : (e.noteDelivery tick).core = e.core := by
  rcases e.noteDelivery_cases tick with h | h <;> simp [h]

@[simp] theorem queue_noteDelivery : (e.noteDelivery tick).queue = e.queue := by
  rcases e.noteDelivery_cases tick with h | h <;> simp [h]

@[simp] theorem ticks_noteDelivery : (e.noteDelivery tick).ticks = e.ticks := by
  rcases e.noteDelivery_cases tick with h | h <;> simp [h]

@[simp] theorem l3_noteDelivery : (e.noteDelivery tick).l3 = e.l3 := by
  rcases e.noteDelivery_cases tick with h | h <;> simp [h]

@[simp] theorem core_schedule : (e.schedule r).core = e.core := by
  cases r <;> simp [schedule, scheduleTick]

@[simp] theorem ticks_schedule : (e.schedule r).ticks = e.ticks := by
  cases r <;> simp [schedule, scheduleTick]

@[simp] theorem l3_schedule : (e.schedule r).l3 = e.l3 := by
  cases r <;> simp [schedule, scheduleTick]

/-- Scheduling a record pops nothing. -/
theorem poppedIn_schedule (p : EventKind → Bool) :
    poppedIn p (e.schedule r).trace = poppedIn p e.trace := by
  cases r with
  | l3 update => simp [schedule, poppedIn]
  | tick tick =>
    simp only [schedule, scheduleTick]
    rcases noteDelivery_cases ((e.log (.ingested (.tick tick))).pushEvent tick.tsExchange
      (.tick tick)) tick with h | h <;> rw [h] <;> simp [poppedIn]

/-- Scheduling a record schedules its events. -/
theorem scheduledIn_schedule (p : EventKind → Bool) :
    scheduledIn p (e.schedule r).trace =
      scheduledIn p e.trace ++ (r.events e.core.config).filter (p ·.2) := by
  cases r with
  | l3 update =>
    simp only [schedule, trace_log, trace_pushEvent, scheduledIn_append, scheduledIn_singleton,
      Record.events, List.filter_cons, List.filter_nil]
    simp [scheduledIn]
  | tick tick =>
    simp only [schedule, scheduleTick]
    rcases noteDelivery_cases ((e.log (.ingested (.tick tick))).pushEvent tick.tsExchange
      (.tick tick)) tick with h | h <;>
    · rw [h]
      simp only [trace_log, trace_pushEvent, core_log, scheduledIn_append,
        scheduledIn_singleton, Record.events, List.filter_cons, List.filter_nil]
      simp only [scheduledIn, List.filterMap_cons, List.filterMap_nil]
      split_ifs <;> simp

/-- The events of a record wait behind those of the same time. -/
theorem waiting_schedule (p : EventKind → Bool) :
    (e.schedule r).queue.waiting p =
      insertAll Prod.fst ((r.events e.core.config).filter (p ·.2)) (e.queue.waiting p) := by
  cases r with
  | l3 update =>
    simp only [schedule, queue_pushEvent, queue_log, EventQueue.waiting_push, Record.events,
      List.filter_cons, List.filter_nil]
    split_ifs <;> rfl
  | tick tick =>
    simp only [schedule, scheduleTick, queue_pushEvent, queue_log, queue_noteDelivery,
      core_log, EventQueue.waiting_push, Record.events, List.filter_cons, List.filter_nil]
    split_ifs <;> rfl

/-- The sources do not matter for what is scheduled. -/
theorem schedule_withSources (ticks ticks' : SourceQueue T) (l3 l3' : SourceQueue U) :
    ((e.withSources ticks l3).schedule r).withSources ticks' l3' =
      (e.schedule r).withSources ticks' l3' := by
  cases r with
  | l3 update => rfl
  | tick tick =>
    by_cases h : tick.tsLocal = 0 ∧
        ¬MachineInt.InRange 64 (tick.tsExchange + e.core.config.feedLatencyNs)
    · have hnote : ∀ e' : Engine T U Q S L R, e'.core = e.core →
          e'.noteDelivery tick = e'.log .overflow := fun e' he => if_pos (he ▸ h)
      simp only [schedule, scheduleTick]
      rw [hnote (((e.withSources ticks l3).log _).pushEvent _ _) rfl,
        hnote ((e.log _).pushEvent _ _) rfl]
      rfl
    · have hnote : ∀ e' : Engine T U Q S L R, e'.core = e.core →
          e'.noteDelivery tick = e' := fun e' he => if_neg (he ▸ h)
      simp only [schedule, scheduleTick]
      rw [hnote (((e.withSources ticks l3).log _).pushEvent _ _) rfl,
        hnote ((e.log _).pushEvent _ _) rfl]
      rfl

/-- An update is taken, scheduled, and read ahead of. -/
theorem ingestL3_eq {i : ℕ} {update : L3Update} {l3 l3' : SourceQueue U}
    (htake : e.l3.take i = .ok (some update, l3)) (hrequeue : l3.requeue i = .ok l3') :
    e.ingestL3 (ε := ε) i = ((e.schedule (.l3 update)).withSources e.ticks l3', .ingested) := by
  unfold ingestL3
  rw [htake]
  dsimp only
  have h : ((({ e with l3 := l3 } : Engine T U Q S L R).log (.ingested (.l3 update))).pushEvent
      update.tsExchange (.l3Update update)).l3.requeue i = .ok l3' := hrequeue
  rw [h]
  rfl

/-- A tick is taken, scheduled, and read ahead of. -/
theorem ingestTick_eq {i : ℕ} {tick : Tick} {ticks ticks' : SourceQueue T}
    (htake : e.ticks.take i = .ok (some tick, ticks)) (hrequeue : ticks.requeue i = .ok ticks') :
    e.ingestTick (ε := ε) i = ((e.schedule (.tick tick)).withSources ticks' e.l3, .ingested) := by
  unfold ingestTick
  rw [htake]
  dsimp only
  have h : ((({ e with ticks := ticks } : Engine T U Q S L R).log
      (.ingested (.tick tick))).scheduleTick tick).ticks.requeue i = .ok ticks' := by
    simpa [scheduleTick] using hrequeue
  rw [h]
  let e' := (e.withSources ticks e.l3).schedule (.tick tick)
  have hl3 : e'.l3 = e.l3 := by simp [e', withSources]
  change (e'.withSources ticks' e'.l3, Pass.ingested) = _
  rw [hl3, schedule_withSources]

end Schedule

/-- A pass of the ingestion loop takes the picked record, unless every record is later than
the head of the queue. -/
theorem ingest_spec (h : e.Feeds l3s tks) :
    (∃ r l3s' tks' ticks l3, e.ingest (ε := ε) = ((e.schedule r).withSources ticks l3, .ingested) ∧
      KWayMerge.pick Record.key (records l3s tks) = some (r, records l3s' tks') ∧
      ticks.Holds tks' ∧ l3.Holds l3s' ∧ r.tsExchange ≤ e.nextQueueTs) ∨
    ∃ ticks l3, e.ingest (ε := ε) = (e.withSources ticks l3, .settled) ∧
      ticks.Holds tks ∧ l3.Holds l3s ∧
      ∀ l ∈ records l3s tks, ∀ r ∈ l.head?, e.nextQueueTs < r.tsExchange := by
  obtain ⟨ticks, hticks, hticksHolds, hticksInit⟩ := h.ticks.init
  obtain ⟨l3, hl3, hl3Holds, hl3Init⟩ := h.l3.init
  rcases nextRecord_spec (e.withSources ticks l3) with
    ⟨pe, hnext, hpeek, hts, htick⟩ | ⟨pt, hnext, hpeek, hts, hl3'⟩ | ⟨hnext, hl3', htick⟩
  · obtain ⟨a, l, hl, hpe, hmin⟩ := hl3Holds.of_peek hl3Init hpeek
    obtain ⟨q', q'', htake, hrequeue, hq'', -⟩ := hl3Holds.take hl3Init hpeek hl
    refine .inl ⟨.l3 a, l3s.set pe.sourceIdx l, tks, ticks, q'', ?_, ?_, hticksHolds, hq'', ?_⟩
    · have hingest : e.ingest (ε := ε) = (e.withSources ticks l3).ingestL3 pe.sourceIdx := by
        rw [withSources] at hnext ⊢
        simp only [ingest, hticks, hl3, hnext]
      rw [hingest, ingestL3_eq (e.withSources ticks l3) htake hrequeue, schedule_withSources]
      rfl
    · refine pick_l3 hl (fun j b t hj => hpe ▸ hmin j b t hj) fun j b t hj => ?_
      obtain ⟨pt, hpt⟩ := hticksHolds.exists_peek hticksInit hj
      obtain ⟨c, m, -, hpt', hmin'⟩ := hticksHolds.of_peek hticksInit hpt
      have hab := htick pt hpt
      have hbc := entry_key_le (hpt' ▸ hmin' j b t hj)
      rw [hpe, hpt'] at hab
      simp only [SourceQueue.entry, Stamped.tsExchange, Stamped.seq] at hab hbc
      simp only [Record.key, Prod.Lex.le_iff, ofLex_toLex, Record.tsExchange, Record.seq]
      omega
    · rw [hpe] at hts
      exact hts
  · obtain ⟨a, l, hl, hpt, hmin⟩ := hticksHolds.of_peek hticksInit hpeek
    obtain ⟨q', q'', htake, hrequeue, hq'', -⟩ := hticksHolds.take hticksInit hpeek hl
    refine .inl ⟨.tick a, l3s, tks.set pt.sourceIdx l, q'', l3, ?_, ?_, hq'', hl3Holds, ?_⟩
    · have hingest : e.ingest (ε := ε) = (e.withSources ticks l3).ingestTick pt.sourceIdx := by
        rw [withSources] at hnext ⊢
        simp only [ingest, hticks, hl3, hnext]
      rw [hingest, ingestTick_eq (e.withSources ticks l3) htake hrequeue, schedule_withSources]
      rfl
    · refine pick_tick hl (fun j b t hj => ?_) (fun j b t hj => hpt ▸ hmin j b t hj)
      obtain ⟨pe, hpe⟩ := hl3Holds.exists_peek hl3Init hj
      obtain ⟨c, m, -, hpe', hmin'⟩ := hl3Holds.of_peek hl3Init hpe
      have hab := hl3' pe hpe
      have hbc := entry_key_le (hpe' ▸ hmin' j b t hj)
      rw [hpt, hpe'] at hab
      simp only [SourceQueue.entry, Stamped.tsExchange, Stamped.seq] at hab hbc
      simp only [Record.key, Prod.Lex.lt_iff, ofLex_toLex, Record.tsExchange, Record.seq]
      omega
    · rw [hpt] at hts
      exact hts
  · have hingest : e.ingest (ε := ε) = (e.withSources ticks l3, .settled) := by
      rw [withSources] at hnext ⊢
      simp only [ingest, hticks, hl3, hnext]
    refine .inr ⟨ticks, l3, hingest, hticksHolds, hl3Holds, fun l hl r hr => ?_⟩
    obtain ⟨j, hj⟩ := List.mem_iff_getElem?.1 hl
    cases l with
    | nil => simp at hr
    | cons r' t =>
      obtain rfl : r' = r := by simpa using hr
      rcases exists_of_head hj with ⟨b, t, hb, rfl⟩ | ⟨-, b, t, hb, rfl⟩
      · obtain ⟨pe, hpe⟩ := hl3Holds.exists_peek hl3Init hb
        obtain ⟨c, m, -, hpe', hmin'⟩ := hl3Holds.of_peek hl3Init hpe
        have hlt := hl3' pe hpe
        have hbc := entry_key_le (hpe' ▸ hmin' j b t hb)
        rw [hpe'] at hlt
        change e.nextQueueTs < c.tsExchange at hlt
        simp only [Stamped.tsExchange, Stamped.seq] at hbc
        change e.nextQueueTs < b.tsExchange
        omega
      · obtain ⟨pt, hpt⟩ := hticksHolds.exists_peek hticksInit hb
        obtain ⟨c, m, -, hpt', hmin'⟩ := hticksHolds.of_peek hticksInit hpt
        have hlt := htick pt hpt
        have hbc := entry_key_le (hpt' ▸ hmin' _ b t hb)
        rw [hpt'] at hlt
        change e.nextQueueTs < c.tsExchange at hlt
        simp only [Stamped.tsExchange, Stamped.seq] at hbc
        change e.nextQueueTs < b.tsExchange
        omega

/-! ## Turns -/

section Turn

variable [Strategy S] [LatencyModel L R]

/-- The engine after the head of its queue is removed. -/
def withQueue (e : Engine T U Q S L R) (queue : EventQueue) : Engine T U Q S L R :=
  { e with queue := queue }

/-- A flush leaves the sources alone. -/
theorem sources_flush (e : Engine T U Q S L R) :
    e.flush.1.ticks = e.ticks ∧ e.flush.1.l3 = e.l3 := by
  simp [flush]

/-- A flush that may be put off leaves the sources alone. -/
theorem sources_deferredFlush (e : Engine T U Q S L R) (wakeup : Bool) :
    (e.deferredFlush wakeup).1.ticks = e.ticks ∧ (e.deferredFlush wakeup).1.l3 = e.l3 := by
  have h := e.sources_flush
  unfold deferredFlush
  split_ifs
  · split
    · next heq => simpa [heq] using h
    · next heq => simpa [heq] using h
  · exact ⟨rfl, rfl⟩
  · exact ⟨rfl, rfl⟩

/-- An event leaves the sources alone. -/
theorem sources_dispatch (e : Engine T U Q S L R) (event : Event) :
    (e.dispatch event).1.ticks = e.ticks ∧ (e.dispatch event).1.l3 = e.l3 := by
  have h : (e.handleEvent event).1.ticks = e.ticks ∧ (e.handleEvent event).1.l3 = e.l3 := by
    simp [handleEvent]
  unfold dispatch
  split
  · next heq => simpa [heq] using h
  · next heq => simpa [heq] using h
  · next e' wakeup heq =>
    have hf := sources_deferredFlush (L := L) (R := R) e' wakeup
    rw [hf.1, hf.2]
    simpa [heq] using h

/-- Everything `run` hands over at its end. -/
def Buffered (e : Engine T U Q S L R) : Prop :=
  e.core.config.mode = .batch ∧
    (e.core.tickBuffer.isEmpty = false ∨ e.core.reportBuffer.isEmpty = false)

/-- The cases of a turn when the sources yield `l3s` and `tks`, with what they yield
after it. -/
inductive Turn (e : Engine T U Q S L R) (l3s : List (List L3Update)) (tks : List (List Tick)) :
    Engine T U Q S L R × Status (EngineError (Strategy.Error S)) →
      List (List L3Update) → List (List Tick) → Prop
  | ingest {r : Record} {l3s' : List (List L3Update)} {tks' : List (List Tick)}
      (ticks : SourceQueue T) (l3 : SourceQueue U)
      (pick : KWayMerge.pick Record.key (records l3s tks) = some (r, records l3s' tks'))
      (due : r.tsExchange ≤ e.nextQueueTs) :
      Turn e l3s tks ((e.schedule r).withSources ticks l3, .running) l3s' tks'
  | event {event : Event} {queue : EventQueue} (ticks : SourceQueue T) (l3 : SourceQueue U)
      (pop : e.queue.pop = some (event, queue))
      (later : ∀ l ∈ records l3s tks, ∀ r ∈ l.head?, event.tsSim < r.tsExchange) :
      Turn e l3s tks ((((e.withSources ticks l3).withQueue queue).dispatch event).1,
        statusOf (((e.withSources ticks l3).withQueue queue).dispatch event).2) l3s tks
  | flush (ticks : SourceQueue T) (l3 : SourceQueue U) (pop : e.queue.pop = none)
      (later : ∀ l ∈ records l3s tks, ∀ r ∈ l.head?, i64Max < r.tsExchange)
      (buffered : e.Buffered) :
      Turn e l3s tks ((e.withSources ticks l3).flush.1, statusOf (e.withSources ticks l3).flush.2)
        l3s tks
  | finish (ticks : SourceQueue T) (l3 : SourceQueue U) (pop : e.queue.pop = none)
      (later : ∀ l ∈ records l3s tks, ∀ r ∈ l.head?, i64Max < r.tsExchange)
      (unbuffered : ¬e.Buffered) :
      Turn e l3s tks (e.withSources ticks l3, .finished) l3s tks

/-- A turn is in one of its cases, and the sources go on to yield lists. -/
theorem turn_spec (h : e.Feeds l3s tks) :
    ∃ l3s' tks', Turn e l3s tks e.turn l3s' tks' ∧ e.turn.1.Feeds l3s' tks' := by
  rcases ingest_spec (ε := Strategy.Error S) h with
    ⟨r, l3s', tks', ticks, l3, hingest, hpick, hticks, hl3, hdue⟩ |
      ⟨ticks, l3, hingest, hticks, hl3, hlater⟩
  · have hturn : e.turn = ((e.schedule r).withSources ticks l3, .running) := by
      rw [turn, hingest]
    rw [hturn]
    exact ⟨l3s', tks', .ingest ticks l3 hpick hdue, hl3, hticks⟩
  · refine ⟨l3s, tks, ?_⟩
    cases hpop : e.queue.pop with
    | some p =>
      obtain ⟨event, queue⟩ := p
      have hturn : e.turn = ((((e.withSources ticks l3).withQueue queue).dispatch event).1,
          statusOf (((e.withSources ticks l3).withQueue queue).dispatch event).2) := by
        rw [turn, hingest]
        have hpop' : (e.withSources ticks l3).queue.pop = some (event, queue) := hpop
        simp only [hpop']
        rfl
      have hts : e.nextQueueTs = event.tsSim := by
        rw [nextQueueTs, EventQueue.peek_of_pop hpop]
        rfl
      have hsources := sources_dispatch ((e.withSources ticks l3).withQueue queue) event
      rw [hturn]
      exact ⟨.event ticks l3 hpop (hts ▸ hlater), hsources.2 ▸ hl3, hsources.1 ▸ hticks⟩
    | none =>
      have hts : e.nextQueueTs = i64Max := by
        rw [nextQueueTs, EventQueue.peek_of_pop_none hpop]
        rfl
      have hpop' : (e.withSources ticks l3).queue.pop = none := hpop
      by_cases hb : e.Buffered
      · have hturn : e.turn = ((e.withSources ticks l3).flush.1,
            statusOf (e.withSources ticks l3).flush.2) := by
          rw [turn, hingest]
          simp only [hpop']
          exact if_pos hb
        have hsources := sources_flush (e.withSources ticks l3)
        rw [hturn]
        exact ⟨.flush ticks l3 hpop (hts ▸ hlater) hb, hsources.2 ▸ hl3, hsources.1 ▸ hticks⟩
      · have hturn : e.turn = (e.withSources ticks l3, .finished) := by
          rw [turn, hingest]
          simp only [hpop']
          exact if_neg hb
        rw [hturn]
        exact ⟨.finish ticks l3 hpop (hts ▸ hlater) hb, hl3, hticks⟩

/-- A handled event moves from the queue to the popped events, and no market event is
scheduled. -/
theorem dispatch_market {event : Event} {queue : EventQueue}
    (pop : e.queue.pop = some (event, queue))
    (ticks : SourceQueue T) (l3 : SourceQueue U) {p : EventKind → Bool}
    (hp : ∀ kind, p kind = true → kind.isMarket = true) :
    poppedIn p (((e.withSources ticks l3).withQueue queue).dispatch event).1.trace ++
        (((e.withSources ticks l3).withQueue queue).dispatch event).1.queue.waiting p =
      poppedIn p e.trace ++ e.queue.waiting p := by
  obtain ⟨new, h, -⟩ := dispatch_spec ((e.withSources ticks l3).withQueue queue) event
  have htrace : (((e.withSources ticks l3).withQueue queue).popped event).trace =
    e.trace ++ [.popped event e.core.activeBatchTimerId] := rfl
  rw [h.poppedIn_trace, h.waiting_market hp, htrace, poppedIn_append, poppedIn_singleton,
    EventQueue.waiting_pop pop, List.append_assoc]
  rfl

/-- The invariant rule for runs over finite sources. -/
theorem fed_invariant
    {I : Engine T U Q S L R → Status (EngineError (Strategy.Error S)) → List (List L3Update) →
      List (List Tick) → Prop} {e₀ : Engine T U Q S L R}
    {st : Status (EngineError (Strategy.Error S))} (h : Reaches turn closed e₀ e st)
    (feeds : e₀.Feeds l3s tks) (start : I e₀ .running l3s tks)
    (step : ∀ e l3s tks r l3s' tks', I e .running l3s tks → Turn e l3s tks r l3s' tks' →
      I r.1 r.2 l3s' tks') : ∃ l3s' tks', e.Feeds l3s' tks' ∧ I e st l3s' tks' := by
  induction h with
  | start => exact ⟨l3s, tks, feeds, start⟩
  | turn _ ih =>
    obtain ⟨l3s₁, tks₁, hfeeds, hI⟩ := ih
    obtain ⟨l3s', tks', hturn, hfeeds'⟩ := turn_spec hfeeds
    exact ⟨l3s', tks', hfeeds', step _ _ _ _ _ _ hI hturn⟩
  | env _ hf => exact hf.elim

end Turn

end Engine

end Backtester
