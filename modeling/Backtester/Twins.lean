import Backtester.ArrowTicks
import Backtester.ArrowUpdates
import Backtester.Ingestion
import Backtester.Library.Bisim

/-!
# Engines on sources that cannot be told apart

Two sources cannot be told apart if a relation holds between them that `peek` and `next` keep, and
under which they give the same records and the same errors (`Source.Bisim`). Nothing but the
ingestion loop looks at the sources (`Engine.dispatch_fedBy`), so engines that are alike but for
such sources take the same turns, and fail alike (`bisimilar_sources_run_alike`). What an Arrow
source gives depends on the records of its stream only (`ArrowSource.bisim`) : how the stream is cut
into batches does not matter, even where it cannot be read.
-/

open Run ReadAhead

set_option linter.unusedSectionVars false

namespace Backtester

/-! ## Sources -/

/-- Related sources show the same record, and taking it gives the same and leaves related
sources. -/
structure Source.Bisim {T T' α : Type} [Source T α] [Source T' α] (rel : T → T' → Prop) : Prop where
  peek : ∀ {s s'}, rel s s' → Source.peek s' = Source.peek s
  next : ∀ {s s'}, rel s s' →
    Agree (fun r r' => r'.1 = r.1 ∧ rel r.2 r'.2) (Source.next s) (Source.next s')

/-- Equal sources behave alike. -/
theorem Source.bisim_eq {T α : Type} [Source T α] : Source.Bisim (Eq : T → T → Prop) where
  peek h := h ▸ rfl
  next h := h ▸ .refl (fun _ => ⟨rfl, rfl⟩) _

namespace SourceQueue

variable {T T' α : Type} {rel : T → T' → Prop}

/-- Queues of related sources, with the same heap. -/
structure Alike (rel : T → T' → Prop) (q : SourceQueue T) (q' : SourceQueue T') : Prop where
  sources : List.Forall₂ rel q.sources q'.sources
  heap : q'.heap = q.heap
  isInitialized : q'.isInitialized = q.isInitialized

/-- Without sources the queues are alike. -/
theorem alike_empty : Alike rel ({} : SourceQueue T) ({} : SourceQueue T') := ⟨.nil, rfl, rfl⟩

/-- Related lists have related entries. -/
theorem forall₂_getElem? {l : List T} {l' : List T'} (h : List.Forall₂ rel l l') (i : ℕ) :
    Option.Rel rel l[i]? l'[i]? := by
  induction h generalizing i with
  | nil => exact .none
  | cons hs _ ih =>
    cases i with
    | zero => exact .some hs
    | succ i => exact ih i

/-- Lists stay related when related entries are set. -/
theorem forall₂_set {l : List T} {l' : List T'} (h : List.Forall₂ rel l l') {s : T} {s' : T'}
    (hs : rel s s') (i : ℕ) : List.Forall₂ rel (l.set i s) (l'.set i s') := by
  induction h generalizing i with
  | nil => exact .nil
  | cons ha hl ih =>
    cases i with
    | zero => exact .cons hs hl
    | succ i => exact .cons ha (ih i)

variable [Source T α] [Source T' α] [Stamped α] {q : SourceQueue T} {q' : SourceQueue T'}

/-- Sources that behave alike show the same head. -/
theorem pushHead_alike (bisim : Source.Bisim rel) {s : T} {s' : T'} (h : rel s s')
    (heap : SourceHeap) (i : ℕ) :
    pushHead heap s' i = pushHead heap s i := by
  rw [pushHead, pushHead, bisim.peek h]

/-- Sources that behave alike fill the same heap. -/
theorem fillFrom_alike (bisim : Source.Bisim rel) {l : List T} {l' : List T'}
    (h : List.Forall₂ rel l l')
    (i : ℕ) (heap : SourceHeap) : fillFrom l' i heap = fillFrom l i heap := by
  induction h generalizing i heap with
  | nil => rfl
  | @cons s s' _ _ hs _ ih =>
    rw [fillFrom, fillFrom, pushHead_alike bisim hs]
    cases pushHead heap s i with
    | error err => rfl
    | ok heap => exact ih (i + 1) heap

namespace Alike

/-- Queues stay alike when alike sources are added. -/
theorem add (h : Alike rel q q') {s : T} {s' : T'} (hs : rel s s') :
    Alike rel (q.add s) (q'.add s') where
  sources := List.rel_append h.sources (.cons hs .nil)
  heap := h.heap
  isInitialized := rfl

/-- Queues that are alike are initialised alike, or fail alike. -/
theorem init (bisim : Source.Bisim rel) (h : Alike rel q q') :
    Agree (Alike rel) q.init q'.init := by
  unfold SourceQueue.init
  rw [h.isInitialized, fillFrom_alike bisim h.sources]
  split_ifs with hdone
  · exact .ok h
  · cases fillFrom q.sources 0 .empty with
    | error err => exact .error err
    | ok heap => exact .ok ⟨h.sources, rfl, rfl⟩

/-- Queues stay alike when a source has moved on in both. -/
theorem set (h : Alike rel q q') {s : T} {s' : T'} (hs : rel s s') (i : ℕ) (heap : SourceHeap) :
    Alike rel { q with sources := q.sources.set i s, heap := heap }
      { q' with sources := q'.sources.set i s', heap := heap } :=
  ⟨forall₂_set h.sources hs i, rfl, h.isInitialized⟩

/-- Queues that are alike give the same record, or fail alike. -/
theorem take (bisim : Source.Bisim rel) (h : Alike rel q q') (i : ℕ) :
    Agree (fun r r' => r'.1 = r.1 ∧ Alike rel r.2 r'.2) (q.take i) (q'.take i) := by
  have hget := forall₂_getElem? h.sources i
  unfold SourceQueue.take
  rw [h.heap]
  generalize q.sources[i]? = o at hget ⊢
  generalize q'.sources[i]? = o' at hget ⊢
  cases hget with
  | none => exact .ok ⟨rfl, h.sources, rfl, h.isInitialized⟩
  | some hs => exact (bisim.next hs).map fun r r' hr => ⟨hr.1, h.set hr.2 i _⟩

/-- Queues that are alike read ahead alike, or fail alike. -/
theorem requeue (bisim : Source.Bisim rel) (h : Alike rel q q') (i : ℕ) :
    Agree (Alike rel) (q.requeue i) (q'.requeue i) := by
  have hget := forall₂_getElem? h.sources i
  unfold SourceQueue.requeue
  rw [h.heap]
  generalize q.sources[i]? = o at hget ⊢
  generalize q'.sources[i]? = o' at hget ⊢
  cases hget with
  | none => exact .ok h
  | some hs =>
    dsimp only
    rw [pushHead_alike bisim hs]
    exact (Agree.refl (fun _ => rfl) _).map fun heap heap' hheap =>
      ⟨h.sources, hheap.symm, h.isInitialized⟩

end Alike

end SourceQueue

/-! ## Arrow sources -/

namespace ArrowSource

variable {B α : Type} {fmt : ArrowFormat B α}

/-- A source gives what its cursor takes. -/
theorem next_of_take {source : ArrowSource fmt} {record : Option α}
    {cursor : Cursor String RecordBatch B α}
    (h : source.cursor.take (fmt source.symbolId) = (.ok record, cursor)) :
    Source.next source = .ok (record, ⟨source.symbolId, cursor⟩) := by
  have hnext : source.next = (.ok record, ⟨source.symbolId, cursor⟩) := by rw [next, h]
  simp only [Source.next, hnext]

/-- A source fails as its cursor fails. -/
theorem next_of_take_error {source : ArrowSource fmt} {err : TickSourceError}
    {cursor : Cursor String RecordBatch B α}
    (h : source.cursor.take (fmt source.symbolId) = (.error err, cursor)) :
    Source.next source = .error err := by
  have hnext : source.next = (.error err, ⟨source.symbolId, cursor⟩) := by rw [next, h]
  simp only [Source.next, hnext]

/-- Sources of one symbol that see the same records, however they are cut into batches. -/
def SeesSame (source source' : ArrowSource fmt) : Prop :=
  source'.symbolId = source.symbolId ∧
    source'.cursor.view (fmt source.symbolId) = source.cursor.view (fmt source.symbolId)

/-- Sources with the same elements ahead show the same one. -/
theorem SeesSame.peek {source source' : ArrowSource fmt} (h : SeesSame source source') :
    Source.peek source' = Source.peek source := by
  obtain ⟨-, hview⟩ := h
  have hnext : source'.cursor.next = source.cursor.next := by
    unfold Cursor.view at hview
    generalize source.cursor.next = o at hview ⊢
    generalize source'.cursor.next = o' at hview ⊢
    cases o with
    | none =>
      cases o' with
      | none => rfl
      | some a => cases hview
    | some a =>
      cases o' with
      | none => cases hview
      | some a' => exact congrArg some (Except.ok.inj (List.cons.inj hview).1)
  exact congrArg Except.ok hnext

/-- What an Arrow source gives depends on what it still sees only. -/
theorem bisim : Source.Bisim (@SeesSame B α fmt) where
  peek h := h.peek
  next {source source'} h := by
    obtain ⟨symbolId, cursor⟩ := source
    obtain ⟨symbolId', cursor'⟩ := source'
    obtain ⟨hsymbol, hview⟩ := h
    obtain rfl : symbolId' = symbolId := hsymbol
    obtain ⟨c, htake, hrest⟩ := Cursor.take_eq (fmt symbolId') cursor
    obtain ⟨c', htake', hrest'⟩ := Cursor.take_eq (fmt symbolId') cursor'
    dsimp only at hview
    rw [hview] at htake' hrest'
    generalize Cursor.answer (cursor.view (fmt symbolId')) 0 = r at htake htake' hrest hrest'
    cases r with
    | error err =>
      rw [next_of_take_error htake, next_of_take_error htake']
      exact .error err
    | ok record =>
      rw [next_of_take htake, next_of_take htake']
      exact .ok ⟨rfl, rfl, (hrest' record rfl).trans (hrest record rfl).symm⟩

/-- Sources built for one symbol from streams of the same records see the same, or cannot be built
for the same reason. -/
theorem tryNew_alike {symbolId : ℕ} {reader reader' : ArrowReader}
    (h : elements fmt symbolId reader' = elements fmt symbolId reader) :
    Agree SeesSame (tryNew fmt symbolId reader) (tryNew fmt symbolId reader') := by
  rcases tryNew_cases fmt symbolId reader with ⟨cursor, hnew, hview, hgood⟩ |
    ⟨err, rest, hbad, hnew⟩
  · rcases tryNew_cases fmt symbolId reader' with ⟨cursor', hnew', hview', -⟩ |
      ⟨err', rest', hbad', -⟩
    · rw [hnew, hnew']
      exact .ok ⟨rfl, hview'.trans (h.trans hview.symm)⟩
    · exact absurd (h.symm.trans hbad') (hgood err' rest')
  · rcases tryNew_cases fmt symbolId reader' with ⟨-, -, -, hgood'⟩ | ⟨err', rest', hbad', hnew'⟩
    · exact absurd (h.trans hbad) (hgood' err rest)
    · have herr : err' = err := Except.error.inj (List.cons.inj (hbad'.symm.trans (h.trans hbad))).1
      rw [hnew, hnew', herr]
      exact .error err

end ArrowSource

/-! ## Engines -/

namespace Engine

variable {T U T' U' Q S L R : Type} [QueueModel Q]

/-- The engine with sources of another kind. -/
def fedBy (e : Engine T U Q S L R) (ticks : SourceQueue T') (l3 : SourceQueue U') :
    Engine T' U' Q S L R :=
  { core := e.core, queue := e.queue, ticks := ticks, l3 := l3, trace := e.trace }

variable {ticks : SourceQueue T'} {l3 : SourceQueue U'}

/-- The sources do not matter for what is recorded. -/
theorem record_fedBy (e : Engine T U Q S L R) (x : Effect) :
    (e.fedBy ticks l3).record x = (e.record x).fedBy ticks l3 := by
  cases x <;> rfl

/-- The sources do not matter for the effects that are taken in. -/
theorem absorb_fedBy (e : Engine T U Q S L R) (core : Core Q S L R) :
    (e.fedBy ticks l3).absorb core = (e.absorb core).fedBy ticks l3 := by
  have hfold : ∀ e : Engine T U Q S L R, core.effects.foldl record (e.fedBy ticks l3) =
      (core.effects.foldl record e).fedBy ticks l3 :=
    fun _ => List.foldl_hom (fun e : Engine T U Q S L R => e.fedBy ticks l3) record_fedBy
  exact hfold { e with core := core.cleared }

/-- The sources do not matter for what is scheduled. -/
theorem schedule_fedBy (e : Engine T U Q S L R) (r : Record) :
    (e.fedBy ticks l3).schedule r = (e.schedule r).fedBy ticks l3 := by
  cases r with
  | l3 update => rfl
  | tick tick =>
    have hnote : ∀ e : Engine T U Q S L R, (e.fedBy ticks l3).noteDelivery tick =
        (e.noteDelivery tick).fedBy ticks l3 := by
      intro e
      unfold noteDelivery
      split_ifs with h h' h'
      · rfl
      · exact absurd h h'
      · exact absurd h' h
      · rfl
    change ((((e.log _).pushEvent _ _).fedBy ticks l3).noteDelivery tick).pushEvent _ _ = _
    rw [hnote]
    rfl

section Ingest

variable [TickSource T] [L3Source U] {ε : Type} {e : Engine T U Q S L R} {i : ℕ}
  {err : TickSourceError}

/-- A source of updates that cannot be read stops the run. -/
theorem ingestL3_fault (htake : e.l3.take i = .error err) :
    e.ingestL3 (ε := ε) i = (e, .fault (.tickSource err)) := by
  rw [ingestL3, htake]

/-- A source of updates that was queued with nothing left stops the run. -/
theorem ingestL3_exhausted {q : SourceQueue U} (htake : e.l3.take i = .ok (none, q)) :
    e.ingestL3 (ε := ε) i =
      (e.withSources e.ticks q, .fault (.internal (.l3SourceExhausted i))) := by
  rw [ingestL3, htake]
  rfl

/-- An update is scheduled even if reading ahead fails after it. -/
theorem ingestL3_stuck {update : L3Update} {q : SourceQueue U}
    (htake : e.l3.take i = .ok (some update, q)) (hrequeue : q.requeue i = .error err) :
    e.ingestL3 (ε := ε) i = ((e.withSources e.ticks q).schedule (.l3 update),
      .fault (.tickSource err)) := by
  unfold ingestL3
  rw [htake]
  dsimp only
  have h : ((({ e with l3 := q } : Engine T U Q S L R).log (.ingested (.l3 update))).pushEvent
      update.tsExchange (.l3Update update)).l3.requeue i = .error err := hrequeue
  rw [h]
  rfl

/-- A source of ticks that cannot be read stops the run. -/
theorem ingestTick_fault (htake : e.ticks.take i = .error err) :
    e.ingestTick (ε := ε) i = (e, .fault (.tickSource err)) := by
  rw [ingestTick, htake]

/-- A source of ticks that was queued with nothing left stops the run. -/
theorem ingestTick_exhausted {q : SourceQueue T} (htake : e.ticks.take i = .ok (none, q)) :
    e.ingestTick (ε := ε) i = (e.withSources q e.l3, .fault (.internal (.sourceExhausted i))) := by
  rw [ingestTick, htake]
  rfl

/-- A tick is scheduled even if reading ahead fails after it. -/
theorem ingestTick_stuck {tick : Tick} {q : SourceQueue T}
    (htake : e.ticks.take i = .ok (some tick, q)) (hrequeue : q.requeue i = .error err) :
    e.ingestTick (ε := ε) i = ((e.withSources q e.l3).schedule (.tick tick),
      .fault (.tickSource err)) := by
  unfold ingestTick
  rw [htake]
  dsimp only
  have h : ((({ e with ticks := q } : Engine T U Q S L R).log
      (.ingested (.tick tick))).scheduleTick tick).ticks.requeue i = .error err := by
    simpa [scheduleTick] using hrequeue
  rw [h]
  rfl

/-- A pass of the ingestion loop with the heaps filled. -/
def ingestNext (e : Engine T U Q S L R) : Engine T U Q S L R × Pass ε :=
  match e.nextRecord with
  | some (.inl pe) => e.ingestL3 pe.sourceIdx
  | some (.inr pe) => e.ingestTick pe.sourceIdx
  | none => (e, .settled)

/-- Once the heaps are filled, the next record is taken in. -/
theorem ingest_of_init {q : SourceQueue T} {p : SourceQueue U}
    (hticks : e.ticks.init = .ok q) (hl3 : e.l3.init = .ok p) :
    e.ingest (ε := ε) = (e.withSources q p).ingestNext := by
  have h : ({ e with ticks := q } : Engine T U Q S L R).l3.init = .ok p := hl3
  unfold ingest
  rw [hticks]
  dsimp only
  rw [h]
  rfl

/-- Ticks that cannot be read at the start stop the run. -/
theorem ingest_fault (hticks : e.ticks.init = .error err) :
    e.ingest (ε := ε) = (e, .fault (.tickSource err)) := by
  rw [ingest, hticks]

/-- Updates that cannot be read at the start stop the run. -/
theorem ingest_l3_fault {q : SourceQueue T} (hticks : e.ticks.init = .ok q)
    (hl3 : e.l3.init = .error err) :
    e.ingest (ε := ε) = (e.withSources q e.l3, .fault (.tickSource err)) := by
  have h : ({ e with ticks := q } : Engine T U Q S L R).l3.init = .error err := hl3
  unfold ingest
  rw [hticks]
  dsimp only
  rw [h]
  rfl

end Ingest

section Twins

variable [TickSource T] [L3Source U] [TickSource T'] [L3Source U'] {relT : T → T' → Prop}
  {relU : U → U' → Prop}

/-- `e'` is as `e`, on related sources. -/
def Twin (relT : T → T' → Prop) (relU : U → U' → Prop) (e : Engine T U Q S L R)
    (e' : Engine T' U' Q S L R) :
    Prop :=
  ∃ ticks l3, e' = e.fedBy ticks l3 ∧ e.ticks.Alike relT ticks ∧ e.l3.Alike relU l3

namespace Twin

variable {ε : Type} {e : Engine T U Q S L R} {e' : Engine T' U' Q S L R}

/-- Twins stay twins when alike sources of ticks are added. -/
theorem addTickSource (h : Twin relT relU e e') {s : T} {s' : T'} (hs : relT s s') :
    Twin relT relU (e.addTickSource s) (e'.addTickSource s') := by
  obtain ⟨ticks, l3, rfl, hticks, hl3⟩ := h
  exact ⟨ticks.add s', l3, rfl, hticks.add hs, hl3⟩

/-- Twins stay twins when alike sources of updates of one symbol are added. -/
theorem addL3Source (h : Twin relT relU e e') {s : U} {s' : U'} (hs : relU s s')
    (hsymbol : L3Source.symbolId s' = L3Source.symbolId s) :
    Twin relT relU (e.addL3Source s) (e'.addL3Source s') := by
  obtain ⟨ticks, l3, rfl, hticks, hl3⟩ := h
  refine ⟨ticks, l3.add s', ?_, hticks, hl3.add hs⟩
  rw [Engine.addL3Source, hsymbol]
  rfl

/-- Twins take the same record next. -/
theorem nextRecord (h : Twin relT relU e e') : e'.nextRecord = e.nextRecord := by
  obtain ⟨ticks, l3, rfl, hticks, hl3⟩ := h
  unfold Engine.nextRecord nextQueueTs fedBy
  dsimp only
  rw [hticks.heap, hl3.heap]

/-- Twins take the same update in, or fail alike. -/
theorem ingestL3 (bisimU : Source.Bisim relU) (h : Twin relT relU e e') (i : ℕ) :
    Twin relT relU (e.ingestL3 (ε := ε) i).1 (e'.ingestL3 (ε := ε) i).1 ∧
      (e'.ingestL3 (ε := ε) i).2 = (e.ingestL3 i).2 := by
  obtain ⟨ticks, l3, rfl, hticks, hl3⟩ := h
  have htake := hl3.take bisimU i
  generalize hr : e.l3.take i = r at htake
  generalize hr' : l3.take i = r' at htake
  have hr' : (e.fedBy ticks l3).l3.take i = r' := hr'
  cases htake with
  | error err =>
    rw [ingestL3_fault hr, ingestL3_fault hr']
    exact ⟨⟨ticks, l3, rfl, hticks, hl3⟩, rfl⟩
  | @ok a a' ha =>
    obtain ⟨record, q⟩ := a
    obtain ⟨record', q'⟩ := a'
    obtain ⟨hrecord, hq⟩ := ha
    obtain rfl : record' = record := hrecord
    cases record' with
    | none =>
      rw [ingestL3_exhausted hr, ingestL3_exhausted hr']
      exact ⟨⟨ticks, q', rfl, hticks, hq⟩, rfl⟩
    | some update =>
      have hrequeue := hq.requeue bisimU i
      generalize hs : q.requeue i = s at hrequeue
      generalize hs' : q'.requeue i = s' at hrequeue
      cases hrequeue with
      | error err =>
        rw [ingestL3_stuck hr hs, ingestL3_stuck hr' hs']
        exact ⟨⟨ticks, q', rfl, hticks, hq⟩, rfl⟩
      | @ok p p' hp =>
        rw [ingestL3_eq e hr hs, ingestL3_eq (e.fedBy ticks l3) hr' hs']
        exact ⟨⟨ticks, p', rfl, hticks, hp⟩, rfl⟩

/-- Twins take the same tick in, or fail alike. -/
theorem ingestTick (bisimT : Source.Bisim relT) (h : Twin relT relU e e') (i : ℕ) :
    Twin relT relU (e.ingestTick (ε := ε) i).1 (e'.ingestTick (ε := ε) i).1 ∧
      (e'.ingestTick (ε := ε) i).2 = (e.ingestTick i).2 := by
  obtain ⟨ticks, l3, rfl, hticks, hl3⟩ := h
  have htake := hticks.take bisimT i
  generalize hr : e.ticks.take i = r at htake
  generalize hr' : ticks.take i = r' at htake
  have hr' : (e.fedBy ticks l3).ticks.take i = r' := hr'
  cases htake with
  | error err =>
    rw [ingestTick_fault hr, ingestTick_fault hr']
    exact ⟨⟨ticks, l3, rfl, hticks, hl3⟩, rfl⟩
  | @ok a a' ha =>
    obtain ⟨record, q⟩ := a
    obtain ⟨record', q'⟩ := a'
    obtain ⟨hrecord, hq⟩ := ha
    obtain rfl : record' = record := hrecord
    cases record' with
    | none =>
      rw [ingestTick_exhausted hr, ingestTick_exhausted hr']
      exact ⟨⟨q', l3, rfl, hq, hl3⟩, rfl⟩
    | some tick =>
      have hrequeue := hq.requeue bisimT i
      generalize hs : q.requeue i = s at hrequeue
      generalize hs' : q'.requeue i = s' at hrequeue
      cases hrequeue with
      | error err =>
        have hschedule : ((e.fedBy ticks l3).withSources q' l3).schedule (.tick tick) =
            ((e.withSources q e.l3).schedule (.tick tick)).fedBy q' l3 :=
          schedule_fedBy (e.withSources q e.l3) (.tick tick)
        rw [ingestTick_stuck hr hs, ingestTick_stuck hr' hs']
        refine ⟨⟨q', l3, hschedule, ?_, ?_⟩, rfl⟩
        · rw [ticks_schedule]
          exact hq
        · rw [l3_schedule]
          exact hl3
      | @ok p p' hp =>
        have hschedule : (e.fedBy ticks l3).schedule (.tick tick) =
            (e.schedule (.tick tick)).fedBy ticks l3 := schedule_fedBy _ _
        rw [ingestTick_eq e hr hs, ingestTick_eq (e.fedBy ticks l3) hr' hs', hschedule]
        exact ⟨⟨p', l3, rfl, hp, hl3⟩, rfl⟩

/-- Twins take the same record in, or fail alike. -/
theorem ingestNext (bisimT : Source.Bisim relT) (bisimU : Source.Bisim relU)
    (h : Twin relT relU e e') :
    Twin relT relU (e.ingestNext (ε := ε)).1 (e'.ingestNext (ε := ε)).1 ∧
      (e'.ingestNext (ε := ε)).2 = e.ingestNext.2 := by
  unfold Engine.ingestNext
  rw [h.nextRecord]
  cases e.nextRecord with
  | none => exact ⟨h, rfl⟩
  | some pe =>
    cases pe with
    | inl pe => exact h.ingestL3 bisimU pe.sourceIdx
    | inr pe => exact h.ingestTick bisimT pe.sourceIdx

/-- Twins fill their heaps alike and take the same record in. -/
theorem ingest (bisimT : Source.Bisim relT) (bisimU : Source.Bisim relU) (h : Twin relT relU e e') :
    Twin relT relU (e.ingest (ε := ε)).1 (e'.ingest (ε := ε)).1 ∧
    (e'.ingest (ε := ε)).2 = e.ingest.2 := by
  obtain ⟨ticks, l3, rfl, hticks, hl3⟩ := h
  have hinit := hticks.init bisimT
  have hinit' := hl3.init bisimU
  generalize hr : e.ticks.init = r at hinit
  generalize hr' : ticks.init = r' at hinit
  generalize hs : e.l3.init = s at hinit'
  generalize hs' : l3.init = s' at hinit'
  have hr' : (e.fedBy ticks l3).ticks.init = r' := hr'
  have hs' : (e.fedBy ticks l3).l3.init = s' := hs'
  cases hinit with
  | error err =>
    rw [ingest_fault hr, ingest_fault hr']
    exact ⟨⟨ticks, l3, rfl, hticks, hl3⟩, rfl⟩
  | @ok q q' hq =>
    cases hinit' with
    | error err =>
      rw [ingest_l3_fault hr hs, ingest_l3_fault hr' hs']
      exact ⟨⟨q', l3, rfl, hq, hl3⟩, rfl⟩
    | @ok p p' hp =>
      rw [ingest_of_init hr hs, ingest_of_init hr' hs']
      exact ingestNext bisimT bisimU ⟨q', p', rfl, hq, hp⟩

end Twin

end Twins

section Work

variable [Strategy S]

/-- The sources do not matter for a flush. -/
theorem flush_fedBy (e : Engine T U Q S L R) :
    (e.fedBy ticks l3).flush = (e.flush.1.fedBy ticks l3, e.flush.2) :=
  congrArg (·, e.flush.2) (absorb_fedBy e _)

/-- The sources do not matter for a flush that may be put off, once the next time is the same. -/
theorem deferredFlush_fedBy (e : Engine T U Q S L R) (wakeup : Bool) :
    (e.fedBy ticks l3).deferredFlush wakeup =
      ((e.deferredFlush wakeup).1.fedBy ticks l3, (e.deferredFlush wakeup).2) := by
  have hflush : (e.fedBy ticks l3).flush = (e.flush.1.fedBy ticks l3, e.flush.2) := flush_fedBy e
  have hpeek : (e.fedBy ticks l3).queue.peek = e.queue.peek := rfl
  have hnow : (e.fedBy ticks l3).core = e.core := rfl
  unfold deferredFlush
  rw [hflush, hpeek, hnow]
  split_ifs
  · obtain ⟨e', err⟩ := e.flush
    cases err <;> rfl
  · rfl
  · rfl

variable [LatencyModel L R]

/-- The sources do not matter for an event. -/
theorem dispatch_fedBy (e : Engine T U Q S L R) (event : Event) :
    (e.fedBy ticks l3).dispatch event =
      ((e.dispatch event).1.fedBy ticks l3, (e.dispatch event).2) := by
  have hevent : (e.fedBy ticks l3).handleEvent event =
      ((e.handleEvent event).1.fedBy ticks l3, (e.handleEvent event).2) :=
    congrArg (·, (e.handleEvent event).2)
      (absorb_fedBy (e.log (.popped event e.core.activeBatchTimerId)) _)
  unfold dispatch
  rw [hevent]
  obtain ⟨e', flow⟩ := e.handleEvent event
  cases flow with
  | fail err => rfl
  | ret => rfl
  | next wakeup => exact deferredFlush_fedBy e' wakeup

/-- The part of a turn after the ingestion loop has settled. -/
def drain (e : Engine T U Q S L R) : Engine T U Q S L R × Status (EngineError (Strategy.Error S)) :=
  match e.queue.pop with
  | some (event, queue) =>
    (((e.withQueue queue).dispatch event).1, statusOf ((e.withQueue queue).dispatch event).2)
  | none =>
    if e.core.config.mode = .batch ∧
        (e.core.tickBuffer.isEmpty = false ∨ e.core.reportBuffer.isEmpty = false) then
      (e.flush.1, statusOf e.flush.2)
    else (e, .finished)

/-- The sources do not matter once nothing is left to take in. -/
theorem drain_fedBy (e : Engine T U Q S L R) :
    (e.fedBy ticks l3).drain = (e.drain.1.fedBy ticks l3, e.drain.2) := by
  have hpop : (e.fedBy ticks l3).queue.pop = e.queue.pop := rfl
  have hcore : (e.fedBy ticks l3).core = e.core := rfl
  have hflush : (e.fedBy ticks l3).flush = (e.flush.1.fedBy ticks l3, e.flush.2) := flush_fedBy e
  unfold drain
  rw [hpop, hcore, hflush]
  cases e.queue.pop with
  | some p =>
    obtain ⟨event, queue⟩ := p
    have hdispatch : ((e.fedBy ticks l3).withQueue queue).dispatch event =
        (((e.withQueue queue).dispatch event).1.fedBy ticks l3,
          ((e.withQueue queue).dispatch event).2) :=
      dispatch_fedBy (e.withQueue queue) event
    dsimp only
    rw [hdispatch]
  | none =>
    dsimp only
    split_ifs <;> rfl

variable [TickSource T] [L3Source U] [TickSource T'] [L3Source U'] {relT : T → T' → Prop}
  {relU : U → U' → Prop}

/-- Popping an event leaves the sources alone. -/
theorem sources_drain (e : Engine T U Q S L R) : e.drain.1.ticks = e.ticks ∧
    e.drain.1.l3 = e.l3 := by
  unfold drain
  cases e.queue.pop with
  | some p => exact sources_dispatch (e.withQueue p.2) p.1
  | none =>
    dsimp only
    split_ifs
    · exact sources_flush e
    · exact ⟨rfl, rfl⟩

/-- A turn takes a record in, or drains when nothing is due before the next event. -/
theorem turn_eq (e : Engine T U Q S L R) : e.turn =
    match e.ingest with
    | (e, .ingested) => (e, .running)
    | (e, .fault err) => (e, .failed err)
    | (e, .settled) => e.drain := by
  unfold turn drain
  obtain ⟨e, pass⟩ : Engine T U Q S L R × Pass (Strategy.Error S) := e.ingest
  cases pass with
  | ingested => rfl
  | fault err => rfl
  | settled =>
    dsimp only
    cases e.queue.pop with
    | some p => rfl
    | none => rfl

namespace Twin

variable {e : Engine T U Q S L R} {e' : Engine T' U' Q S L R}

/-- Twins take the same turn. -/
theorem turn (bisimT : Source.Bisim relT) (bisimU : Source.Bisim relU) (h : Twin relT relU e e') :
    Twin relT relU e.turn.1 e'.turn.1 ∧ e'.turn.2 = e.turn.2 := by
  obtain ⟨htwin, hpass⟩ := h.ingest (ε := Strategy.Error S) bisimT bisimU
  rw [turn_eq, turn_eq e']
  generalize e.ingest = r at htwin hpass ⊢
  generalize e'.ingest = r' at htwin hpass ⊢
  obtain ⟨e₁, pass⟩ := r
  obtain ⟨e₁', pass'⟩ := r'
  obtain rfl : pass' = pass := hpass
  cases pass' with
  | ingested => exact ⟨htwin, rfl⟩
  | fault err => exact ⟨htwin, rfl⟩
  | settled =>
    obtain ⟨ticks, l3, rfl, hticks, hl3⟩ := htwin
    dsimp only
    rw [drain_fedBy]
    refine ⟨⟨ticks, l3, rfl, ?_, ?_⟩, rfl⟩
    · rw [(sources_drain e₁).1]
      exact hticks
    · rw [(sources_drain e₁).2]
      exact hl3

/-- Twins run alike. -/
theorem runFor (bisimT : Source.Bisim relT) (bisimU : Source.Bisim relU) (h : Twin relT relU e e')
    (n : ℕ) :
    Twin relT relU (Run.runFor Engine.turn n e).1 (Run.runFor Engine.turn n e').1 ∧
      (Run.runFor Engine.turn n e').2 = (Run.runFor Engine.turn n e).2 :=
  runFor_related (fun _ _ h => turn bisimT bisimU h) h n

end Twin

/-- What kind of sources an engine has does not matter. Two engines that are alike but for their
sources, whose sources cannot be told apart, take the same turns : after any number of them they
have the same core, queue and trace, and the same status, be it an error of the sources. -/
theorem bisimilar_sources_run_alike (bisimT : Source.Bisim relT) (bisimU : Source.Bisim relU)
    {e : Engine T U Q S L R} {e' : Engine T' U' Q S L R} (core : e'.core = e.core)
    (queue : e'.queue = e.queue)
    (trace : e'.trace = e.trace) (ticks : e.ticks.Alike relT e'.ticks) (l3 : e.l3.Alike relU e'.l3)
    (n : ℕ) :
    (runFor turn n e').2 = (runFor turn n e).2 ∧
    (runFor turn n e').1.core = (runFor turn n e).1.core ∧
    (runFor turn n e').1.queue = (runFor turn n e).1.queue ∧
    (runFor turn n e').1.trace = (runFor turn n e).1.trace := by
  have htwin : Twin relT relU e e' := by
    refine ⟨e'.ticks, e'.l3, ?_, ticks, l3⟩
    rw [fedBy, ← core, ← queue, ← trace]
  obtain ⟨⟨ticks, l3, heq, -⟩, hstatus⟩ := htwin.runFor bisimT bisimU n
  rw [heq]
  exact ⟨hstatus, rfl, rfl, rfl⟩

end Work

/-- A batch with one row. -/
def oneRow (tsExchange side : ℤ) : RecordBatch where
  numRows := 1
  columns := [("ts_exchange", ⟨.int64, [some tsExchange]⟩), ("price", ⟨.int64, [some 100]⟩),
    ("qty", ⟨.int64, [some 5]⟩), ("side", ⟨.int8, [some side]⟩)]
  length_eq := by simp

/-- The same rows in one batch and in two. The second row cannot be read, and both runs fail for
it. -/
theorem bisimilar_sources_run_alike_sample :
    ∃ source source' : ArrowTickSource safeCast,
      ArrowSource.tryNew (ArrowTickSource.format safeCast) 1
        [.ok ArrowTickSource.invalidSecond] = .ok source ∧
      ArrowSource.tryNew (ArrowTickSource.format safeCast) 1
        [.ok (oneRow 1000 1), .ok (oneRow 2000 2)] =
        .ok source' ∧
      let e₀ :
      Engine (ArrowTickSource safeCast) VecL3Source ConservativeQueue Scripted
        ConstantLatency Unit :=
        .new ⟨⟩ ⟨[]⟩ {} ⟨10⟩ fun _ => 0
      (runFor turn 9 (e₀.addTickSource source')).2 = (runFor turn 9 (e₀.addTickSource source)).2 ∧
      (runFor turn 9 (e₀.addTickSource source')).1.core =
        (runFor turn 9 (e₀.addTickSource source)).1.core ∧
      (runFor turn 9 (e₀.addTickSource source')).1.queue =
        (runFor turn 9 (e₀.addTickSource source)).1.queue ∧
      (runFor turn 9 (e₀.addTickSource source')).1.trace =
        (runFor turn 9 (e₀.addTickSource source)).1.trace := by
  have halike : Agree ArrowSource.SeesSame
      (ArrowSource.tryNew (ArrowTickSource.format safeCast) 1 [.ok ArrowTickSource.invalidSecond])
      (ArrowSource.tryNew (ArrowTickSource.format safeCast) 1
        [.ok (oneRow 1000 1), .ok (oneRow 2000 2)]) :=
    ArrowSource.tryNew_alike (by decide)
  have hopens : (ArrowSource.tryNew (ArrowTickSource.format safeCast) 1
      [.ok ArrowTickSource.invalidSecond]).isOk := by decide
  generalize ArrowSource.tryNew (ArrowTickSource.format safeCast) 1
    [.ok ArrowTickSource.invalidSecond] = r at halike hopens ⊢
  generalize ArrowSource.tryNew (ArrowTickSource.format safeCast) 1
    [.ok (oneRow 1000 1), .ok (oneRow 2000 2)] = r' at halike ⊢
  cases halike with
  | error err => cases hopens
  | @ok source source' hsame =>
    refine ⟨source, source', rfl, rfl, ?_⟩
    intro e₀
    have hcore : (e₀.addTickSource source').core = (e₀.addTickSource source).core := rfl
    have hqueue : (e₀.addTickSource source').queue = (e₀.addTickSource source).queue := rfl
    have htrace : (e₀.addTickSource source').trace = (e₀.addTickSource source).trace := rfl
    have hticks :
        (e₀.addTickSource source).ticks.Alike ArrowSource.SeesSame
          (e₀.addTickSource source').ticks :=
      SourceQueue.alike_empty.add hsame
    have hl3 : (e₀.addTickSource source).l3.Alike Eq (e₀.addTickSource source').l3 :=
      SourceQueue.alike_empty
    clear_value e₀
    exact bisimilar_sources_run_alike ArrowSource.bisim Source.bisim_eq hcore hqueue htrace
      hticks hl3 9

end Engine

end Backtester
