import Backtester.Event
import Backtester.Library.KWayMerge

/-!
# Record sources

A tick source and an L3 source have the same interface : look at the next record, take it.
`Yields s l` says that `s` is a finite source of the records `l` whose `peek` agrees with
its `next`.

The engine keeps the sources of one feed with a heap over their next records
(`SourceQueue`). When the sources yield the lists `ls`, the heap holds the heads of `ls`
(`SourceQueue.Holds`), and taking the least entry takes the record `KWayMerge.pick` takes
(`SourceQueue.Holds.take`).
-/

namespace Backtester

/-! ## Sources -/

/-- Errors of the sources. A data type and an error of the reader stand as their texts. -/
inductive TickSourceError where
  | missingColumn (names : List String)
  | nonIntegerColumn (name dataType : String)
  | nullColumn (name : String)
  | cast (name targetType source : String)
  | outOfRange (name targetType : String)
  | invalidSide (value : ℤ)
  | reader (source : String)
  deriving DecidableEq, Repr

/-- A record of a feed, with its exchange timestamp and its sequence number in the feed. -/
class Stamped (α : Type) where
  tsExchange : α → ℤ
  seq : α → ℕ

instance : Stamped Tick := ⟨Tick.tsExchange, Tick.seq⟩
instance : Stamped L3Update := ⟨L3Update.tsExchange, L3Update.seq⟩

/-- The interface of `TickSource` and `L3Source`. Looking at the next record leaves the
source as it is. -/
class Source (T : Type) (α : outParam Type) where
  peek : T → Except TickSourceError (Option α)
  next : T → Except TickSourceError (Option α × T)

/-- A source of ticks. -/
abbrev TickSource (T : Type) := Source T Tick

/-- A source of order updates, all of one symbol. -/
class L3Source (U : Type) extends Source U L3Update where
  symbolId : U → ℕ

/-- A list is a source that cannot fail. -/
instance (α : Type) : Source (List α) α where
  peek l := .ok l.head?
  next l := .ok (l.head?, l.tail)

/-- An L3 source over a list, of symbol `symbolId`. -/
structure VecL3Source where
  symbolId : ℕ
  updates : List L3Update

instance : L3Source VecL3Source where
  peek s := .ok s.updates.head?
  next s := .ok (s.updates.head?, { s with updates := s.updates.tail })
  symbolId s := s.symbolId

variable {T α : Type} [Source T α]

/-- `s` gives the records `l` and then ends, and `peek` shows what `next` will give. -/
inductive Yields : T → List α → Prop
  | nil {s : T} : Source.peek s = .ok none → Yields s []
  | cons {s s' : T} {a : α} {l : List α} : Source.peek s = .ok (some a) →
      Source.next s = .ok (some a, s') → Yields s' l → Yields s (a :: l)

theorem Yields.peek_eq {s : T} {l : List α} (h : Yields s l) :
    Source.peek s = .ok l.head? := by
  cases h with
  | nil hp => exact hp
  | cons hp _ _ => exact hp

theorem yields_list : ∀ l : List α, Yields l l
  | [] => .nil rfl
  | _ :: l => .cons rfl rfl (yields_list l)

theorem yields_vec (symbolId : ℕ) : ∀ l : List L3Update, Yields (⟨symbolId, l⟩ : VecL3Source) l
  | [] => .nil rfl
  | _ :: l => .cons rfl rfl (yields_vec symbolId l)

/-! ## The sources of one feed -/

/-- The sources of one feed, the heap over their next records, and whether the heap is
filled. -/
structure SourceQueue (T : Type) where
  sources : List T := []
  heap : SourceHeap := .empty
  isInitialized : Bool := false

namespace SourceQueue

variable [Stamped α]

/-- One more source. The heap is built anew before the next record is taken. -/
def add (q : SourceQueue T) (source : T) : SourceQueue T :=
  { q with sources := q.sources ++ [source], isInitialized := false }

/-- The heap entry of record `a` of source `sourceIdx`. -/
def entry (sourceIdx : ℕ) (a : α) : PeekedEvent :=
  ⟨Stamped.tsExchange a, Stamped.seq a, sourceIdx⟩

/-- Push the next record of a source, if it has one. -/
def pushHead (heap : SourceHeap) (source : T) (sourceIdx : ℕ) :
    Except TickSourceError SourceHeap :=
  (Source.peek source).map fun
    | none => heap
    | some a => heap.push (entry sourceIdx a)

/-- Fill `heap` from `sources`, which start at index `sourceIdx`. -/
def fillFrom : List T → ℕ → SourceHeap → Except TickSourceError SourceHeap
  | [], _, heap => .ok heap
  | source :: sources, sourceIdx, heap =>
    match pushHead heap source sourceIdx with
    | .error err => .error err
    | .ok heap => fillFrom sources (sourceIdx + 1) heap

/-- Fill the heap, unless it is filled. -/
def init (q : SourceQueue T) : Except TickSourceError (SourceQueue T) :=
  if q.isInitialized then .ok q
  else (fillFrom q.sources 0 .empty).map fun heap => { q with heap := heap, isInitialized := true }

/-- The heap is filled once. -/
theorem init_init {q q' : SourceQueue T} (h : q.init = .ok q') : q'.init = .ok q' := by
  unfold init at h
  split_ifs at h with hdone
  · cases h
    exact if_pos hdone
  · cases hfill : fillFrom q.sources 0 .empty with
    | error err =>
      rw [hfill] at h
      cases h
    | ok heap =>
      rw [hfill] at h
      cases h
      rfl

/-- Remove the least heap entry and take the next record of its source. The record is `none`
when the source has ended. -/
def take (q : SourceQueue T) (sourceIdx : ℕ) :
    Except TickSourceError (Option α × SourceQueue T) :=
  let heap := (q.heap.pop.map Prod.snd).getD q.heap
  match q.sources[sourceIdx]? with
  | none => .ok (none, { q with heap := heap })
  | some source =>
    (Source.next source).map fun (record, source) =>
      (record, { q with sources := q.sources.set sourceIdx source, heap := heap })

/-- Put the next record of source `sourceIdx` on the heap. -/
def requeue (q : SourceQueue T) (sourceIdx : ℕ) : Except TickSourceError (SourceQueue T) :=
  match q.sources[sourceIdx]? with
  | none => .ok q
  | some source => (pushHead q.heap source sourceIdx).map fun heap => { q with heap := heap }

/-! ## Sources that yield lists -/

/-- The heads of the lists `ls`, as heap entries. -/
def IsHead (ls : List (List α)) (pe : PeekedEvent) : Prop :=
  ∃ a l, ls[pe.sourceIdx]? = some (a :: l) ∧ pe = entry pe.sourceIdx a

/-- The sources yield the lists `ls`, and the heap, once filled, holds the head of each. -/
structure Holds (q : SourceQueue T) (ls : List (List α)) : Prop where
  length_eq : q.sources.length = ls.length
  yields : ∀ (i : ℕ) (s : T) (l : List α), q.sources[i]? = some s → ls[i]? = some l → Yields s l
  mem_heap : q.isInitialized = true → ∀ pe, pe ∈ q.heap.items ↔ IsHead ls pe
  nodup : q.isInitialized = true → (q.heap.items.map PeekedEvent.sourceIdx).Nodup

theorem pushHead_eq {source : T} {l : List α} (h : Yields source l) (heap : SourceHeap) (i : ℕ) :
    pushHead heap source i = .ok (match l with | [] => heap | a :: _ => heap.push (entry i a)) := by
  rw [pushHead, h.peek_eq]
  cases l <;> rfl

/-- Filling from index `i` adds the heads of the lists, under indices that are at least `i`. -/
theorem fillFrom_eq : ∀ {sources : List T} {ls : List (List α)} (i : ℕ) (heap : SourceHeap),
    sources.length = ls.length →
    (∀ (j : ℕ) (s : T) (l : List α), sources[j]? = some s → ls[j]? = some l → Yields s l) →
    (heap.items.map PeekedEvent.sourceIdx).Nodup → (∀ pe ∈ heap.items, pe.sourceIdx < i) →
    ∃ heap', fillFrom sources i heap = .ok heap' ∧
      (heap'.items.map PeekedEvent.sourceIdx).Nodup ∧
      ∀ pe, pe ∈ heap'.items ↔
        pe ∈ heap.items ∨ ∃ (j : ℕ) (a : α) (l : List α), ls[j]? = some (a :: l) ∧
          pe = entry (i + j) a
  | [], [], i, heap, _, _, hn, _ => ⟨heap, rfl, hn, by simp⟩
  | source :: sources, l :: ls, i, heap, hlen, hy, hn, hi => by
    have hl : Yields source l := hy 0 source l rfl rfl
    have hy' : ∀ (j : ℕ) (s : T) (l' : List α), sources[j]? = some s → ls[j]? = some l' →
        Yields s l' :=
      fun j s l' hs hl' => hy (j + 1) s l' (by simpa using hs) (by simpa using hl')
    have hlen' : sources.length = ls.length := by simpa using hlen
    rw [fillFrom, pushHead_eq hl]
    cases l with
    | nil =>
      obtain ⟨heap', he, hn', hm⟩ := fillFrom_eq (i + 1) heap hlen' hy' hn
        fun pe hpe => (hi pe hpe).trans (Nat.lt_succ_self i)
      refine ⟨heap', he, hn', fun pe => (hm pe).trans (or_congr_right ⟨?_, ?_⟩)⟩
      · rintro ⟨j, a, t, hj, rfl⟩
        exact ⟨j + 1, a, t, by simpa using hj, by rw [Nat.add_assoc, Nat.add_comm 1 j]⟩
      · rintro ⟨j, a, t, hj, rfl⟩
        cases j with
        | zero => simp at hj
        | succ j => exact ⟨j, a, t, by simpa using hj, by rw [Nat.add_assoc, Nat.add_comm 1 j]⟩
    | cons b l =>
      have hperm := MinQueue.items_push_perm heap (entry i b)
      obtain ⟨heap', he, hn', hm⟩ := fillFrom_eq (i + 1) (heap.push (entry i b)) hlen' hy'
        (by
          rw [(hperm.map _).nodup_iff, List.map_cons, List.nodup_cons]
          refine ⟨fun hmem => ?_, hn⟩
          obtain ⟨pe, hpe, hidx⟩ := List.mem_map.1 hmem
          exact absurd (hi pe hpe) (by simp [hidx, entry]))
        (fun pe hpe => by
          rcases MinQueue.mem_push.1 hpe with rfl | hpe
          · exact Nat.lt_succ_self i
          · exact (hi pe hpe).trans (Nat.lt_succ_self i))
      refine ⟨heap', he, hn', fun pe => (hm pe).trans ?_⟩
      rw [MinQueue.mem_push, or_assoc, or_left_comm]
      refine or_congr_right ⟨?_, ?_⟩
      · rintro (rfl | ⟨j, a, t, hj, rfl⟩)
        · exact ⟨0, b, l, rfl, rfl⟩
        · exact ⟨j + 1, a, t, by simpa using hj, by rw [Nat.add_assoc, Nat.add_comm 1 j]⟩
      · rintro ⟨j, a, t, hj, rfl⟩
        cases j with
        | zero =>
          obtain ⟨rfl, rfl⟩ := by simpa using hj
          exact .inl rfl
        | succ j =>
          exact .inr ⟨j, a, t, by simpa using hj, by rw [Nat.add_assoc, Nat.add_comm 1 j]⟩

theorem holds_empty : ({} : SourceQueue T).Holds ([] : List (List α)) where
  length_eq := rfl
  yields i s l hs := by simp at hs
  mem_heap hi := by cases hi
  nodup hi := by cases hi

namespace Holds

variable {q : SourceQueue T} {ls : List (List α)}

theorem add (h : q.Holds ls) {source : T} {l : List α} (hl : Yields source l) :
    (q.add source).Holds (ls ++ [l]) where
  length_eq := by simp [SourceQueue.add, h.length_eq]
  yields i s l' hs hl' := by
    simp only [SourceQueue.add] at hs
    rcases lt_trichotomy i ls.length with hi | hi | hi
    · rw [List.getElem?_append_left (by rw [h.length_eq]; exact hi)] at hs
      rw [List.getElem?_append_left hi] at hl'
      exact h.yields i s l' hs hl'
    · rw [List.getElem?_append_right (by rw [h.length_eq, hi]), h.length_eq, hi, Nat.sub_self] at hs
      rw [List.getElem?_append_right hi.ge, hi, Nat.sub_self] at hl'
      obtain rfl := by simpa using hs
      obtain rfl := by simpa using hl'
      exact hl
    · rw [List.getElem?_eq_none (by simpa using hi)] at hl'
      cases hl'
  mem_heap hi := by simp [SourceQueue.add] at hi
  nodup hi := by simp [SourceQueue.add] at hi

/-- The heap of sources that yield lists is filled without error. -/
theorem init (h : q.Holds ls) :
    ∃ q', q.init = .ok q' ∧ q'.Holds ls ∧ q'.isInitialized = true := by
  unfold SourceQueue.init
  by_cases hi : q.isInitialized = true
  · exact ⟨q, if_pos hi, h, hi⟩
  · obtain ⟨heap, he, hn, hm⟩ := fillFrom_eq 0 .empty h.length_eq h.yields List.nodup_nil (by simp)
    refine ⟨{ q with heap := heap, isInitialized := true }, ?_, ⟨h.length_eq, h.yields,
      fun _ pe => (hm pe).trans ?_, fun _ => hn⟩, rfl⟩
    · rw [if_neg hi, he]
      rfl
    · simp only [MinQueue.items_empty, List.not_mem_nil, false_or, Nat.zero_add, IsHead]
      constructor
      · rintro ⟨j, a, l, hj, rfl⟩
        exact ⟨a, l, hj, rfl⟩
      · rintro ⟨a, l, hj, hpe⟩
        exact ⟨pe.sourceIdx, a, l, hj, hpe⟩

/-- As long as a source has a record, the heap is not empty. -/
theorem exists_peek (h : q.Holds ls) (hi : q.isInitialized = true) {i : ℕ} {a : α} {l : List α}
    (hl : ls[i]? = some (a :: l)) : ∃ pe, q.heap.peek = some pe := by
  refine Option.ne_none_iff_exists'.1 fun hp => ?_
  have hmem := (h.mem_heap hi (entry i a)).2 ⟨a, l, hl, rfl⟩
  rw [MinQueue.peek_eq_none.1 hp] at hmem
  simp at hmem

/-- The least entry is the head of its source's list, and no head is smaller. -/
theorem of_peek (h : q.Holds ls) (hi : q.isInitialized = true) {pe : PeekedEvent}
    (hp : q.heap.peek = some pe) : ∃ a l, ls[pe.sourceIdx]? = some (a :: l) ∧
      pe = entry pe.sourceIdx a ∧
      ∀ (j : ℕ) (b : α) (t : List α), ls[j]? = some (b :: t) → pe.key ≤ (entry j b).key := by
  obtain ⟨a, l, hl, hpe⟩ := (h.mem_heap hi pe).1 (MinQueue.mem_of_peek hp)
  exact ⟨a, l, hl, hpe, fun j b t hj =>
    MinQueue.le_of_peek hp _ ((h.mem_heap hi _).2 ⟨b, t, hj, rfl⟩)⟩

/-- Taking the least entry gives the head of its source's list, and its next record goes
back on the heap. -/
theorem take (h : q.Holds ls) (hi : q.isInitialized = true) {pe : PeekedEvent} {a : α}
    {l : List α} (hp : q.heap.peek = some pe) (hl : ls[pe.sourceIdx]? = some (a :: l)) :
    ∃ q' q'', q.take pe.sourceIdx = .ok (some a, q') ∧ q'.requeue pe.sourceIdx = .ok q'' ∧
      q''.Holds (ls.set pe.sourceIdx l) ∧ q''.isInitialized = true := by
  obtain ⟨heap, hpop⟩ := MinQueue.peek_eq_some.1 hp
  have hitems := MinQueue.pop_eq_some.1 hpop
  have hlt : pe.sourceIdx < ls.length := (List.getElem?_eq_some_iff.1 hl).1
  have hlt' : pe.sourceIdx < q.sources.length := by rw [h.length_eq]; exact hlt
  have hs := List.getElem?_eq_getElem hlt'
  cases h.yields _ _ _ hs hl with
  | cons hpeek hnext hrest =>
  rename_i s'
  -- the entries that stay are the heads of the other sources
  have hnodup := h.nodup hi
  rw [hitems, List.map_cons, List.nodup_cons] at hnodup
  have hother : ∀ pe', pe' ∈ heap.items ↔ pe'.sourceIdx ≠ pe.sourceIdx ∧ IsHead ls pe' := by
    intro pe'
    rw [← h.mem_heap hi, hitems, List.mem_cons]
    constructor
    · intro hmem
      refine ⟨fun heq => hnodup.1 ?_, .inr hmem⟩
      exact List.mem_map.2 ⟨pe', hmem, heq⟩
    · rintro ⟨hne, rfl | hmem⟩
      · exact absurd rfl hne
      · exact hmem
  have hset : ∀ pe' : PeekedEvent, IsHead (ls.set pe.sourceIdx l) pe' ↔
      (pe'.sourceIdx = pe.sourceIdx ∧ ∃ b t, l = b :: t ∧ pe' = entry pe.sourceIdx b) ∨
        pe'.sourceIdx ≠ pe.sourceIdx ∧ IsHead ls pe' := by
    intro pe'
    by_cases heq : pe'.sourceIdx = pe.sourceIdx
    · simp [IsHead, heq, List.getElem?_set_self hlt]
    · simp [IsHead, heq, List.getElem?_set_ne (Ne.symm heq)]
  have hyields : ∀ (i : ℕ) (s : T) (t : List α), (q.sources.set pe.sourceIdx s')[i]? = some s →
      (ls.set pe.sourceIdx l)[i]? = some t → Yields s t := by
    intro i s t hs' ht
    by_cases heq : pe.sourceIdx = i
    · subst heq
      rw [List.getElem?_set_self hlt'] at hs'
      rw [List.getElem?_set_self hlt] at ht
      cases hs'
      cases ht
      exact hrest
    · rw [List.getElem?_set_ne heq] at hs' ht
      exact h.yields i s t hs' ht
  refine ⟨{ q with sources := q.sources.set pe.sourceIdx s', heap := heap }, ?_⟩
  have htake : q.take pe.sourceIdx =
      .ok (some a, { q with sources := q.sources.set pe.sourceIdx s', heap := heap }) := by
    simp only [SourceQueue.take, hs, hnext, hpop]
    rfl
  have hrequeue := pushHead_eq hrest heap pe.sourceIdx
  cases l with
  | nil =>
    refine ⟨{ q with sources := q.sources.set pe.sourceIdx s', heap := heap }, htake, ?_,
      ⟨?_, hyields, fun _ pe' => ?_, fun _ => hnodup.2⟩, hi⟩
    · simp only [requeue, List.getElem?_set_self hlt', hrequeue]
      rfl
    · simp [h.length_eq]
    · rw [hset, hother]
      simp
  | cons b l =>
    refine ⟨{ q with
        sources := q.sources.set pe.sourceIdx s'
        heap := heap.push (entry pe.sourceIdx b) },
      htake, ?_, ⟨?_, hyields, fun _ pe' => ?_, fun _ => ?_⟩, hi⟩
    · simp only [requeue, List.getElem?_set_self hlt', hrequeue]
      rfl
    · simp [h.length_eq]
    · rw [hset, MinQueue.mem_push, hother]
      refine or_congr_left ⟨?_, ?_⟩
      · rintro rfl
        exact ⟨rfl, b, l, rfl, rfl⟩
      · rintro ⟨-, c, t, hc, rfl⟩
        cases hc
        rfl
    · rw [((MinQueue.items_push_perm heap _).map _).nodup_iff, List.map_cons, List.nodup_cons]
      refine ⟨fun hmem => ?_, hnodup.2⟩
      obtain ⟨pe', hpe', hidx⟩ := List.mem_map.1 hmem
      exact ((hother pe').1 hpe').1 hidx

end Holds

end SourceQueue

end Backtester
