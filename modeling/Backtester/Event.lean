import Backtester.Types
import Backtester.Library.MinQueue

/-!
# Events and their queue

The queue pops events by `(tsSim, seq)`. Sequence numbers come from one counter, so no two
queued events compare equal. The heaps over the sources order the next record of each source
by `(ts, seq, sourceIdx)`.
-/

open StableSort

namespace Backtester

/-- Identifier that orders the events of one simulated timestamp. -/
structure EventId where
  tsSim : ℤ
  seq : ℕ
  deriving DecidableEq, Repr

/-- What happens, with the data that the engine needs for it. -/
inductive EventKind where
  /-- Market truth, at exchange time. -/
  | tick (tick : Tick)
  /-- The tick as the feed delivers it to the strategy. -/
  | tickDelivery (tick : Tick)
  | l2Update (update : L2Update)
  | l3Update (update : L3Update)
  /-- Order request of the strategy, at the exchange. -/
  | order (order : Order)
  | orderAck (orderId : ℕ)
  | orderCancel (orderId : ℕ)
  | orderCancelAck (orderId : ℕ)
  /-- Order update for the strategy. -/
  | orderReport (report : OrderReport)
  | funding (event : FundingEvent)
  | timer (timerId : ℕ)
  deriving DecidableEq, Repr

/-- An event in the queue, under the time and the number that order it. -/
structure Event where
  id : EventId
  kind : EventKind
  deriving DecidableEq, Repr

namespace Event

/-- The simulated time of an event. -/
def tsSim (event : Event) : ℤ := event.id.tsSim

/-- Events are ordered by timestamp, then by sequence number. -/
def key (event : Event) : ℤ ×ₗ ℕ := toLex (event.id.tsSim, event.id.seq)

theorem key_le_key {a b : Event} :
    a.key ≤ b.key ↔ a.tsSim < b.tsSim ∨ a.tsSim = b.tsSim ∧ a.id.seq ≤ b.id.seq :=
  Prod.Lex.le_iff

theorem key_lt_key {a b : Event} :
    a.key < b.key ↔ a.tsSim < b.tsSim ∨ a.tsSim = b.tsSim ∧ a.id.seq < b.id.seq :=
  Prod.Lex.lt_iff

theorem tsSim_le_of_key_le {a b : Event} (h : a.key ≤ b.key) : a.tsSim ≤ b.tsSim := by
  rcases key_le_key.1 h with h | ⟨h, -⟩
  · exact h.le
  · exact h.le

end Event

/-! ## The queue -/

/-- The event queue with the counter that numbers its events. Every queued event was
numbered by the counter, so a new event comes after those of its timestamp. -/
structure EventQueue where
  heap : MinQueue Event.key
  nextEventSeq : ℕ
  seq_lt : ∀ event ∈ heap.items, event.id.seq < nextEventSeq

namespace EventQueue

@[ext] theorem ext {q q' : EventQueue} (h : q.heap = q'.heap)
    (hseq : q.nextEventSeq = q'.nextEventSeq) : q = q' := by
  cases q
  cases q'
  cases h
  cases hseq
  rfl

/-- `EventQueue::new`. -/
def empty : EventQueue := ⟨.empty, 0, by simp⟩

/-- The event that is popped next. -/
def peek (q : EventQueue) : Option Event := q.heap.peek

/-- Number an event and queue it. The source keeps the counter in a `u64` that wraps : numbers
repeat once 2^64 events have been pushed, which no run does. -/
def push (q : EventQueue) (tsSim : ℤ) (kind : EventKind) : EventQueue where
  heap := q.heap.push ⟨⟨tsSim, q.nextEventSeq⟩, kind⟩
  nextEventSeq := q.nextEventSeq + 1
  seq_lt event h := by
    rcases MinQueue.mem_push.1 h with rfl | h
    · exact Nat.lt_succ_self _
    · exact (q.seq_lt event h).trans (Nat.lt_succ_self _)

/-- The first event by time, and by number among events of one time. -/
def pop (q : EventQueue) : Option (Event × EventQueue) :=
  match h : q.heap.pop with
  | none => none
  | some (event, heap) => some (event, ⟨heap, q.nextEventSeq, fun event' h' =>
      q.seq_lt event' (MinQueue.pop_eq_some.1 h ▸ List.mem_cons_of_mem _ h')⟩)

/-- The queued events that satisfy `p`, in the order they will be popped. -/
def waiting (q : EventQueue) (p : EventKind → Bool) : List (ℤ × EventKind) :=
  (q.heap.items.filter fun event => p event.kind).map fun event => (event.tsSim, event.kind)

theorem pop_eq_some {q q' : EventQueue} {event : Event} :
    q.pop = some (event, q') ↔
      q.heap.items = event :: q'.heap.items ∧ q'.nextEventSeq = q.nextEventSeq := by
  unfold pop
  split
  · next h => simp [MinQueue.pop_eq_none.1 h]
  · next event' heap h =>
    rw [MinQueue.pop_eq_some] at h
    rw [Option.some.injEq, Prod.mk.injEq, h, List.cons.injEq]
    constructor
    · rintro ⟨rfl, rfl⟩
      exact ⟨⟨rfl, rfl⟩, rfl⟩
    · rintro ⟨⟨rfl, hitems⟩, hseq⟩
      exact ⟨rfl, ext (MinQueue.ext hitems) hseq.symm⟩

theorem pop_eq_none {q : EventQueue} : q.pop = none ↔ q.heap.items = [] := by
  unfold pop
  split
  · next h => simpa using MinQueue.pop_eq_none.1 h
  · next h => simp [MinQueue.pop_eq_some.1 h]

theorem peek_of_pop {q q' : EventQueue} {event : Event} (h : q.pop = some (event, q')) :
    q.peek = some event := by
  rw [peek, MinQueue.peek, (pop_eq_some.1 h).1, List.head?_cons]

theorem peek_of_pop_none {q : EventQueue} (h : q.pop = none) : q.peek = none := by
  rw [peek, MinQueue.peek, pop_eq_none.1 h, List.head?_nil]

/-- The popped event is earliest. -/
theorem tsSim_le_of_pop {q q' : EventQueue} {event : Event} (h : q.pop = some (event, q')) :
    ∀ event' ∈ q'.heap.items, event.tsSim ≤ event'.tsSim := by
  have hs := q.heap.sorted
  rw [(pop_eq_some.1 h).1] at hs
  exact fun event' h' => Event.tsSim_le_of_key_le ((List.pairwise_cons.1 hs).1 event' h')

@[simp] theorem mem_push {q : EventQueue} {tsSim : ℤ} {kind : EventKind} {event : Event} :
    event ∈ (q.push tsSim kind).heap.items ↔
      event = ⟨⟨tsSim, q.nextEventSeq⟩, kind⟩ ∨ event ∈ q.heap.items :=
  MinQueue.mem_push

/-- A new event goes behind the events of its timestamp. -/
theorem items_push (q : EventQueue) (tsSim : ℤ) (kind : EventKind) :
    (q.push tsSim kind).heap.items =
      insertLast Event.tsSim ⟨⟨tsSim, q.nextEventSeq⟩, kind⟩ q.heap.items := by
  refine insertLast_congr fun event h => ?_
  rw [Event.key_lt_key]
  exact or_iff_left fun ⟨_, hlt⟩ => (q.seq_lt event h).not_gt hlt

theorem waiting_push (q : EventQueue) (p : EventKind → Bool) (tsSim : ℤ) (kind : EventKind) :
    (q.push tsSim kind).waiting p =
      if p kind then insertLast Prod.fst (tsSim, kind) (q.waiting p) else q.waiting p := by
  have hsorted : SortedBy Event.tsSim q.heap.items :=
    q.heap.sorted.imp fun h => Event.tsSim_le_of_key_le h
  let stamp (event : Event) : ℤ × EventKind := (event.tsSim, event.kind)
  rw [waiting, items_push]
  split_ifs with hp
  · rw [filter_insertLast_pos (p := fun event : Event => p event.kind) hp hsorted]
    exact @map_insertLast (ℤ × EventKind) Event ℤ _ Prod.fst stamp _ _
  · rw [filter_insertLast_neg (p := fun event : Event => p event.kind) hp, waiting]

theorem waiting_pop {q q' : EventQueue} {event : Event} (h : q.pop = some (event, q'))
    (p : EventKind → Bool) : q.waiting p =
      (if p event.kind then [(event.tsSim, event.kind)] else []) ++ q'.waiting p := by
  rw [waiting, (pop_eq_some.1 h).1, List.filter_cons]
  split_ifs <;> rfl

theorem mem_waiting {q : EventQueue} {p : EventKind → Bool} {x : ℤ × EventKind} :
    x ∈ q.waiting p ↔ p x.2 = true ∧ ∃ event ∈ q.heap.items, (event.tsSim, event.kind) = x := by
  simp only [waiting, List.mem_map, List.mem_filter]
  constructor
  · rintro ⟨event, ⟨hmem, hp⟩, rfl⟩
    exact ⟨hp, event, hmem, rfl⟩
  · rintro ⟨hp, event, hmem, rfl⟩
    exact ⟨event, ⟨hmem, hp⟩, rfl⟩

end EventQueue

/-! ## Heaps over sources -/

/-- The timestamp and sequence number of a source's next record. -/
structure PeekedEvent where
  ts : ℤ
  seq : ℕ
  sourceIdx : ℕ
  deriving DecidableEq, Repr

/-- Entries are ordered by time, then by sequence number, then by source. -/
def PeekedEvent.key (pe : PeekedEvent) : ℤ ×ₗ ℕ ×ₗ ℕ :=
  toLex (pe.ts, toLex (pe.seq, pe.sourceIdx))

/-- The heap of the next records of the sources. -/
abbrev SourceHeap := MinQueue PeekedEvent.key

end Backtester
