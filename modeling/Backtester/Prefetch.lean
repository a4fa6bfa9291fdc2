import Backtester.Library.SyncChannel

/-!
# Prefetching

`AsyncBatchIter` reads an iterator in a thread of its own and hands the items over through a channel
of `readahead` places, then a `None` for the end. Its `next` waits for a message; the end and a
channel whose sender is gone read the same.

The thread and the caller take their steps in any order (`Prefetching.run`). Of what was not
returned yet, everything is in flight or still with the thread (`Prefetching.Streams`), so that the
caller gets the items of the iterator and after them nothing but `None`
(`AsyncBatchIter.preserves_stream`), and a call returns once the thread has run for long enough
(`AsyncBatchIter.next_returns`).
-/

namespace Backtester

variable {α : Type}

/-- Where the thread is : in the loop with the items that `inner` still has, in one of its sends, or
after them. -/
inductive Prefetcher (α : Type) where
  | looping (inner : List α)
  | sending (inner : List α)
  | signalling
  | returning
  | returned
  deriving DecidableEq, Repr

/-- The thread that reads ahead, and the channel to its caller. -/
structure AsyncBatchIter (α : Type) where
  thread : Prefetcher α
  channel : SyncChannel (Option α)
  deriving DecidableEq, Repr

namespace Prefetcher

/-- The next step of the thread; `none` while its `send` waits, and when it has returned. -/
def step : Prefetcher α → SyncChannel (Option α) → Option (AsyncBatchIter α)
  | .looping [], channel => some ⟨.signalling, channel.send none⟩
  | .looping (item :: inner), channel => some ⟨.sending inner, channel.send (some item)⟩
  | .sending inner, channel =>
    channel.sendReturns.map fun
      | (.ok (), channel) => ⟨.looping inner, channel⟩
      | (.error _, channel) => ⟨.returning, channel⟩
  | .signalling, channel => channel.sendReturns.map fun (_, channel) => ⟨.returning, channel⟩
  | .returning, channel => some ⟨.returned, channel.dropSender⟩
  | .returned, _ => none

/-- The messages that the thread has still to send. -/
def toSend : Prefetcher α → List (Option α)
  | .looping inner => inner.map some ++ [none]
  | .sending inner => inner.map some ++ [none]
  | .signalling => []
  | .returning => []
  | .returned => []

/-- The thread is in a call of `send`. -/
def inSend : Prefetcher α → Bool
  | .looping _ => false
  | .sending _ => true
  | .signalling => true
  | .returning => false
  | .returned => false

/-- How many steps the thread can take at most. -/
def stepsLeft : Prefetcher α → ℕ
  | .looping inner => 2 * inner.length + 3
  | .sending inner => 2 * inner.length + 4
  | .signalling => 2
  | .returning => 1
  | .returned => 0

/-- What a step of the thread leaves as it is. -/
structure Advances (t : Prefetcher α) (channel : SyncChannel (Option α)) (iter : AsyncBatchIter α) :
    Prop where
  left : channel.receiverGone = false →
    iter.channel.inFlight ++ iter.thread.toSend = channel.inFlight ++ t.toSend
  receiverGone : iter.channel.receiverGone = channel.receiverGone
  bound : iter.channel.bound = channel.bound
  fits : channel.Fits → iter.channel.Fits
  idle : iter.thread.inSend = false → iter.channel.sending = none
  senderGone : (channel.senderGone = true ↔ t = .returned) →
    (iter.channel.senderGone = true ↔ iter.thread = .returned)
  stepsLeft : iter.thread.stepsLeft < t.stepsLeft

/-- Calling `send` moves a message from the thread to the channel. -/
theorem advances_send {t t' : Prefetcher α} {channel : SyncChannel (Option α)} {message : Option α}
    (hidle : channel.sending = none) (ht : t.toSend = message :: t'.toSend)
    (hsend : t'.inSend = true) (hgone : t ≠ .returned) (hlt : t'.stepsLeft < t.stepsLeft) :
    t.Advances channel ⟨t', channel.send message⟩ where
  left _ := by rw [SyncChannel.inFlight_send hidle, ht, List.append_assoc, List.singleton_append]
  receiverGone := rfl
  bound := rfl
  fits hfits := hfits
  idle hidle' := by rw [hsend] at hidle'; cases hidle'
  senderGone h := by
    have ht' : t' ≠ .returned := fun h' => by rw [h'] at hsend; cases hsend
    exact ⟨fun hg => absurd (h.1 hg) hgone, fun h' => absurd h' ht'⟩
  stepsLeft := hlt

/-- The return of `send` takes nothing out of flight, unless the receiver is gone. -/
theorem advances_sendReturns {t t' : Prefetcher α} {channel channel' : SyncChannel (Option α)}
    {r : Except SendError Unit} (h : channel.sendReturns = some (r, channel'))
    (ht : r = .ok () → t'.toSend = t.toSend) (hsend : t ≠ .returned) (hsend' : t' ≠ .returned)
    (hlt : t'.stepsLeft < t.stepsLeft) : t.Advances channel ⟨t', channel'⟩ where
  left hgone := by
    cases r with
    | ok _ => rw [SyncChannel.inFlight_of_sendReturns h, ht rfl]
    | error err => rw [SyncChannel.receiverGone_of_sendReturns h] at hgone; cases hgone
  receiverGone := (SyncChannel.sameEnds_of_sendReturns h).2.receiverGone
  bound := (SyncChannel.sameEnds_of_sendReturns h).2.bound
  fits := SyncChannel.fits_of_sendReturns h
  idle _ := (SyncChannel.sameEnds_of_sendReturns h).1
  senderGone hiff := by
    rw [(SyncChannel.sameEnds_of_sendReturns h).2.senderGone]
    exact ⟨fun hg => absurd (hiff.1 hg) hsend, fun h' => absurd h' hsend'⟩
  stepsLeft := hlt

/-- Every step of the thread advances it. -/
theorem advances {t : Prefetcher α} {channel : SyncChannel (Option α)} {iter : AsyncBatchIter α}
    (h : t.step channel = some iter) (hidle : t.inSend = false → channel.sending = none) :
    t.Advances channel iter := by
  cases t with
  | looping inner =>
    cases inner with
    | nil =>
      cases h
      exact advances_send (hidle rfl) rfl rfl nofun (by simp [stepsLeft])
    | cons item inner =>
      cases h
      exact advances_send (hidle rfl) rfl rfl nofun
        (by simp only [stepsLeft, List.length_cons]; omega)
  | sending inner =>
    obtain ⟨⟨r, channel'⟩, hret, hiter⟩ := Option.map_eq_some_iff.1 h
    cases r with
    | ok _ =>
      cases hiter
      exact advances_sendReturns hret (fun _ => rfl) nofun nofun (by simp [stepsLeft])
    | error err =>
      cases hiter
      exact advances_sendReturns hret nofun nofun nofun (by simp [stepsLeft])
  | signalling =>
    obtain ⟨⟨r, channel'⟩, hret, rfl⟩ := Option.map_eq_some_iff.1 h
    exact advances_sendReturns hret (fun _ => rfl) nofun nofun (by simp [stepsLeft])
  | returning =>
    cases h
    exact ⟨fun _ => rfl, rfl, rfl, id, fun _ => hidle rfl, fun _ => ⟨fun _ => rfl, fun _ => rfl⟩, by
      simp [stepsLeft]⟩
  | returned => cases h

end Prefetcher

namespace AsyncBatchIter

/-- The thread starts to loop over the items, on a channel with room for `readahead`. -/
def new (inner : List α) (readahead : ℕ) : AsyncBatchIter α :=
  { thread := .looping inner, channel := { bound := readahead } }

/-- What `next` makes of what it receives. -/
def nextOf : Except RecvError (Option α) → Option α
  | .ok (some item) => some item
  | .ok none => none
  | .error _ => none

end AsyncBatchIter

/-- Where the caller is. -/
inductive Caller where
  | idle
  | inNext
  | dropped
  deriving DecidableEq, Repr

/-- An iterator, where its caller is, and what its calls of `next` returned. -/
structure Prefetching (α : Type) where
  iter : AsyncBatchIter α
  caller : Caller := .idle
  returned : List (Option α) := []
  deriving DecidableEq, Repr

/-- The thread goes on; the caller calls `next`, gets its result, or drops the iterator. -/
inductive Move where
  | thread
  | call
  | result
  | drop
  deriving DecidableEq, Repr

namespace Prefetching

/-- Nothing was asked for yet. -/
def start (inner : List α) (readahead : ℕ) : Prefetching α := { iter := .new inner readahead }

/-- One move of the thread or of the caller, if it can be made. -/
def step (s : Prefetching α) : Move → Option (Prefetching α)
  | .thread => (s.iter.thread.step s.iter.channel).map fun iter => { s with iter := iter }
  | .call => if s.caller = .idle then some { s with caller := .inNext } else none
  | .result =>
    if s.caller = .inNext then
      s.iter.channel.recvReturns.map fun (message, channel) =>
        { iter := { s.iter with channel := channel }
          caller := .idle
          returned := s.returned ++ [AsyncBatchIter.nextOf message] }
    else none
  | .drop =>
    if s.caller = .idle then
      some { s with
        iter := { s.iter with channel := s.iter.channel.dropReceiver }
        caller := .dropped }
    else none

/-- The moves one after the other; `none` when one of them has to wait. -/
def run (s : Prefetching α) (schedule : List Move) : Option (Prefetching α) :=
  schedule.foldlM step s

/-- What was sent and not received, then what the thread has still to send. -/
def left (s : Prefetching α) : List (Option α) := s.iter.channel.inFlight ++ s.iter.thread.toSend

/-- What `next` returned is the start of the items of `inner` and of the `None`s after them; while
the receiver is there, all the rest is left. -/
structure Streams (inner : List α) (readahead : ℕ) (s : Prefetching α) : Prop where
  returned : ∃ k, s.returned <+: inner.map some ++ List.replicate k none
  rest : s.iter.channel.receiverGone = false →
    ∃ k, s.returned ++ s.left = inner.map some ++ List.replicate k none
  gone : s.iter.channel.receiverGone = true ↔ s.caller = .dropped
  idle : s.iter.thread.inSend = false → s.iter.channel.sending = none
  senderGone : s.iter.channel.senderGone = true ↔ s.iter.thread = .returned
  bound : s.iter.channel.bound = readahead
  fits : s.iter.channel.Fits

variable {inner : List α} {readahead : ℕ} {s s' : Prefetching α}

/-- At the start everything is ahead. -/
theorem streams_start (inner : List α) (readahead : ℕ) :
    (start inner readahead).Streams inner readahead where
  returned := ⟨0, List.nil_prefix⟩
  rest _ := ⟨1, rfl⟩
  gone := ⟨nofun, nofun⟩
  idle _ := rfl
  senderGone := ⟨nofun, nofun⟩
  bound := rfl
  fits := Nat.zero_le _

/-- A step of the thread loses nothing and adds nothing. -/
theorem Streams.thread (h : s.Streams inner readahead) {iter : AsyncBatchIter α}
    (hstep : s.iter.thread.step s.iter.channel = some iter) :
    Streams inner readahead { s with iter := iter } := by
  have hadv := Prefetcher.advances hstep h.idle
  refine ⟨h.returned, fun hgone => ?_, ?_, hadv.idle, hadv.senderGone h.senderGone,
    hadv.bound.trans h.bound, hadv.fits h.fits⟩
  · rw [hadv.receiverGone] at hgone
    have hleft : ({ s with iter := iter } : Prefetching α).left = s.left := hadv.left hgone
    rw [hleft]
    exact h.rest hgone
  · rw [hadv.receiverGone]
    exact h.gone

/-- A call gets the next of what is left, and `None` once nothing is. -/
theorem Streams.result (h : s.Streams inner readahead) (hcaller : s.caller = .inNext)
    {message : Except RecvError (Option α)} {channel : SyncChannel (Option α)}
    (hrecv : s.iter.channel.recvReturns = some (message, channel)) :
    Streams inner readahead
      { iter := { s.iter with channel := channel }
        caller := .idle
        returned := s.returned ++ [AsyncBatchIter.nextOf message] } := by
  have hpresent : s.iter.channel.receiverGone = false := by
    rw [← Bool.not_eq_true, h.gone, hcaller]
    nofun
  obtain ⟨hidle, hends⟩ := SyncChannel.sameEnds_of_recvReturns hrecv
  have hrest : ∃ k, s.returned ++ [AsyncBatchIter.nextOf message] ++
      (channel.inFlight ++ s.iter.thread.toSend) = inner.map some ++ List.replicate k none := by
    obtain ⟨k, hk⟩ := h.rest hpresent
    cases message with
    | ok m =>
      have hflight : s.left = m :: (channel.inFlight ++ s.iter.thread.toSend) := by
        rw [left, SyncChannel.inFlight_of_recvReturns hrecv, List.cons_append]
      have hm : AsyncBatchIter.nextOf (.ok m) = m := by cases m <;> rfl
      exact ⟨k, by rw [hm, List.append_assoc, List.singleton_append, ← hflight, hk]⟩
    | error err =>
      -- Only a thread that has returned leaves nothing behind a channel without a sender.
      obtain ⟨hempty, hgone, rfl⟩ := SyncChannel.inFlight_of_recvReturns_error hrecv
      have hleft : s.left = [] := by rw [left, hempty, h.senderGone.1 hgone]; rfl
      rw [hleft, List.append_nil] at hk
      refine ⟨k + 1, ?_⟩
      rw [hempty, h.senderGone.1 hgone, hk, Prefetcher.toSend, List.append_nil, List.append_nil,
        AsyncBatchIter.nextOf, List.append_assoc, ← List.replicate_succ']
  refine ⟨?_, fun _ => hrest, ?_, fun hsend => hidle (h.idle hsend), ?_, hends.bound.trans h.bound,
    SyncChannel.fits_of_recvReturns hrecv h.fits⟩
  · obtain ⟨k, hk⟩ := hrest
    exact ⟨k, _, hk⟩
  · rw [hends.receiverGone, hpresent]
    exact ⟨nofun, nofun⟩
  · rw [hends.senderGone]
    exact h.senderGone

/-- A move of either side keeps the stream. -/
theorem Streams.step (h : s.Streams inner readahead) {move : Move} (hstep : s.step move = some s') :
    s'.Streams inner readahead := by
  cases move with
  | thread =>
    obtain ⟨iter, hiter, rfl⟩ := Option.map_eq_some_iff.1 hstep
    exact h.thread hiter
  | call =>
    obtain ⟨hcaller, hs'⟩ := Option.ite_none_right_eq_some.1 hstep
    cases hs'
    refine ⟨h.returned, h.rest, ?_, h.idle, h.senderGone, h.bound, h.fits⟩
    rw [h.gone, hcaller]
    exact ⟨nofun, nofun⟩
  | result =>
    obtain ⟨hcaller, hret⟩ := Option.ite_none_right_eq_some.1 hstep
    obtain ⟨⟨message, channel⟩, hrecv, rfl⟩ := Option.map_eq_some_iff.1 hret
    exact h.result hcaller hrecv
  | drop =>
    obtain ⟨-, hs'⟩ := Option.ite_none_right_eq_some.1 hstep
    cases hs'
    exact ⟨h.returned, nofun, ⟨fun _ => rfl, fun _ => rfl⟩, h.idle, h.senderGone, h.bound,
      Nat.zero_le _⟩

/-- Any schedule keeps the stream. -/
theorem Streams.run {schedule : List Move} (h : s.Streams inner readahead)
    (hrun : s.run schedule = some s') : s'.Streams inner readahead := by
  induction schedule generalizing s with
  | nil =>
    cases hrun
    exact h
  | cons move schedule ih =>
    obtain ⟨t, ht, hrest⟩ := Option.bind_eq_some_iff.1 hrun
    exact ih (h.step ht) hrest

/-- The thread can go on or the call can return. -/
theorem Streams.progress (h : s.Streams inner readahead) :
    (s.iter.thread.step s.iter.channel).isSome ∨ s.iter.channel.recvReturns.isSome := by
  by_cases hret : s.iter.channel.sendReturns.isSome
  · cases ht : s.iter.thread with
    | looping items => cases items <;> exact .inl rfl
    | sending items => exact .inl (by rw [Prefetcher.step, Option.isSome_map]; exact hret)
    | signalling => exact .inl (by rw [Prefetcher.step, Option.isSome_map]; exact hret)
    | returning => exact .inl rfl
    | returned =>
      have hsending : s.iter.channel.sending = none := h.idle (by rw [ht]; rfl)
      have hgone := h.senderGone.2 ht
      refine .inr ?_
      cases hb : s.iter.channel.buffer with
      | nil => simp [SyncChannel.recvReturns, hb, hsending, hgone]
      | cons m buffer => simp [SyncChannel.recvReturns, hb]
  · cases hs : s.iter.channel.sending with
    | none => exact absurd (by simp [SyncChannel.sendReturns, hs]) hret
    | some m =>
      exact .inr ((SyncChannel.sendReturns_or_recvReturns (by simp [hs])).resolve_left hret)

/-- A call of `next` returns once the thread has run for a while. -/
theorem Streams.next_returns (h : s.Streams inner readahead) (hcall : s.caller = .inNext) :
    ∃ n s', s.run (List.replicate n .thread ++ [.result]) = some s' := by
  induction hn : s.iter.thread.stepsLeft using Nat.strong_induction_on generalizing s with
  | _ n ih =>
    rcases h.progress with hthread | hrecv
    · obtain ⟨iter, hiter⟩ := Option.isSome_iff_exists.1 hthread
      have hlt := (Prefetcher.advances hiter h.idle).stepsLeft
      obtain ⟨k, s', hs'⟩ := ih _ (hn ▸ hlt) (h.thread hiter) hcall rfl
      refine ⟨k + 1, s', ?_⟩
      rw [Prefetching.run, List.replicate_succ, List.cons_append, List.foldlM_cons,
        Prefetching.step, hiter]
      exact hs'
    · obtain ⟨⟨message, channel⟩, hret⟩ := Option.isSome_iff_exists.1 hrecv
      obtain ⟨s', hs'⟩ : ∃ s', s.step .result = some s' := by
        rw [Prefetching.step, if_pos hcall, hret]
        exact ⟨_, rfl⟩
      refine ⟨0, s', ?_⟩
      rw [Prefetching.run, List.replicate_zero, List.nil_append, List.foldlM_cons, hs']
      rfl

end Prefetching

namespace AsyncBatchIter

/-- Whatever the order in which the thread and the caller take their steps, the items that `next`
returned are the first of `inner`, a `None` comes after all of them, and nothing but `None` comes
after it. -/
theorem preserves_stream (inner : List α) (readahead : ℕ) (schedule : List Move) {s : Prefetching α}
    (h : (Prefetching.start inner readahead).run schedule = some s) :
    s.returned.reduceOption <+: inner ∧
      ∀ before after, s.returned = before ++ none :: after →
        before.reduceOption = inner ∧ ∀ r ∈ after, r = none := by
  obtain ⟨k, hk⟩ := ((Prefetching.streams_start inner readahead).run h).returned
  have hitems (n : ℕ) : (inner.map some ++ List.replicate n none).reduceOption = inner := by
    rw [List.reduceOption_append, List.reduceOption_replicate_none, List.append_nil,
      List.reduceOption, List.filterMap_map, Function.id_comp, List.filterMap_some]
  refine ⟨hitems k ▸ hk.reduceOption, fun before after hsplit => ?_⟩
  obtain ⟨rest, hrest⟩ := hk
  rw [hsplit, List.append_assoc, List.cons_append] at hrest
  obtain ⟨nones, rfl, hnones⟩ : ∃ nones, before = inner.map some ++ nones ∧
      List.replicate k none = nones ++ none :: (after ++ rest) := by
    rcases List.append_eq_append_iff.1 hrest with ⟨l, hl, hnone⟩ | h
    · cases l with
      | nil => exact ⟨[], by simp [hl], by simpa using hnone.symm⟩
      | cons r l =>
        -- The `None` is not one of the items.
        have hmem : none ∈ inner.map some := by
          rw [hl, (List.cons_eq_cons.1 hnone).1]
          exact List.mem_append_right _ List.mem_cons_self
        obtain ⟨item, -, hitem⟩ := List.mem_map.1 hmem
        cases hitem
    · exact h
  have hnone (r : Option α) (hr : r ∈ nones ++ none :: (after ++ rest)) : r = none :=
    List.eq_of_mem_replicate (hnones ▸ hr)
  refine ⟨?_, fun r hr => hnone r ?_⟩
  · rw [List.eq_replicate_of_mem fun r hr => hnone r (List.mem_append_left _ hr)]
    exact hitems _
  · exact List.mem_append_right _ (List.mem_cons_of_mem _ (List.mem_append_left _ hr))

/-- Two items read with room for one, and two calls after the end. -/
theorem preserves_stream_sample :
    ([some 1, some 2, none, none] : List (Option ℕ)).reduceOption <+: [1, 2] ∧
      ∀ before after, [some 1, some 2, none, none] = before ++ none :: after →
        before.reduceOption = [1, 2] ∧ ∀ r ∈ after, r = none :=
  preserves_stream [1, 2] 0
    [.call, .thread, .result, .thread, .thread, .call, .result, .thread, .thread, .call, .result,
      .thread, .thread, .call, .result]
    (s := ⟨⟨.returned, { bound := 0, senderGone := true }⟩, .idle, [some 1, some 2, none, none]⟩)
      (by decide)

/-- A call of `next` returns once the thread has run for long enough. -/
theorem next_returns (inner : List α) (readahead : ℕ) (schedule : List Move) {s : Prefetching α}
    (h : (Prefetching.start inner readahead).run schedule = some s) (hcall : s.caller = .inNext) :
    ∃ n s', s.run (List.replicate n .thread ++ [.result]) = some s' :=
  ((Prefetching.streams_start inner readahead).run h).next_returns hcall

/-- The channel never holds more than `readahead` items. -/
theorem buffer_le_readahead (inner : List α) (readahead : ℕ) (schedule : List Move)
    {s : Prefetching α} (h : (Prefetching.start inner readahead).run schedule = some s) :
    s.iter.channel.buffer.length ≤ readahead := by
  have hstreams := (Prefetching.streams_start inner readahead).run h
  exact hstreams.bound ▸ hstreams.fits

end AsyncBatchIter

end Backtester
