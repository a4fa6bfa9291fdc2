import Mathlib

/-!
# A bounded channel between two threads

One thread sends and one receives. A message waits in the buffer until it is received, and a `send`
waits while the buffer is full. A channel of `bound` 0 has no place to wait : its `send` hands the
message over to a `recv`, and returns after that. When one of the two ends is dropped, the calls of
the other return an error, `recv` not before the buffer is empty.

A call that waits is part of the state : `sendReturns` and `recvReturns` say how it returns, and are
`none` while it waits. Whatever the bound, the messages in flight are a queue
(`inFlight_of_sendReturns`, `inFlight_of_recvReturns`).
-/

/-- The receiver is gone. -/
structure SendError where
  deriving DecidableEq, Repr

/-- The sender is gone, and nothing is left to receive. -/
structure RecvError where
  deriving DecidableEq, Repr

/-- A channel with a bounded buffer, between one sender and one receiver. -/
structure SyncChannel (β : Type*) where
  bound : ℕ
  buffer : List β := []
  /-- The message of a `send` that still waits with it. -/
  sending : Option β := none
  senderGone : Bool := false
  receiverGone : Bool := false
  deriving DecidableEq, Repr

namespace SyncChannel

variable {β : Type*} {c c' : SyncChannel β}

/-- Call `send`. -/
def send (m : β) (c : SyncChannel β) : SyncChannel β := { c with sending := some m }

/-- A `send` returns when its message is in the buffer, or when nobody will receive it. -/
def sendReturns (c : SyncChannel β) : Option (Except SendError Unit × SyncChannel β) :=
  match c.sending with
  | none => some (.ok (), c)
  | some m =>
    if c.receiverGone then some (.error {}, { c with sending := none })
    else if c.buffer.length < c.bound then
      some (.ok (), { c with buffer := c.buffer ++ [m], sending := none })
    else none

/-- A `recv` returns the oldest message, or an error when none can come. -/
def recvReturns (c : SyncChannel β) : Option (Except RecvError β × SyncChannel β) :=
  match c.buffer, c.sending with
  | m :: buffer, _ => some (.ok m, { c with buffer := buffer })
  | [], some m => if c.bound = 0 then some (.ok m, { c with sending := none }) else none
  | [], none => if c.senderGone then some (.error {}, c) else none

/-- The sender goes away. -/
def dropSender (c : SyncChannel β) : SyncChannel β := { c with senderGone := true }

/-- The receiver goes away, with what is buffered. -/
def dropReceiver (c : SyncChannel β) : SyncChannel β :=
  { c with receiverGone := true, buffer := [] }

/-- The messages that were sent and not received, the oldest first. -/
def inFlight (c : SyncChannel β) : List β := c.buffer ++ c.sending.toList

/-- `c'` is `c` but for the messages that wait. -/
structure SameEnds (c c' : SyncChannel β) : Prop where
  bound : c'.bound = c.bound
  senderGone : c'.senderGone = c.senderGone
  receiverGone : c'.receiverGone = c.receiverGone

theorem SameEnds.refl (c : SyncChannel β) : SameEnds c c := ⟨rfl, rfl, rfl⟩

theorem inFlight_send {m : β} (h : c.sending = none) : (c.send m).inFlight = c.inFlight ++ [m] := by
  simp [inFlight, send, h]

/-- How a `send` returns : its message was handed over, or the receiver is gone, or there is
room. -/
theorem sendReturns_cases {r : Except SendError Unit} (h : c.sendReturns = some (r, c')) :
    (c.sending = none ∧ r = .ok () ∧ c' = c) ∨
    (c.receiverGone = true ∧ r = .error {} ∧ c' = { c with sending := none }) ∨
    ∃ m, c.sending = some m ∧ c.buffer.length < c.bound ∧ r = .ok () ∧
      c' = { c with buffer := c.buffer ++ [m], sending := none } := by
  unfold sendReturns at h
  cases hs : c.sending with
  | none =>
    simp only [hs, Option.some.injEq, Prod.mk.injEq] at h
    exact .inl ⟨rfl, h.1.symm, h.2.symm⟩
  | some m =>
    simp only [hs] at h
    split_ifs at h with hgone hroom
    · cases h
      exact .inr (.inl ⟨hgone, rfl, rfl⟩)
    · cases h
      exact .inr (.inr ⟨m, rfl, hroom, rfl, rfl⟩)

/-- How a `recv` returns : from the buffer, or from the `send` that waits, or without a sender. -/
theorem recvReturns_cases {r : Except RecvError β} (h : c.recvReturns = some (r, c')) :
    (∃ m buffer, c.buffer = m :: buffer ∧ r = .ok m ∧ c' = { c with buffer := buffer }) ∨
    (∃ m, c.buffer = [] ∧ c.sending = some m ∧ r = .ok m ∧ c' = { c with sending := none }) ∨
    (c.inFlight = [] ∧ c.senderGone = true ∧ r = .error {} ∧ c' = c) := by
  unfold recvReturns at h
  cases hb : c.buffer with
  | cons m buffer =>
    simp only [hb, Option.some.injEq, Prod.mk.injEq] at h
    exact .inl ⟨m, buffer, rfl, h.1.symm, h.2.symm⟩
  | nil =>
    cases hs : c.sending with
    | none =>
      simp only [hb, hs] at h
      split_ifs at h with hgone
      cases h
      exact .inr (.inr ⟨by simp [inFlight, hb, hs], hgone, rfl, rfl⟩)
    | some m =>
      simp only [hb, hs] at h
      split_ifs at h
      cases h
      exact .inr (.inl ⟨m, rfl, rfl, rfl, rfl⟩)

theorem sameEnds_of_sendReturns {r : Except SendError Unit} (h : c.sendReturns = some (r, c')) :
    c'.sending = none ∧ SameEnds c c' := by
  obtain ⟨hs, -, rfl⟩ | ⟨-, -, rfl⟩ | ⟨m, -, -, -, rfl⟩ := sendReturns_cases h
  · exact ⟨hs, .refl _⟩
  · exact ⟨rfl, rfl, rfl, rfl⟩
  · exact ⟨rfl, rfl, rfl, rfl⟩

/-- A `send` that succeeds leaves the messages in flight as they are : its own may be received by
then. -/
theorem inFlight_of_sendReturns (h : c.sendReturns = some (.ok (), c')) :
    c'.inFlight = c.inFlight := by
  obtain ⟨-, -, rfl⟩ | ⟨-, hr, -⟩ | ⟨m, hs, -, -, rfl⟩ := sendReturns_cases h
  · rfl
  · cases hr
  · simp [inFlight, hs]

theorem receiverGone_of_sendReturns {err : SendError} (h : c.sendReturns = some (.error err, c')) :
    c.receiverGone = true := by
  obtain ⟨-, hr, -⟩ | ⟨hgone, -, -⟩ | ⟨m, -, -, hr, -⟩ := sendReturns_cases h
  · cases hr
  · exact hgone
  · cases hr

theorem sameEnds_of_recvReturns {r : Except RecvError β} (h : c.recvReturns = some (r, c')) :
    (c.sending = none → c'.sending = none) ∧ SameEnds c c' := by
  obtain ⟨m, buffer, -, -, rfl⟩ | ⟨m, -, -, -, rfl⟩ | ⟨-, -, -, rfl⟩ := recvReturns_cases h
  · exact ⟨id, rfl, rfl, rfl⟩
  · exact ⟨fun _ => rfl, rfl, rfl, rfl⟩
  · exact ⟨id, .refl _⟩

/-- A `recv` that succeeds takes the oldest message in flight. -/
theorem inFlight_of_recvReturns {m : β} (h : c.recvReturns = some (.ok m, c')) :
    c.inFlight = m :: c'.inFlight := by
  obtain ⟨a, buffer, hb, hr, rfl⟩ | ⟨a, hb, hs, hr, rfl⟩ | ⟨-, -, hr, -⟩ := recvReturns_cases h
  · cases hr
    simp [inFlight, hb]
  · cases hr
    simp [inFlight, hb, hs]
  · cases hr

/-- `recv` fails only when no message is in flight and no sender is left. -/
theorem inFlight_of_recvReturns_error {err : RecvError}
    (h : c.recvReturns = some (.error err, c')) :
    c.inFlight = [] ∧ c.senderGone = true ∧ c' = c := by
  obtain ⟨m, buffer, -, hr, -⟩ | ⟨m, -, -, hr, -⟩ | ⟨hempty, hgone, -, rfl⟩ := recvReturns_cases h
  · cases hr
  · cases hr
  · exact ⟨hempty, hgone, rfl⟩

/-- A `send` and a `recv` do not both wait. -/
theorem sendReturns_or_recvReturns (h : c.sending.isSome) :
    c.sendReturns.isSome ∨ c.recvReturns.isSome := by
  obtain ⟨m, hm⟩ := Option.isSome_iff_exists.1 h
  cases hb : c.buffer with
  | cons a buffer => exact .inr (by simp [recvReturns, hb])
  | nil =>
    rcases Nat.eq_zero_or_pos c.bound with hbound | hbound
    · exact .inr (by simp [recvReturns, hb, hm, hbound])
    · refine .inl ?_
      simp only [sendReturns, hm, hb, List.length_nil, hbound, if_true]
      split_ifs <;> rfl

/-- No more messages wait in the buffer than it has places. -/
def Fits (c : SyncChannel β) : Prop := c.buffer.length ≤ c.bound

theorem fits_of_sendReturns {r : Except SendError Unit} (h : c.sendReturns = some (r, c'))
    (hfits : c.Fits) : c'.Fits := by
  obtain ⟨-, -, rfl⟩ | ⟨-, -, rfl⟩ | ⟨m, -, hroom, -, rfl⟩ := sendReturns_cases h
  · exact hfits
  · exact hfits
  · simp only [Fits, List.length_append, List.length_singleton]
    omega

theorem fits_of_recvReturns {r : Except RecvError β} (h : c.recvReturns = some (r, c'))
    (hfits : c.Fits) : c'.Fits := by
  obtain ⟨m, buffer, hb, -, rfl⟩ | ⟨m, -, -, -, rfl⟩ | ⟨-, -, -, rfl⟩ := recvReturns_cases h
  · have hlen : c.buffer.length ≤ c.bound := hfits
    rw [hb, List.length_cons] at hlen
    simp only [Fits]
    omega
  · exact hfits
  · exact hfits

end SyncChannel
