import Backtester.BucketIndex
import Backtester.Library.QueuePosition
import Backtester.Quantities
import Backtester.Reaction

/-!
# What a place in the queue fills

A queue model that keeps a place in the queue (`PositionQueueModel`) fills an order by the part of
the traded volume that is past the quantity ahead at entry, up to the order's quantity. One model
burns the quantity ahead down, the other compares the volume so far with it and remembers what was
claimed. Both keep `Tracks`, so they fill an order alike, trade by trade
(`ExchangeSimulator.fills_closed_form`).
-/

open History MachineInt QueuePosition Std

set_option linter.unusedSectionVars false

namespace Backtester

/-- A queue model that keeps a place in the queue. `At q ahead volume claimed state` : the state of
an order that joined behind `ahead`, after `volume`, of which it took `claimed`. -/
class PositionQueueModel (Q : Type) [QueueModel Q] where
  At : Q → ℤ → ℤ → ℤ → QueueModel.State Q → Prop
  registerOrder : ∀ (q : Q) (order : Order) (depth : MarketDepth),
    0 ≤ depth.levelQty order.side order.price →
    At q (depth.levelQty order.side order.price) 0 0 (QueueModel.registerOrder q order depth)
  checkFill : ∀ (q : Q) (order : Order) (trade : Tick) (state : QueueModel.State Q)
    {total ahead volume : ℤ}, 0 ≤ ahead → 0 ≤ volume → volume + trade.qty ≤ i64Max →
      total ≤ i64Max →
    tradeReaches order (total - served total ahead volume) trade = true →
    At q ahead volume (served total ahead volume) state →
    (QueueModel.checkFill q order (total - served total ahead volume) trade state).1 =
      served total ahead (volume + trade.qty) - served total ahead volume ∧
    At q ahead (volume + trade.qty) (served total ahead (volume + trade.qty))
      (QueueModel.checkFill q order (total - served total ahead volume) trade state).2
  onL3Update : ∀ (q : Q) (order : Order) (state : QueueModel.State Q) (update : L3Update)
    {ahead volume claimed : ℤ}, At q ahead volume claimed state →
    At q ahead volume claimed (QueueModel.onL3Update q order state update)

theorem tradeReaches_iff {order : Order} {remainingQty : ℤ} {trade : Tick} :
    tradeReaches order remainingQty trade = true ↔ 0 < remainingQty ∧
      trade.symbolId = order.symbolId ∧ trade.price = order.price ∧ 0 < trade.qty ∧
      isAgainst order.side trade.side = true := by
  simp only [tradeReaches, Bool.and_eq_true, decide_eq_true_eq, and_assoc]

/-- The quantity ahead is burnt down. -/
instance : PositionQueueModel ConservativeQueue where
  At _ ahead volume _ state := ConservativeQueueState.qtyAhead state = left ahead volume
  registerOrder _ _ _ h := (left_zero h).symm
  checkFill q order trade state total ahead volume hahead hvolume hmax htotal hreaches hat := by
    obtain ⟨hremaining, -, -, hqty, -⟩ := tradeReaches_iff.1 hreaches
    have hleft : 0 ≤ left ahead volume := le_max_left _ _
    have hdeplete : depleteAhead state.qtyAhead trade.qty =
        (trade.qty - min (left ahead volume) trade.qty, left ahead (volume + trade.qty)) := by
      rw [left_add hqty.le, hat, depleteAhead]
      split_ifs with hpos
      · rfl
      · rw [show left ahead volume = 0 by omega, min_eq_left hqty.le, sub_zero, sub_zero]
    simp only [QueueModel.checkFill, hreaches, if_true, hdeplete]
    have htotal : 0 ≤ total := by
      have hnonneg := served_le total ahead volume
      by_contra hneg
      unfold served at hremaining
      omega
    exact ⟨(served_burn hqty.le htotal).symm, trivial⟩
  onL3Update _ _ _ _ _ _ _ h := h

/-- A trade counts as volume, and what it serves beyond the volume before it is filled. -/
theorem VolumeClockQueue.checkFill_eq (q : VolumeClockQueue) (order : Order) (trade : Tick)
    {total ahead volume : ℤ} (hahead : 0 ≤ ahead) (hvolume : 0 ≤ volume)
    (hmax : volume + trade.qty ≤ i64Max) (htotal : total ≤ i64Max)
    (hreaches : tradeReaches order (total - served total ahead volume) trade = true) :
    QueueModel.checkFill q order (total - served total ahead volume) trade
        (VolumeClockQueueState.mk ahead volume (served total ahead volume)) =
      (served total ahead (volume + trade.qty) - served total ahead volume,
        VolumeClockQueueState.mk ahead (volume + trade.qty)
          (served total ahead (volume + trade.qty))) := by
  obtain ⟨hremaining, -, -, hqty, -⟩ := tradeReaches_iff.1 hreaches
  have hserved : served total ahead (volume + trade.qty) - served total ahead volume =
      max (min (volume + trade.qty - ahead - served total ahead volume)
        (total - served total ahead volume)) 0 := served_claim hqty.le (sub_pos.1 hremaining)
  have hclaimed : 0 ≤ served total ahead volume ∧ served total ahead volume ≤ i64Max := by
    unfold served at hremaining ⊢
    omega
  generalize served total ahead volume = claimed at *
  generalize served total ahead (volume + trade.qty) = claimed' at *
  have hmax64 : i64Max = 9223372036854775807 := by norm_num [i64Max]
  have hcum : satAddI64 volume trade.qty = volume + trade.qty :=
    clamp_eq_self (by unfold InRange; norm_num; omega)
  -- the difference saturates only far below what was claimed
  have hpast : satSubI64 (volume + trade.qty) ahead ≤ claimed ↔
      volume + trade.qty - ahead ≤ claimed := by
    unfold satSubI64 clamp
    norm_num
    omega
  simp only [QueueModel.checkFill, hreaches, if_true, hcum, hpast]
  split_ifs with hnone
  · have hsame : claimed' = claimed := by omega
    rw [hsame, sub_self]
  · have hexact : satSubI64 (volume + trade.qty) ahead = volume + trade.qty - ahead :=
      clamp_eq_self (by unfold InRange; norm_num; omega)
    have hsub : subI64 (volume + trade.qty - ahead) claimed =
        volume + trade.qty - ahead - claimed :=
      wrap_eq_self (by norm_num) (by unfold InRange; norm_num; omega)
    have hadd : satAddI64 claimed (claimed' - claimed) = claimed' := by
      rw [satAddI64, clamp_eq_self (by unfold InRange; norm_num; omega)]
      omega
    rw [hexact, hsub, ← hserved, hadd]

/-- The volume is counted, and what was claimed of it. -/
instance : PositionQueueModel VolumeClockQueue where
  At _ ahead volume claimed state := state = VolumeClockQueueState.mk ahead volume claimed
  registerOrder _ _ _ _ := rfl
  checkFill q order trade state total ahead volume hahead hvolume hmax htotal hreaches hat := by
    rw [hat, VolumeClockQueue.checkFill_eq q order trade hahead hvolume hmax htotal hreaches]
    exact ⟨rfl, rfl⟩
  onL3Update _ _ _ _ _ _ _ h := h

/-! ## One order -/

/-- The trade counts for the order : the order takes part in trades, and the trade has its symbol
and price, a positive quantity and the other side. -/
def LiveOrder.sees {σ : Type} (o : LiveOrder σ) (trade : Tick) : Bool :=
  o.state.isFillable && tradeReaches o.order 1 trade

/-- The volume that a call brings an order. -/
def LiveOrder.seen {σ : Type} (o : LiveOrder σ) : ExchangeOp → ℤ
  | .onTrade trade => if o.sees trade then trade.qty else 0
  | _ => 0

theorem LiveOrder.seen_nonneg {σ : Type} (o : LiveOrder σ) (op : ExchangeOp) : 0 ≤ o.seen op := by
  cases op with
  | onTrade trade =>
    simp only [seen]
    split_ifs with hsees
    · rw [sees, Bool.and_eq_true] at hsees
      obtain ⟨-, -, -, hqty, -⟩ := tradeReaches_iff.1 hsees.2
      exact hqty.le
    · exact le_rfl
  | _ => exact le_rfl

variable {Q : Type} [QueueModel Q] [PositionQueueModel Q] [SelectiveQueueModel Q]

/-- The order joined behind `ahead` and has seen `volume`. -/
structure LiveOrder.Tracks (q : Q) (ahead volume : ℤ) (o : LiveOrder (QueueModel.State Q)) :
    Prop where
  qty : 0 < o.order.qty ∧ o.order.qty ≤ i64Max
  ahead_nonneg : 0 ≤ ahead
  volume_nonneg : 0 ≤ volume
  filled : o.filledQty = served o.order.qty ahead volume
  remaining : o.remainingQty = o.order.qty - served o.order.qty ahead volume
  queue : PositionQueueModel.At q ahead volume (served o.order.qty ahead volume) o.queueState
  live : o.state.isTerminal = false → 0 < o.remainingQty

/-- The state of an order of `qty` once `filledQty` of it is filled. -/
def filledState (qty filledQty : ℤ) : OrderState :=
  if qty - filledQty = 0 then .filled else .partiallyFilled

theorem not_terminal_of_fillable : ∀ {s : OrderState}, s.isFillable = true → s.isTerminal = false
  | .open, _ | .partiallyFilled, _ | .pendingCancel, _ => rfl

namespace LiveOrder.Tracks

variable {q : Q} {ahead volume : ℤ} {o : LiveOrder (QueueModel.State Q)}

/-- A change of state that keeps the quantities. -/
theorem of_state (h : o.Tracks q ahead volume) {s : OrderState}
    (hs : s.isTerminal = false → o.state.isTerminal = false) :
    Tracks q ahead volume { o with state := s } :=
  ⟨h.qty, h.ahead_nonneg, h.volume_nonneg, h.filled, h.remaining, h.queue,
    fun hlive => h.live (hs hlive)⟩

/-- A trade that the order sees fills it by what it serves. -/
theorem offer_seen (h : o.Tracks q ahead volume) {trade : Tick} (hsees : o.sees trade = true)
    (hmax : volume + trade.qty ≤ i64Max) :
    let served' := served o.order.qty ahead (volume + trade.qty)
    let fillQty := served' - served o.order.qty ahead volume
    (o.offer q trade).1.Tracks q ahead (volume + trade.qty) ∧
      (o.offer q trade).1.state =
        (if fillQty = 0 then o.state else filledState o.order.qty served') ∧
      (o.offer q trade).2 = if fillQty = 0 then none else
        some (o.order.report (filledState o.order.qty served') fillQty trade.price served'
          (o.order.qty - served') none) := by
  intro served' fillQty
  obtain ⟨⟨hpos, hqtyMax⟩, hahead, hvolume, hfilled, hremaining, hat, hlive⟩ := h
  rw [sees, Bool.and_eq_true] at hsees
  obtain ⟨hfillable, hreach⟩ := hsees
  have hactive : 0 < o.remainingQty := hlive (not_terminal_of_fillable hfillable)
  have hreaches : tradeReaches o.order (o.order.qty - served o.order.qty ahead volume) trade =
      true :=
    tradeReaches_iff.2 ⟨hremaining ▸ hactive, (tradeReaches_iff.1 hreach).2⟩
  obtain ⟨hfill, hat'⟩ := PositionQueueModel.checkFill q o.order trade o.queueState hahead
    hvolume hmax hqtyMax hreaches hat
  rw [← hremaining] at hfill hat'
  have hqty : 0 < trade.qty := (tradeReaches_iff.1 hreach).2.2.2.1
  have hmono : served o.order.qty ahead volume ≤ served' := by
    simp only [served', served]
    omega
  have hle : served' ≤ o.order.qty := served_le _ _ _
  have hnonneg : 0 ≤ served o.order.qty ahead volume := served_nonneg hpos.le
  have hmax64 : i64Max = 9223372036854775807 := by norm_num [i64Max]
  rcases ExchangeSimulator.offer_cases q trade o with ⟨hidle, -⟩ | ⟨hnofill, heq⟩ |
    ⟨-, -, hsome, heq⟩
  · rcases hidle with hnone | hidle
    · omega
    · simp [hfillable] at hidle
  · have hzero : fillQty = 0 := by
      have hle' : fillQty ≤ 0 := hfill.symm.trans_le hnofill
      omega
    rw [heq, hzero, if_pos rfl, if_pos rfl]
    have hsame : served' = served o.order.qty ahead volume := by omega
    refine ⟨⟨⟨hpos, hqtyMax⟩, hahead, by omega, hfilled.trans hsame.symm, ?_, hat', hlive⟩,
      rfl, rfl⟩
    exact hremaining.trans (congrArg (o.order.qty - ·) hsame.symm)
  · have hne : fillQty ≠ 0 := by
      have hlt : 0 < fillQty := hsome.trans_eq hfill
      omega
    have hadd : addI64 o.filledQty (o.fillQty q trade) = served' := by
      rw [LiveOrder.fillQty, hfill, hfilled]
      exact (wrap_eq_self (by norm_num) (by unfold InRange; norm_num; omega)).trans (by omega)
    have hsub : subI64 o.remainingQty (o.fillQty q trade) = o.order.qty - served' := by
      rw [LiveOrder.fillQty, hfill, hremaining]
      exact (wrap_eq_self (by norm_num) (by unfold InRange; norm_num; omega)).trans (by omega)
    have hstate : (o.filled q trade).state = filledState o.order.qty served' := by
      rw [filledState, ← hsub]
      rfl
    rw [heq, if_neg hne, if_neg hne]
    refine ⟨⟨⟨hpos, hqtyMax⟩, hahead, by omega, hadd, hsub, hat', fun hopen => ?_⟩, hstate, ?_⟩
    · rw [hstate, filledState] at hopen
      change 0 < subI64 o.remainingQty (o.fillQty q trade)
      split_ifs at hopen with hrest
      · cases hopen
      · omega
    · have hfilled' : (o.filled q trade).filledQty = served' := hadd
      have hremaining' : (o.filled q trade).remainingQty = o.order.qty - served' := hsub
      have hfillQty : o.fillQty q trade = fillQty := hfill
      rw [fillReport, hstate, hfilled', hremaining', hfillQty]

/-- A trade that the order does not see leaves it as it is. -/
theorem offer_unseen {trade : Tick} (hsees : o.sees trade = false) :
    o.offer q trade = (o, none) := by
  cases hfillable : o.state.isFillable with
  | false => simp [offer, hfillable]
  | true =>
    refine ExchangeSimulator.offer_of_not_reached (Bool.eq_false_iff.2 fun hreaches => ?_) q
    have hreach : tradeReaches o.order 1 trade = true :=
      tradeReaches_iff.2 ⟨one_pos, (tradeReaches_iff.1 hreaches).2⟩
    simp [sees, hfillable, hreach] at hsees

theorem followL3 (h : o.Tracks q ahead volume) (update : L3Update) :
    (o.followL3 q update).Tracks q ahead volume := by
  have hqueue := PositionQueueModel.onL3Update q o.order o.queueState update h.queue
  have hmoved : Tracks q ahead volume
      { o with queueState := QueueModel.onL3Update q o.order o.queueState update } :=
    ⟨h.qty, h.ahead_nonneg, h.volume_nonneg, h.filled, h.remaining, hqueue, h.live⟩
  unfold LiveOrder.followL3
  split
  · exact hmoved
  · exact hmoved
  · exact hmoved
  · exact h

/-- A trade is offered only to orders that may see it. -/
theorem react_onTrade (q : Q) (o : LiveOrder (QueueModel.State Q)) (n : ℕ) (trade : Tick) :
    o.react q n (.onTrade trade) = ((o.offer q trade).1, (o.offer q trade).2.toList) := by
  simp only [react]
  split_ifs with hat
  · rfl
  · have hsees : o.sees trade = false := by
      refine Bool.eq_false_iff.2 fun hsees => hat ?_
      rw [sees, Bool.and_eq_true] at hsees
      obtain ⟨-, -, hprice, -, hagainst⟩ := tradeReaches_iff.1 hsees.2
      refine ⟨?_, hprice⟩
      cases hs : trade.side <;> cases hs' : o.order.side <;>
        simp_all [ExchangeSimulator.makerSide, isAgainst]
    rw [offer_unseen hsees]
    rfl

end LiveOrder.Tracks

/-- The same order under two models, at the same place in the queue. -/
structure LiveOrder.Alike {Q₁ Q₂ : Type} [QueueModel Q₁] [PositionQueueModel Q₁] [QueueModel Q₂]
    [PositionQueueModel Q₂] (q₁ : Q₁) (q₂ : Q₂) (ahead volume : ℤ)
    (o₁ : LiveOrder (QueueModel.State Q₁)) (o₂ : LiveOrder (QueueModel.State Q₂)) : Prop where
  order : o₁.order = o₂.order
  state : o₁.state = o₂.state
  tracks₁ : o₁.Tracks q₁ ahead volume
  tracks₂ : o₂.Tracks q₂ ahead volume

namespace LiveOrder.Alike

variable {Q₁ Q₂ : Type} [QueueModel Q₁] [PositionQueueModel Q₁] [SelectiveQueueModel Q₁]
  [QueueModel Q₂] [PositionQueueModel Q₂] [SelectiveQueueModel Q₂] {q₁ : Q₁} {q₂ : Q₂}
  {ahead volume : ℤ} {o₁ : LiveOrder (QueueModel.State Q₁)} {o₂ : LiveOrder (QueueModel.State Q₂)}

theorem of_state (h : Alike q₁ q₂ ahead volume o₁ o₂) {s : OrderState}
    (hs : s.isTerminal = false → o₁.state.isTerminal = false) :
    Alike q₁ q₂ ahead volume { o₁ with state := s } { o₂ with state := s } :=
  ⟨h.order, rfl, h.tracks₁.of_state hs, h.tracks₂.of_state fun hopen => h.state ▸ hs hopen⟩

theorem quantities_eq (h : Alike q₁ q₂ ahead volume o₁ o₂) : o₁.filledQty = o₂.filledQty ∧
    o₁.remainingQty = o₂.remainingQty := by
  rw [h.tracks₁.filled, h.tracks₂.filled, h.tracks₁.remaining, h.tracks₂.remaining, h.order]
  exact ⟨rfl, rfl⟩

theorem sees_eq (h : Alike q₁ q₂ ahead volume o₁ o₂) (trade : Tick) :
    o₁.sees trade = o₂.sees trade := by
  rw [sees, sees, h.order, h.state]

theorem seen_eq (h : Alike q₁ q₂ ahead volume o₁ o₂) (op : ExchangeOp) :
    o₁.seen op = o₂.seen op := by
  cases op with
  | onTrade trade => rw [seen, seen, h.sees_eq]
  | _ => rfl

/-- A trade fills both orders alike. -/
theorem offer (h : Alike q₁ q₂ ahead volume o₁ o₂) {trade : Tick}
    (hmax : volume + o₁.seen (.onTrade trade) ≤ i64Max) :
    Alike q₁ q₂ ahead (volume + o₁.seen (.onTrade trade)) (o₁.offer q₁ trade).1
        (o₂.offer q₂ trade).1 ∧
      (o₁.offer q₁ trade).2 = (o₂.offer q₂ trade).2 := by
  cases hsees : o₁.sees trade with
  | false =>
    have hnone : o₁.seen (.onTrade trade) = 0 := by simp [seen, hsees]
    rw [hnone, add_zero, Tracks.offer_unseen hsees, Tracks.offer_unseen (h.sees_eq trade ▸ hsees)]
    exact ⟨h, rfl⟩
  | true =>
    have hall : o₁.seen (.onTrade trade) = trade.qty := by simp [seen, hsees]
    rw [hall] at hmax ⊢
    obtain ⟨htracks₁, hstate₁, hreport₁⟩ := h.tracks₁.offer_seen hsees hmax
    obtain ⟨htracks₂, hstate₂, hreport₂⟩ := h.tracks₂.offer_seen (h.sees_eq trade ▸ hsees) hmax
    refine ⟨⟨?_, ?_, htracks₁, htracks₂⟩, ?_⟩
    · rw [ExchangeSimulator.order_offer, ExchangeSimulator.order_offer, h.order]
    · rw [hstate₁, hstate₂, h.order, h.state]
    · rw [hreport₁, hreport₂, h.order]

/-- A call does the same to both orders. -/
theorem react (h : Alike q₁ q₂ ahead volume o₁ o₂) (n : ℕ) {op : ExchangeOp}
    (hmax : volume + o₁.seen op ≤ i64Max) :
    Alike q₁ q₂ ahead (volume + o₁.seen op) (o₁.react q₁ n op).1 (o₂.react q₂ n op).1 ∧
      (o₁.react q₁ n op).2 = (o₂.react q₂ n op).2 := by
  obtain ⟨hfilled, hremaining⟩ := h.quantities_eq
  cases op with
  | onTrade trade =>
    obtain ⟨halike, hreport⟩ := h.offer hmax
    rw [Tracks.react_onTrade, Tracks.react_onTrade, hreport]
    exact ⟨halike, rfl⟩
  | ackNew m =>
    simp only [LiveOrder.react, seen, add_zero, h.state]
    split_ifs with hack
    · exact ⟨h.of_state fun _ => by rw [h.state, hack.2]; rfl, by rw [h.order, hremaining]⟩
    · exact ⟨h, rfl⟩
  | cancelOrder m =>
    simp only [LiveOrder.react, seen, add_zero, h.state]
    split_ifs with hcancel
    · refine ⟨h.of_state fun _ => ?_, rfl⟩
      rw [h.state]
      cases hs : o₂.state <;> simp_all [OrderState.canTransitionTo, OrderState.isTerminal]
    · exact ⟨h, rfl⟩
  | ackCancel m =>
    simp only [LiveOrder.react, seen, add_zero, h.state]
    split_ifs with hcancel
    · exact ⟨h.of_state (s := .cancelled) (by simp [OrderState.isTerminal]),
        by rw [h.order, hfilled, hremaining]⟩
    · exact ⟨h, rfl⟩
  | forceCancelPartialFill m =>
    simp only [LiveOrder.react, seen, add_zero]
    split_ifs with hforce
    · exact ⟨h.of_state (s := .cancelled) (by simp [OrderState.isTerminal]),
        by rw [h.order, hfilled, hremaining]⟩
    · exact ⟨h, rfl⟩
  | applyL3Update update =>
    obtain ⟨horder₁, hstate₁⟩ := ExchangeSimulator.face_followL3 q₁ update o₁
    obtain ⟨horder₂, hstate₂⟩ := ExchangeSimulator.face_followL3 q₂ update o₂
    simp only [LiveOrder.react, seen, add_zero]
    exact ⟨⟨by rw [horder₁, horder₂, h.order], by rw [hstate₁, hstate₂, h.state],
      h.tracks₁.followL3 update, h.tracks₂.followL3 update⟩, trivial⟩
  | _ => simpa [LiveOrder.react, seen] using h

end LiveOrder.Alike

/-! ## Sessions -/

namespace ExchangeSimulator

section Sessions

variable {Q : Type} [QueueModel Q] {ex : ExchangeSimulator Q} {n : ℕ}

/-- The volume that a call brings the order stored under `n`. -/
def seenBy (ex : ExchangeSimulator Q) (n : ℕ) (op : ExchangeOp) : ℤ :=
  (ex.orders[n]?.map fun o => o.seen op).getD 0

/-- The volume that a sequence of calls brings the order stored under `n` : the quantities of the
trades it sees. -/
def volumeSeen (n : ℕ) : ExchangeSimulator Q → List ExchangeOp → ℤ
  | _, [] => 0
  | ex, op :: ops => ex.seenBy n op + volumeSeen n (ex.perform op).1 ops

theorem session_cons (ex : ExchangeSimulator Q) (op : ExchangeOp) (ops : List ExchangeOp) :
    (ex.session (op :: ops)).1 = ((ex.perform op).1.session ops).1 := by
  induction ops using List.reverseRecOn with
  | nil => rfl
  | append_singleton ops op' ih =>
    rw [← List.cons_append, session_snoc, session_snoc, Session.next, Session.next, ih]

theorem volumeSeen_snoc (n : ℕ) (ex : ExchangeSimulator Q) (ops : List ExchangeOp)
    (op : ExchangeOp) :
    volumeSeen n ex (ops ++ [op]) = volumeSeen n ex ops + (ex.session ops).1.seenBy n op := by
  induction ops generalizing ex with
  | nil => simp [volumeSeen]
  | cons op' ops ih =>
    rw [List.cons_append, volumeSeen, volumeSeen, ih, session_cons, add_assoc]

theorem seenBy_nonneg (ex : ExchangeSimulator Q) (n : ℕ) (op : ExchangeOp) :
    0 ≤ ex.seenBy n op := by
  unfold seenBy
  cases ex.orders[n]? with
  | none => exact le_rfl
  | some o => exact o.seen_nonneg op

theorem volumeSeen_le (n : ℕ) (ex : ExchangeSimulator Q) (ops ops' : List ExchangeOp) :
    volumeSeen n ex ops ≤ volumeSeen n ex (ops ++ ops') := by
  induction ops' using List.reverseRecOn with
  | nil => rw [List.append_nil]
  | append_singleton ops' op ih =>
    rw [← List.append_assoc, volumeSeen_snoc]
    have hnonneg := (ex.session (ops ++ ops')).1.seenBy_nonneg n op
    omega

/-- An L2 simulator stays one. -/
theorem bookL3_perform {op : ExchangeOp} (h : ex.bookL3 = none) :
    (ex.perform op).1.bookL3 = none := by
  cases op with
  | applyL2Update update => exact h
  | applyL3Update update => simp [perform, applyL3Update, h]
  | _ => exact (ex.books_perform (by simp) (by simp)).2.trans h

end Sessions

section Pairs

variable {Q₁ Q₂ : Type} [QueueModel Q₁] [QueueModel Q₂] {ex₁ : ExchangeSimulator Q₁}
  {ex₂ : ExchangeSimulator Q₂} {n : ℕ}

/-- The calls make the same L2 book under any queue model. -/
theorem book_perform (op : ExchangeOp) (h : ex₁.book = ex₂.book) :
    (ex₁.perform op).1.book = (ex₂.perform op).1.book := by
  have hkept : (∀ update, op ≠ .applyL2Update update) → (∀ update, op ≠ .applyL3Update update) →
      (ex₁.perform op).1.book = (ex₂.perform op).1.book := by
    intro h2 h3
    rw [(ex₁.books_perform h2 h3).1, (ex₂.books_perform h2 h3).1, h]
  cases op with
  | applyL2Update update => exact congrArg (OrderBookL2.applyL2 · update) h
  | applyL3Update update =>
    have hbook : ∀ {Q : Type} [QueueModel Q] (ex : ExchangeSimulator Q),
        (ex.applyL3Update update).1.book = ex.book := by
      intro Q _ ex
      simp only [applyL3Update]
      split
      · rfl
      · split <;> rfl
    exact (hbook ex₁).trans (h.trans (hbook ex₂).symm)
  | _ => exact hkept (by simp) (by simp)

theorem depth_session (q₁ : Q₁) (q₂ : Q₂) (ops : List ExchangeOp) :
    ((new q₁).session ops).1.depth = ((new q₁).session ops).1.book.depth ∧
      ((new q₂).session ops).1.depth = ((new q₁).session ops).1.book.depth := by
  have hall : ((new q₁).session ops).1.bookL3 = none ∧ ((new q₂).session ops).1.bookL3 = none ∧
      ((new q₁).session ops).1.book = ((new q₂).session ops).1.book := by
    induction ops using List.reverseRecOn with
    | nil => exact ⟨rfl, rfl, rfl⟩
    | append_singleton ops op ih =>
      obtain ⟨h₁, h₂, hbook⟩ := ih
      rw [session_snoc, session_snoc]
      exact ⟨bookL3_perform h₁, bookL3_perform h₂, book_perform op hbook⟩
  obtain ⟨h₁, h₂, hbook⟩ := hall
  rw [depth, depth, h₁, h₂, hbook]
  exact ⟨rfl, rfl⟩

variable [PositionQueueModel Q₁] [SelectiveQueueModel Q₁] [PositionQueueModel Q₂]
  [SelectiveQueueModel Q₂]

variable {ids : List ℕ} {o₁ : LiveOrder (QueueModel.State Q₁)}
  {o₂ : LiveOrder (QueueModel.State Q₂)}
  {q₁ : Q₁} {q₂ : Q₂} {ahead volume : ℤ} {op : ExchangeOp} {ops : List ExchangeOp}

/-- The same call keeps an order alike in two simulators. -/
theorem alike_perform (h₁ : ex₁.Indexed ids) (h₂ : ex₂.Indexed ids) (hq₁ : ex₁.queueModel = q₁)
    (hq₂ : ex₂.queueModel = q₂) (ho₁ : ex₁.orders[n]? = some o₁) (ho₂ : ex₂.orders[n]? = some o₂)
    (halike : o₁.Alike q₁ q₂ ahead volume o₂) (rests : op.Rests n)
    (hmax : volume + ex₁.seenBy n op ≤ i64Max) :
    (∃ o₁' o₂', (ex₁.perform op).1.orders[n]? = some o₁' ∧
      (ex₂.perform op).1.orders[n]? = some o₂' ∧
      o₁'.Alike q₁ q₂ ahead (volume + ex₁.seenBy n op) o₂' ∧ o₁'.order = o₁.order) ∧
    ex₂.seenBy n op = ex₁.seenBy n op ∧
    reportsAbout n (ex₁.perform op).2 = reportsAbout n (ex₂.perform op).2 := by
  have hseen₁ : ex₁.seenBy n op = o₁.seen op := by rw [seenBy, ho₁]; rfl
  have hseen₂ : ex₂.seenBy n op = o₂.seen op := by rw [seenBy, ho₂]; rfl
  rw [hseen₁] at hmax
  rw [hseen₁, hseen₂]
  obtain ⟨hstored₁, hreports₁⟩ := perform_react h₁ ho₁ rests
  obtain ⟨hstored₂, hreports₂⟩ := perform_react h₂ ho₂ rests
  rw [hq₁] at hstored₁ hreports₁
  rw [hq₂] at hstored₂ hreports₂
  obtain ⟨hreact, hsame⟩ := halike.react n hmax
  exact ⟨⟨_, _, hstored₁, hstored₂, hreact, o₁.order_react q₁ n op⟩, (halike.seen_eq op).symm,
    hreports₁.trans (hsame.trans hreports₂.symm)⟩

/-- An order stays alike in two sessions of the same calls. -/
theorem alike_session (h₁ : ex₁.Indexed ids) (h₂ : ex₂.Indexed ids) (hq₁ : ex₁.queueModel = q₁)
    (hq₂ : ex₂.queueModel = q₂) (ho₁ : ex₁.orders[n]? = some o₁) (ho₂ : ex₂.orders[n]? = some o₂)
    (halike : o₁.Alike q₁ q₂ ahead 0 o₂) (fresh : Always (FreshFrom ids) ops)
    (rests : ∀ op ∈ ops, op.Rests n) (hmax : volumeSeen n ex₁ ops ≤ i64Max) :
    (∃ o₁' o₂', (ex₁.session ops).1.orders[n]? = some o₁' ∧
      (ex₂.session ops).1.orders[n]? = some o₂' ∧
      o₁'.Alike q₁ q₂ ahead (volumeSeen n ex₁ ops) o₂' ∧ o₁'.order = o₁.order) ∧
    volumeSeen n ex₂ ops = volumeSeen n ex₁ ops := by
  induction ops using List.reverseRecOn with
  | nil => exact ⟨⟨o₁, o₂, ho₁, ho₂, halike, rfl⟩, rfl⟩
  | append_singleton ops op ih =>
    have hfresh := (always_snoc.1 fresh).1
    rw [volumeSeen_snoc] at hmax
    have hnonneg := (ex₁.session ops).1.seenBy_nonneg n op
    obtain ⟨⟨o₁', o₂', ho₁', ho₂', halike', horder⟩, hvolume⟩ :=
      ih hfresh (fun op' hop' => rests op' (by simp [hop'])) (by omega)
    obtain ⟨⟨p₁, p₂, hp₁, hp₂, hlast, hsame⟩, hseen, -⟩ :=
      alike_perform (indexed_session_from h₁ hfresh)
      (indexed_session_from h₂ hfresh) ((queueModel_session _ _).trans hq₁)
      ((queueModel_session _ _).trans hq₂) ho₁' ho₂' halike' (rests op (by simp)) hmax
    rw [session_snoc, session_snoc, volumeSeen_snoc, volumeSeen_snoc, hvolume, hseen]
    exact ⟨⟨p₁, p₂, hp₁, hp₂, hlast, hsame.trans horder⟩, rfl⟩

/-- The simulator after `before`, with one more order. -/
def entered {Q : Type} [QueueModel Q] (q : Q) (before : List ExchangeOp) (order : Order) :
    ExchangeSimulator Q :=
  ((new q).session before).1.submitOrder order

theorem entered_eq {Q : Type} [QueueModel Q] (q : Q) (before : List ExchangeOp) (order : Order) :
    entered q before order = ((new q).session (before ++ [.submitOrder order])).1 := by
  rw [session_snoc]
  rfl

theorem indexed_entered {Q : Type} [QueueModel Q] (q : Q) {before : List ExchangeOp} {order : Order}
    (fresh : Always Fresh (before ++ [.submitOrder order])) :
    (entered q before order).Indexed (submittedIds (before ++ [.submitOrder order])) := by
  rw [entered_eq]
  exact indexed_session ⟨q, .inl rfl⟩ fresh

theorem stored_entered {Q : Type} [QueueModel Q] (q : Q) (before : List ExchangeOp)
    (order : Order) :
    (entered q before order).orders[order.orderId]? =
      some (order.registered q ((new q).session before).1.depth) := by
  rw [entered, getElem?_submitOrder, if_pos rfl, queueModel_session]
  rfl

variable {before after : List ExchangeOp} {order : Order}

/-- A new order is at its place in the queue. -/
theorem tracks_registered {Q : Type} [QueueModel Q] [PositionQueueModel Q] (q : Q)
    (depth : MarketDepth)
    (qty : 0 < order.qty ∧ order.qty ≤ i64Max)
    (hahead : 0 ≤ depth.levelQty order.side order.price) :
    (order.registered q depth).Tracks q (depth.levelQty order.side order.price) 0 := by
  have hnone :
      served (order.registered q depth).order.qty (depth.levelQty order.side order.price) 0 = 0 :=
    served_zero qty.1.le hahead
  refine ⟨qty, hahead, le_rfl, hnone.symm, ?_, ?_, fun _ => qty.1⟩
  · rw [hnone, sub_zero]
    rfl
  · rw [hnone]
    exact PositionQueueModel.registerOrder q order depth hahead

/-- An order behind `ahead` at entry is filled by the volume it sees past `ahead`, up to its
quantity, whether the quantity ahead is burnt down or the volume is counted. A trade fills it the
same way under both models. -/
theorem fills_closed_form (fresh : Always Fresh (before ++ .submitOrder order :: after))
    (rests : ∀ op ∈ after, op.Rests order.orderId) (qty : 0 < order.qty ∧ order.qty ≤ i64Max)
    (hahead : 0 ≤ ((new (⟨⟩ : ConservativeQueue)).session before).1.book.levelQty order.side
      order.price)
    (hvolume : volumeSeen order.orderId (entered (⟨⟩ : ConservativeQueue) before order) after ≤
      i64Max) :
    let burnt := entered (⟨⟩ : ConservativeQueue) before order
    let clocked := entered (⟨⟩ : VolumeClockQueue) before order
    let ahead := ((new (⟨⟩ : ConservativeQueue)).session before).1.book.levelQty order.side
      order.price
    let volume := volumeSeen order.orderId burnt after
    volumeSeen order.orderId clocked after = volume ∧
    (∃ o, (burnt.session after).1.orders[order.orderId]? = some o ∧
      o.filledQty = min order.qty (max 0 (volume - ahead))) ∧
    (∃ o, (clocked.session after).1.orders[order.orderId]? = some o ∧
      o.filledQty = min order.qty (max 0 (volume - ahead))) ∧
    ∀ pre op post, after = pre ++ op :: post →
      reportsAbout order.orderId ((burnt.session pre).1.perform op).2 =
        reportsAbout order.orderId ((clocked.session pre).1.perform op).2 := by
  intro burnt clocked ahead volume
  obtain ⟨hbefore, hafter⟩ := freshFrom_of_fresh fresh
  obtain ⟨hdepth₁, hdepth₂⟩ :=
    depth_session (⟨⟩ : ConservativeQueue) (⟨⟩ : VolumeClockQueue) before
  have hindexed₁ := indexed_entered (⟨⟩ : ConservativeQueue) hbefore
  have hindexed₂ := indexed_entered (⟨⟩ : VolumeClockQueue) hbefore
  have hstored₁ := stored_entered (⟨⟩ : ConservativeQueue) before order
  have hstored₂ := stored_entered (⟨⟩ : VolumeClockQueue) before order
  rw [hdepth₁] at hstored₁
  rw [hdepth₂] at hstored₂
  have halike : (order.registered (⟨⟩ : ConservativeQueue) _).Alike ⟨⟩ ⟨⟩ ahead 0
      (order.registered (⟨⟩ : VolumeClockQueue) _) :=
    ⟨rfl, rfl, tracks_registered _ (OrderBookL2.depth _) qty hahead,
      tracks_registered _ (OrderBookL2.depth _) qty hahead⟩
  have hq₁ : burnt.queueModel = ⟨⟩ := rfl
  have hq₂ : clocked.queueModel = ⟨⟩ := rfl
  obtain ⟨⟨o₁, o₂, ho₁, ho₂, hend, horder⟩, hsame⟩ :=
    alike_session hindexed₁ hindexed₂ hq₁ hq₂ hstored₁ hstored₂ halike hafter rests hvolume
  have horder₁ : o₁.order = order := horder
  have horder₂ : o₂.order = order := hend.order.symm.trans horder
  refine ⟨hsame, ⟨o₁, ho₁, horder₁ ▸ hend.tracks₁.filled⟩, ⟨o₂, ho₂, horder₂ ▸ hend.tracks₂.filled⟩,
    ?_⟩
  rintro pre op post rfl
  have hpre : Always (FreshFrom (submittedIds (before ++ [.submitOrder order]))) pre :=
    fun l a l' heq =>
    hafter l a (l' ++ op :: post) (by rw [heq, List.append_assoc, List.cons_append])
  have hmax : volumeSeen order.orderId burnt (pre ++ [op]) ≤ i64Max :=
    (volumeSeen_le order.orderId burnt (pre ++ [op]) post).trans (by simpa using hvolume)
  rw [volumeSeen_snoc] at hmax
  obtain ⟨⟨p₁, p₂, hp₁, hp₂, hmid, -⟩, -⟩ :=
    alike_session hindexed₁ hindexed₂ hq₁ hq₂ hstored₁ hstored₂
      halike hpre (fun op' hop' => rests op' (by simp [hop']))
      ((volumeSeen_le order.orderId burnt pre (op :: post)).trans hvolume)
  exact (alike_perform (indexed_session_from hindexed₁ hpre) (indexed_session_from hindexed₂ hpre)
    ((queueModel_session _ _).trans hq₁) ((queueModel_session _ _).trans hq₂) hp₁ hp₂ hmid
    (rests op (by simp)) hmax).2.2

/-- An ACK, a trade through the level ahead, and a cancel in flight while a second trade comes. -/
def tradedThrough : List ExchangeOp :=
  [.ackNew 1, .onTrade ⟨10, 0, 0, 100, 3, 1, .sell, 0⟩, .onTrade ⟨11, 0, 1, 101, 3, 1, .sell, 0⟩,
    .cancelOrder 1, .onTrade ⟨12, 0, 2, 100, 2, 1, .sell, 0⟩]

/-- Behind two of the venue, trades of three and of two fill one and two of the order, whichever
model keeps its place. The trade at another price fills nothing. -/
theorem fills_closed_form_sample :
    let order : Order := ⟨1, 0, 0, 0, 100, 5, 1, .buy, .limit⟩
    let before : List ExchangeOp := [.applyL2Update ⟨1, 0, 100, 2, 1, .buy⟩]
    let burnt := entered (⟨⟩ : ConservativeQueue) before order
    let clocked := entered (⟨⟩ : VolumeClockQueue) before order
    volumeSeen 1 burnt tradedThrough = 5 ∧
      (∃ o, (burnt.session tradedThrough).1.orders[1]? = some o ∧ o.filledQty = 3) ∧
      ∃ o, (clocked.session tradedThrough).1.orders[1]? = some o ∧ o.filledQty = 3 := by
  intro order before burnt clocked
  have fresh : Always Fresh (before ++ .submitOrder order :: tradedThrough) :=
    fresh_of_nodup (by decide)
  have rests : ∀ op ∈ tradedThrough, op.Rests order.orderId := by
    simp [tradedThrough, order, ExchangeOp.Rests, ExchangeOp.submitted, ExchangeOp.removed]
  obtain ⟨-, ⟨o, ho, hfilled⟩, ⟨o', ho', hfilled'⟩, -⟩ := fills_closed_form fresh rests (by decide)
    (by decide +kernel) (by decide +kernel)
  exact ⟨by decide +kernel, ⟨o, ho, hfilled.trans (by decide +kernel)⟩,
    ⟨o', ho', hfilled'.trans (by decide +kernel)⟩⟩

end Pairs

end ExchangeSimulator

end Backtester
