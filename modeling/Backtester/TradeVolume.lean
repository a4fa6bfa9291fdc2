import Backtester.ExchangeOps

/-!
# How much of a trade the user's orders take

Every resting order keeps its own queue position and is offered the whole trade. So the orders at
one price can take more than the trade together, but each takes at most its quantity
(`ExchangeSimulator.trade_volume_bounded`). The Conservative and the L3Exact model never fill an
order by more than the trade, whatever their state (`CappedQueueModel`). The volume clock does not
as long as the volume past the queue position is claimed (`VolumeClockQueueState.Claimed`), which
takes an order that joined a level of non-negative quantity.
-/

open History MachineInt Std

set_option linter.unusedSectionVars false

namespace Backtester

/-! ## Models that are capped by the trade -/

/-- A queue model under which a trade fills an order by at most its own quantity, whatever the queue
state. -/
class CappedQueueModel (Q : Type) [QueueModel Q] : Prop where
  fill_le_trade : ∀ (q : Q) (order : Order) (remainingQty : ℤ) (trade : Tick)
    (state : QueueModel.State Q),
    (QueueModel.checkFill q order remainingQty trade state).1 ≤ max 0 trade.qty

/-- The quantity ahead takes nothing back. -/
theorem depleteAhead_le {qtyAhead tradeQty : ℤ} (h : 0 < tradeQty) :
    (depleteAhead qtyAhead tradeQty).1 ≤ tradeQty := by
  unfold depleteAhead
  split_ifs <;> dsimp only <;> omega

/-- Only a trade of positive quantity reaches an order. -/
theorem qty_pos_of_reaches {order : Order} {remainingQty : ℤ} {trade : Tick}
    (h : tradeReaches order remainingQty trade = true) : 0 < trade.qty := by
  simp only [tradeReaches, Bool.and_eq_true, decide_eq_true_eq] at h
  exact h.1.2

/-- What is left of a trade after the quantity ahead fills no more than the trade. -/
theorem min_depleteAhead_le {order : Order} {remainingQty : ℤ} {trade : Tick}
    (h : tradeReaches order remainingQty trade = true) (qtyAhead : ℤ) :
    min (depleteAhead qtyAhead trade.qty).1 remainingQty ≤ max 0 trade.qty :=
  calc min (depleteAhead qtyAhead trade.qty).1 remainingQty
      ≤ (depleteAhead qtyAhead trade.qty).1 := min_le_left _ _
    _ ≤ trade.qty := depleteAhead_le (qty_pos_of_reaches h)
    _ ≤ max 0 trade.qty := le_max_right _ _

instance : CappedQueueModel ConservativeQueue where
  fill_le_trade _ order remainingQty trade state := by
    simp only [QueueModel.checkFill]
    split
    · next h => exact min_depleteAhead_le h state.qtyAhead
    · exact le_max_left _ _

instance : CappedQueueModel L3ExactQueue where
  fill_le_trade _ order remainingQty trade state := by
    simp only [QueueModel.checkFill]
    split
    · next h => exact min_depleteAhead_le h state.qtyAhead
    · exact le_max_left _ _

/-! ## The volume clock -/

/-- The volume past the queue position has been claimed. -/
structure VolumeClockQueueState.Claimed (state : VolumeClockQueueState) : Prop where
  queuePos : 0 ≤ state.queuePos
  cumVolume : 0 ≤ state.cumVolume ∧ state.cumVolume ≤ i64Max
  claimed : 0 ≤ state.claimed ∧ state.claimed ≤ i64Max
  past : state.cumVolume - state.queuePos ≤ state.claimed

theorem i64Max_nonneg : (0 : ℤ) ≤ i64Max := by norm_num [i64Max]

/-- Claiming all volume past the queue position claims no more than the trade brought. -/
theorem VolumeClockQueueState.Claimed.advance {state : VolumeClockQueueState} (h : state.Claimed)
    {qty : ℤ} (hqty : 0 < qty) {cum past : ℤ} (hcum : cum = satAddI64 state.cumVolume qty)
    (hpast : past = satSubI64 cum state.queuePos) :
    (0 ≤ cum ∧ cum ≤ i64Max) ∧ cum - state.queuePos ≤ past ∧ past ≤ i64Max ∧
      past ≤ state.claimed + qty := by
  obtain ⟨hpos, ⟨hcumNonneg, hcumMax⟩, ⟨hclaimed, hclaimedMax⟩, hbefore⟩ := h
  have hmax : i64Max = 9223372036854775807 := by norm_num [i64Max]
  simp only [satAddI64, satSubI64, clamp] at hcum hpast
  norm_num at hcum hpast
  omega

/-- A trade fills at most its own quantity, and a partial fill claims everything past the
position. -/
theorem VolumeClockQueueState.Claimed.checkFill {state : VolumeClockQueueState}
    (hsound : state.Claimed)
    (q : VolumeClockQueue) (order : Order) (remainingQty : ℤ) (trade : Tick) :
    (QueueModel.checkFill q order remainingQty trade state).1 ≤ max 0 trade.qty ∧
      ((QueueModel.checkFill q order remainingQty trade state).1 < remainingQty →
        VolumeClockQueueState.Claimed
          (QueueModel.checkFill q order remainingQty trade state).2) := by
  have hmax : i64Max = 9223372036854775807 := by norm_num [i64Max]
  simp only [QueueModel.checkFill]
  split
  · next h =>
    generalize hcum : satAddI64 state.cumVolume trade.qty = cum
    generalize hpast : satSubI64 cum state.queuePos = past
    have hqty := qty_pos_of_reaches h
    obtain ⟨hcumRange, hle, hpastMax, hbound⟩ := hsound.advance hqty hcum.symm hpast.symm
    obtain ⟨hpos, -, ⟨hclaimed, hclaimedMax⟩, -⟩ := hsound
    split
    · next hnone => exact ⟨le_max_left _ _, fun _ => ⟨hpos, hcumRange, ⟨hclaimed, hclaimedMax⟩,
        by dsimp only; omega⟩⟩
    · next hsome =>
      have hsub : subI64 past state.claimed = past - state.claimed :=
        wrap_eq_self (by norm_num) (by unfold InRange; norm_num; omega)
      rw [hsub]
      dsimp only
      refine ⟨by omega, fun hpart => ?_⟩
      -- a partial fill claims everything past the position
      have hfill : max (min (past - state.claimed) remainingQty) 0 =
        past - state.claimed := by omega
      have hadd : satAddI64 state.claimed (past - state.claimed) = past := by
        rw [satAddI64, clamp_eq_self (by unfold InRange; norm_num; omega)]
        omega
      rw [hfill, hadd]
      exact ⟨hpos, hcumRange, by dsimp only; omega, hle⟩
  · exact ⟨le_max_left _ _, fun _ => hsound⟩

/-- The queue state of a live order of the volume clock is sound as long as the order can be
filled : before its ACK, and while something remains. -/
structure LiveOrder.Metered (o : LiveOrder VolumeClockQueueState) : Prop where
  claimed : o.state = .pendingNew ∨ 0 < o.remainingQty → o.queueState.Claimed
  remaining : o.remainingQty ≤ i64Max

namespace ExchangeSimulator

section Offers

variable {Q : Type} [QueueModel Q] {q : Q} {trade : Tick} {b : ℤ}

/-- Offers of a trade to some orders keep what one offer keeps, and report each at most once. -/
theorem foldl_offerTo_capped {P : LiveOrder (QueueModel.State Q) → Prop}
    (hoffer : ∀ o : LiveOrder (QueueModel.State Q), P o →
      P (o.offer q trade).1 ∧ ∀ r ∈ (o.offer q trade).2, r.lastFillQty ≤ b) :
    ∀ (ids : List ℕ) (acc : ExtTreeMap ℕ (LiveOrder (QueueModel.State Q)) × List OrderReport),
    (∀ (n : ℕ) (o : LiveOrder (QueueModel.State Q)), acc.1[n]? = some o → P o) →
    (∀ (n : ℕ) (o : LiveOrder (QueueModel.State Q)),
      (ids.foldl (offerTo q trade) acc).1[n]? = some o → P o) ∧
    ∃ rs, (ids.foldl (offerTo q trade) acc).2 = acc.2 ++ rs ∧ rs.length ≤ ids.length ∧
      ∀ r ∈ rs, r.lastFillQty ≤ b
  | [], acc, hacc => ⟨hacc, [], by simp⟩
  | m :: ids, acc, hacc => by
    have hnext : ∀ (n : ℕ) (o : LiveOrder (QueueModel.State Q)),
        (offerTo q trade acc m).1[n]? = some o → P o := by
      intro n o ho
      rw [getElem?_offerTo] at ho
      split_ifs at ho
      · obtain ⟨old, hold, rfl⟩ := Option.map_eq_some_iff.1 ho
        exact (hoffer old (hacc n old hold)).1
      · exact hacc n o ho
    obtain ⟨hkept, rs, hreports, hlength, hbound⟩ := foldl_offerTo_capped hoffer ids _ hnext
    refine ⟨hkept, (offerReport q trade acc.1 m).toList ++ rs, ?_, ?_, fun r hr => ?_⟩
    · rw [List.foldl_cons, hreports, reports_offerTo, List.append_assoc]
    · have hone : (offerReport q trade acc.1 m).toList.length ≤ 1 := Option.length_toList_le
      rw [List.length_append, List.length_cons]
      omega
    · rcases List.mem_append.1 hr with hr | hr
      · obtain ⟨o, ho, hreport⟩ := Option.bind_eq_some_iff.1 (Option.mem_toList.1 hr)
        exact (hoffer o (hacc m o ho)).2 r hreport
      · exact hbound r hr

end Offers

variable {Q : Type} [QueueModel Q]

/-- The user's orders a trade is offered to. -/
def restingAt (ex : ExchangeSimulator Q) (trade : Tick) : List ℕ :=
  match makerSide trade.side with
  | none => []
  | some side => ex.buckets trade.price side

/-- The trade fills each order by at most its quantity, and all orders at its price together by at
most their number times its quantity. A single order there takes no more than the trade. -/
structure VolumeBounded (ex : ExchangeSimulator Q) (trade : Tick) : Prop where
  each : ∀ r ∈ (ex.onTrade trade).2, r.lastFillQty ≤ max 0 trade.qty
  all : ((ex.onTrade trade).2.map OrderReport.lastFillQty).sum ≤
    (ex.restingAt trade).length * max 0 trade.qty
  single : (ex.restingAt trade).length ≤ 1 →
    ((ex.onTrade trade).2.map OrderReport.lastFillQty).sum ≤ max 0 trade.qty

theorem sum_lastFillQty_le {b : ℤ} {rs : List OrderReport} (h : ∀ r ∈ rs, r.lastFillQty ≤ b) :
    (rs.map OrderReport.lastFillQty).sum ≤ rs.length * b := by
  have hsum := List.sum_le_card_nsmul (rs.map OrderReport.lastFillQty) b (by simpa using h)
  simpa using hsum

/-- A trade keeps what one offer keeps of the orders, and is bounded when one offer is. -/
theorem onTrade_capped {P : LiveOrder (QueueModel.State Q) → Prop} {ex : ExchangeSimulator Q}
    {trade : Tick}
    (hoffer : ∀ o : LiveOrder (QueueModel.State Q), P o → P (o.offer ex.queueModel trade).1 ∧
      ∀ r ∈ (o.offer ex.queueModel trade).2, r.lastFillQty ≤ max 0 trade.qty)
    (hex : ∀ (n : ℕ) (o : LiveOrder (QueueModel.State Q)), ex.orders[n]? = some o → P o) :
    (∀ (n : ℕ) (o : LiveOrder (QueueModel.State Q)),
      (ex.onTrade trade).1.orders[n]? = some o → P o) ∧ ex.VolumeBounded trade := by
  have hmax : 0 ≤ max 0 trade.qty := le_max_left _ _
  obtain ⟨hkept, rs, hreports, hlength, hbound⟩ :=
    foldl_offerTo_capped hoffer (ex.restingAt trade) (ex.orders, []) hex
  have heq : (ex.onTrade trade).1.orders =
      ((ex.restingAt trade).foldl (offerTo ex.queueModel trade) (ex.orders, [])).1 ∧
      (ex.onTrade trade).2 = rs := by
    unfold onTrade
    unfold restingAt at hreports ⊢
    cases hside : makerSide trade.side with
    | none =>
      rw [hside] at hreports
      exact ⟨rfl, hreports⟩
    | some side =>
      rw [hside] at hreports
      exact ⟨rfl, hreports⟩
  have hall : (rs.map OrderReport.lastFillQty).sum ≤
      (ex.restingAt trade).length * max 0 trade.qty :=
    (sum_lastFillQty_le hbound).trans
      (mul_le_mul_of_nonneg_right (by exact_mod_cast hlength) hmax)
  refine ⟨heq.1 ▸ hkept, ?_, ?_, fun hone => ?_⟩
  · exact heq.2 ▸ hbound
  · exact heq.2 ▸ hall
  · rw [heq.2]
    calc
      (rs.map OrderReport.lastFillQty).sum ≤ (ex.restingAt trade).length * max 0 trade.qty := hall
      _ ≤ 1 * max 0 trade.qty := mul_le_mul_of_nonneg_right (by exact_mod_cast hone) hmax
      _ = max 0 trade.qty := one_mul _

/-- The report of an offer tells the quantity that the queue model lets the trade fill. -/
theorem lastFillQty_offer {q : Q} {trade : Tick} {o : LiveOrder (QueueModel.State Q)}
    {r : OrderReport} (hr : r ∈ (o.offer q trade).2) :
    0 < o.remainingQty ∧ r.lastFillQty = o.fillQty q trade := by
  rcases offer_cases q trade o with ⟨-, heq⟩ | ⟨-, heq⟩ | ⟨hremaining, -, -, heq⟩
  · rw [heq] at hr
    cases hr
  · rw [heq] at hr
    cases hr
  · rw [heq] at hr
    obtain rfl := Option.some.inj hr
    exact ⟨hremaining, rfl⟩

/-- Under a capped model every simulator is bounded by the trade, whatever its state. -/
theorem volumeBounded_of_capped [CappedQueueModel Q] (ex : ExchangeSimulator Q) (trade : Tick) :
    ex.VolumeBounded trade := by
  refine (onTrade_capped (P := fun _ => True) (fun o _ => ⟨trivial, fun r hr => ?_⟩)
    fun _ _ _ => trivial).2
  rw [(lastFillQty_offer hr).2]
  exact CappedQueueModel.fill_le_trade _ _ _ _ _

/-! ## Sessions of the volume clock -/

section VolumeClock

variable {ex ex₀ : ExchangeSimulator VolumeClockQueue} {op : ExchangeOp} {ops : List ExchangeOp}
  {o o' : LiveOrder (QueueModel.State VolumeClockQueue)} {rs : List OrderReport}

/-- What the volume clock needs of a call : an order joins a level whose quantity does not read as
negative, and market fills are for orders not acknowledged yet. Quantities are of type `i64`. -/
def MayMeter (ex₀ : ExchangeSimulator VolumeClockQueue) (ops : List ExchangeOp) : ExchangeOp → Prop
  | .submitOrder order =>
    order.qty ≤ i64Max ∧ 0 ≤ (ex₀.session ops).1.depth.levelQty order.side order.price
  | .fillMarketImmediately m _ => ∀ o ∈ (ex₀.session ops).1.orders[m]?, o.state = .pendingNew
  | _ => True

instance (ex₀ : ExchangeSimulator VolumeClockQueue) (ops : List ExchangeOp) :
    DecidablePred (MayMeter ex₀ ops)
  | .submitOrder _ => inferInstanceAs (Decidable (_ ∧ _))
  | .fillMarketImmediately _ _ => inferInstanceAs (Decidable (∀ o ∈ _, _))
  | .ackNew _ | .cancelOrder _ | .ackCancel _ | .forceCancelPartialFill _ | .removeOrder _
  | .applyL2Update _ | .applyL3Update _ | .onTrade _ => .isTrue trivial

/-- The queue states of all stored orders are sound. -/
def AllMetered (ex : ExchangeSimulator VolumeClockQueue) : Prop :=
  ∀ (n : ℕ) (o : LiveOrder VolumeClockQueueState), ex.orders[n]? = some o → o.Metered

theorem subI64_le (a b : ℤ) : subI64 a b ≤ i64Max := by
  have hmax : i64Max = 9223372036854775807 := by norm_num [i64Max]
  unfold subI64 wrap
  rw [hmax]
  have hlt := Int.bmod_lt (x := a - b) (m := 2 ^ 64) (by norm_num)
  norm_num at hlt ⊢
  omega

/-- A market fill or a trade leaves no order in `pendingNew`. -/
theorem metered_of_filled (hstate : o.state ≠ .pendingNew) (hmax : o.remainingQty ≤ i64Max)
    (h : 0 < o.remainingQty → o.queueState.Claimed) : o.Metered :=
  ⟨fun hlive => h (hlive.resolve_left hstate), hmax⟩

/-- An offer keeps an order's queue state sound, and fills it by at most the trade's quantity. -/
theorem metered_offer (q : VolumeClockQueue) (trade : Tick) (h : o.Metered) :
    (o.offer q trade).1.Metered ∧
      ∀ r ∈ (o.offer q trade).2, r.lastFillQty ≤ max 0 trade.qty := by
  by_cases hidle : o.remainingQty ≤ 0 ∨ o.state.isFillable = false
  · have heq : o.offer q trade = (o, none) := by
      unfold LiveOrder.offer
      rcases hidle with hremaining | hstate
      · rw [if_pos hremaining]
      · rw [hstate]
        exact ite_self _
    rw [heq]
    exact ⟨h, by simp⟩
  obtain ⟨hremaining, hfillable⟩ := not_or.1 hidle
  have hpos : 0 < o.remainingQty := lt_of_not_ge hremaining
  have hstate : o.state ≠ .pendingNew := fun heq => hfillable (by rw [heq]; rfl)
  obtain ⟨hbound, hkeep⟩ :=
    (h.claimed (.inr hpos)).checkFill q o.order o.remainingQty trade
  refine ⟨?_, fun r hr => (lastFillQty_offer hr).2 ▸ hbound⟩
  rcases offer_cases q trade o with ⟨-, heq⟩ | ⟨hnofill, heq⟩ | ⟨-, -, hfill, heq⟩
  · rw [heq]
    exact h
  · rw [heq]
    exact metered_of_filled hstate h.remaining fun _ => hkeep (by
      change o.fillQty q trade < o.remainingQty
      omega)
  · rw [heq]
    have hle : o.fillQty q trade ≤ o.remainingQty :=
      LawfulQueueModel.fill_le_remaining _ _ _ _ _ hpos
    have hmax : i64Max = 9223372036854775807 := by norm_num [i64Max]
    have hremainingMax := h.remaining
    have hsub : (o.filled q trade).remainingQty = o.remainingQty - o.fillQty q trade :=
      wrap_eq_self (by norm_num) (by
        change InRange 64 (o.remainingQty - o.fillQty q trade)
        unfold InRange
        norm_num
        omega)
    refine metered_of_filled ?_ (subI64_le _ _) fun hleft => hkeep ?_
    · change (if _ then OrderState.filled else .partiallyFilled) ≠ .pendingNew
      split_ifs <;> decide
    · change o.fillQty q trade < o.remainingQty
      rw [hsub] at hleft
      omega

/-- A call keeps the queue state of a stored order sound. -/
theorem Change.metered (h : Change ex op o o' rs) (hs : o.Metered)
    (hmarket : ∀ m p, op = .fillMarketImmediately m p → o.state = .pendingNew) : o'.Metered := by
  cases h with
  | idle => exact hs
  | ack hstate => exact ⟨fun _ => hs.claimed (.inl hstate), hs.remaining⟩
  | cancel => exact metered_of_filled (by simp) hs.remaining fun hleft => hs.claimed (.inr hleft)
  | cancelAck => exact metered_of_filled (by simp) hs.remaining fun hleft => hs.claimed (.inr hleft)
  | @marketFill _ m p price availableQty fillQty remainingQty s level hfill hremaining hs' =>
    have hclaimed := hs.claimed (.inl (hmarket m p rfl))
    exact ⟨fun _ => hclaimed, hremaining ▸ subI64_le _ _⟩
  | marketReject =>
    exact metered_of_filled (by simp) hs.remaining fun hleft => hs.claimed (.inr hleft)
  | forceCancel =>
    exact metered_of_filled (by simp) hs.remaining fun hleft => hs.claimed (.inr hleft)
  | @follow _ update =>
    -- the volume clock does not look at the updates
    have hsame : o.followL3 ex.queueModel update = o := by
      unfold LiveOrder.followL3
      split <;> rfl
    rw [hsame]
    exact hs
  | @offer _ trade => exact (metered_offer ex.queueModel trade hs).1

/-- The order that is submitted has claimed nothing, and nothing is past its position. -/
theorem metered_submitted (order : Order) (depth : MarketDepth) (hqty : order.qty ≤ i64Max)
    (hlevel : 0 ≤ depth.levelQty order.side order.price) :
    (⟨order, .pendingNew, 0, order.qty,
      ⟨depth.levelQty order.side order.price, 0, 0⟩⟩ : LiveOrder VolumeClockQueueState).Metered :=
  ⟨fun _ => ⟨hlevel, ⟨le_rfl, i64Max_nonneg⟩, ⟨le_rfl, i64Max_nonneg⟩, Int.sub_nonpos_of_le hlevel⟩,
    hqty⟩

theorem AllMetered.perform (h : AllMetered (ex₀.session ops).1) (may : MayMeter ex₀ ops op) :
    AllMetered ((ex₀.session ops).1.perform op).1 := by
  intro n o ho
  have htarget : ∀ m, op.target = some m → o.Metered := by
    intro m hm
    rcases (ex₀.session ops).1.perform_target hm with heq | ⟨old, new, rs, hold, hchange, heq⟩
    · rw [heq] at ho
      exact h n o ho
    · rw [heq, getElem?_putOrder] at ho
      split_ifs at ho with hmn
      · obtain rfl := Option.some.inj ho
        refine hchange.metered (h m old hold) ?_
        rintro m' p rfl
        obtain rfl : m' = m := Option.some.inj hm
        exact may old hold
      · exact h n o ho
  cases op with
  | submitOrder order =>
    rw [perform, getElem?_submitOrder] at ho
    split_ifs at ho
    · obtain rfl := Option.some.inj ho
      exact metered_submitted order _ may.1 may.2
    · exact h n o ho
  | removeOrder m =>
    rw [perform, getElem?_removeOrder] at ho
    split_ifs at ho
    exact h n o ho
  | applyL2Update update => exact h n o ho
  | applyL3Update update =>
    rw [perform, getElem?_applyL3Update] at ho
    obtain ⟨old, hold, rfl⟩ := Option.map_eq_some_iff.1 ho
    have hfollow : Change (ex₀.session ops).1 (.applyL3Update update) old _ [] := .follow
    exact hfollow.metered (h n old hold) (by simp)
  | onTrade trade =>
    exact (onTrade_capped (fun o ho => metered_offer _ trade ho) h).1 n o ho
  | _ => exact htarget _ rfl

theorem allMetered_session (hnew : ex₀.IsNew) (hops : Always (MayMeter ex₀) ops) :
    AllMetered (ex₀.session ops).1 := by
  refine session_induction (I := fun _ s => AllMetered s.1) (fun n o ho => ?_)
    (fun _ _ h may => h.perform may) hops
  obtain ⟨q, rfl | rfl⟩ := hnew <;> simp [new, newL3] at ho

end VolumeClock

/-- A trade fills each order by at most its quantity, so all orders at its price together by at most
their number times it, and a single order there by no more than the trade. Under the Conservative
and the L3Exact model this holds of every simulator. Under the volume clock it holds of every one
reached by calls that respect `MayMeter`. -/
theorem trade_volume_bounded :
    (∀ (ex : ExchangeSimulator ConservativeQueue) (trade : Tick), ex.VolumeBounded trade) ∧
    (∀ (ex : ExchangeSimulator L3ExactQueue) (trade : Tick), ex.VolumeBounded trade) ∧
    ∀ (ex₀ : ExchangeSimulator VolumeClockQueue) (ops : List ExchangeOp) (trade : Tick),
      ex₀.IsNew → Always (MayMeter ex₀) ops → (ex₀.session ops).1.VolumeBounded trade := by
  refine ⟨volumeBounded_of_capped, volumeBounded_of_capped, fun ex₀ ops trade hnew hops => ?_⟩
  have hmetered := allMetered_session hnew hops
  exact (onTrade_capped (fun o ho => metered_offer _ trade ho) hmetered).2

/-- Two orders of one at one price. -/
def twoResting : List ExchangeOp :=
  [.submitOrder ⟨1, 0, 0, 0, 100, 1, 1, .buy, .limit⟩, .ackNew 1,
    .submitOrder ⟨2, 0, 0, 0, 100, 1, 1, .buy, .limit⟩, .ackNew 2]

/-- A trade of one, against the buyers at 100. -/
def oneSold : Tick := ⟨10, 0, 0, 100, 1, 1, .sell, 0⟩

/-- An order of ten behind a level of negative quantity, or behind one whose sum leaves `i64`. -/
def negativeAhead (updates : List ExchangeOp) : List ExchangeOp :=
  updates ++ [.submitOrder ⟨1, 0, 0, 0, 100, 10, 1, .buy, .limit⟩, .ackNew 1]

/-- A trade of one fills both orders, two in all. Where the quantity ahead reads as negative, it
fills more than one of a single order too. -/
theorem trade_volume_exceeded :
    ((((new (⟨⟩ : ConservativeQueue)).session twoResting).1.onTrade oneSold).2.map
      OrderReport.lastFillQty).sum = 2 ∧ max 0 oneSold.qty = 1 ∧
    ((((new (⟨⟩ : VolumeClockQueue)).session
      (negativeAhead [.applyL2Update ⟨1, 0, 100, -5, 1, .buy⟩])).1.onTrade oneSold).2.map
        OrderReport.lastFillQty).sum = 6 ∧
    ((((newL3 (⟨⟩ : VolumeClockQueue)).session
      (negativeAhead [.applyL3Update ⟨1, 0, 1, 8, 100, i64Max, .buy, l3Add⟩,
        .applyL3Update ⟨1, 0, 1, 9, 100, i64Max, .buy, l3Add⟩])).1.onTrade oneSold).2.map
          OrderReport.lastFillQty).sum = 3 := by
  decide +kernel

/-- Two orders of five behind a level of two, of which a trade of three has filled one each. -/
def behindLevel : List ExchangeOp :=
  [.applyL2Update ⟨1, 0, 100, 2, 1, .buy⟩, .submitOrder ⟨1, 0, 0, 0, 100, 5, 1, .buy, .limit⟩,
    .ackNew 1, .submitOrder ⟨2, 0, 0, 0, 100, 5, 1, .buy, .limit⟩, .ackNew 2,
    .onTrade ⟨10, 0, 0, 100, 3, 1, .sell, 0⟩]

/-- Two orders take two of a trade of one, and no more. Under the volume clock two take four of a
trade of two, once the level ahead of them has traded. -/
theorem trade_volume_bounded_sample :
    ((((new (⟨⟩ : ConservativeQueue)).session twoResting).1.onTrade oneSold).2.map
      OrderReport.lastFillQty).sum ≤ 2 * max 0 oneSold.qty ∧
    ((newL3 (⟨⟩ : L3ExactQueue)).session twoResting).1.VolumeBounded oneSold ∧
    let ex := ((new (⟨⟩ : VolumeClockQueue)).session behindLevel).1
    let trade : Tick := ⟨11, 0, 0, 100, 2, 1, .sell, 0⟩
    (ex.onTrade trade).2.map OrderReport.lastFillQty = [2, 2] ∧
      (∀ r ∈ (ex.onTrade trade).2, r.lastFillQty ≤ max 0 trade.qty) ∧
      ((ex.onTrade trade).2.map OrderReport.lastFillQty).sum ≤ 2 * max 0 trade.qty := by
  obtain ⟨hconservative, hl3, hclock⟩ := trade_volume_bounded
  have hnew : (new (⟨⟩ : VolumeClockQueue)).IsNew := ⟨⟨⟩, .inl rfl⟩
  have hops : Always (MayMeter (new (⟨⟩ : VolumeClockQueue))) behindLevel := by decide +kernel
  refine ⟨(hconservative _ oneSold).all, hl3 _ oneSold, by decide +kernel, ?_⟩
  have hbounded := hclock _ _ ⟨11, 0, 0, 100, 2, 1, .sell, 0⟩ hnew hops
  exact ⟨hbounded.each, hbounded.all⟩

end ExchangeSimulator

end Backtester
