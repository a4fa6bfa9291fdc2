import Backtester.ExchangeOps

/-!
# The bucket index is an optimisation

`onTrade` offers a trade to the ids in one bucket. `scanTrade` is the loop without the index : it
offers the trade to every stored order, by id. A queue model that looks at the price and the side of
a trade before anything else (`SelectiveQueueModel`) cannot tell them apart.
-/

open History Std

set_option linter.unusedSectionVars false

namespace Backtester

/-- A trade that does not reach an order leaves its queue state as it is and fills nothing. -/
class SelectiveQueueModel (Q : Type) [QueueModel Q] : Prop where
  checkFill_of_not_reached : ∀ (q : Q) (order : Order) (remainingQty : ℤ) (trade : Tick)
    (state : QueueModel.State Q), tradeReaches order remainingQty trade = false →
    QueueModel.checkFill q order remainingQty trade state = (0, state)

instance : SelectiveQueueModel NoopQueue := ⟨fun _ _ _ _ _ _ => rfl⟩

instance : SelectiveQueueModel ConservativeQueue :=
  ⟨fun _ _ _ _ _ h => by simp [QueueModel.checkFill, h]⟩

instance : SelectiveQueueModel VolumeClockQueue :=
  ⟨fun _ _ _ _ _ h => by simp [QueueModel.checkFill, h]⟩

instance : SelectiveQueueModel L3ExactQueue :=
  ⟨fun _ _ _ _ _ h => by simp [QueueModel.checkFill, h]⟩

namespace ExchangeSimulator

variable {Q : Type} [QueueModel Q]

/-- The loop without the index : offer the trade to every stored order in the order of ids. -/
def scanTrade (ex : ExchangeSimulator Q) (trade : Tick) : ExchangeSimulator Q × List OrderReport :=
  let (orders, reports) := ex.orders.keys.foldl (offerTo ex.queueModel trade) (ex.orders, [])
  ({ ex with orders := orders }, reports)

/-- Ids are submitted in increasing order. -/
def Increasing (ops : List ExchangeOp) (op : ExchangeOp) : Prop :=
  ∀ n, op.submitted = some n → ∀ m ∈ submittedIds ops, m < n

variable {ex ex₀ : ExchangeSimulator Q} {ops : List ExchangeOp} {ids : List ℕ}
  {trade : Tick} {n : ℕ}

theorem fresh_of_increasing (h : Always Increasing ops) : Always Fresh ops :=
  h.mono fun _ _ hincreasing n hs hmem => lt_irrefl n (hincreasing n hs n hmem)

theorem pairwise_submittedIds (h : Always Increasing ops) :
    (submittedIds ops).Pairwise (· < ·) := by
  induction ops using List.reverseRecOn with
  | nil => exact List.Pairwise.nil
  | append_singleton ops op ih =>
    obtain ⟨hdone, hlast⟩ := always_snoc.1 h
    rw [submittedIds_snoc, List.pairwise_append]
    refine ⟨ih hdone, ?_, fun m hm n hn => ?_⟩
    · cases op.submitted <;> simp
    · exact hlast n (Option.mem_toList.1 hn) m hm

/-- An order that a trade does not reach stays as it is. -/
theorem offer_of_not_reached [SelectiveQueueModel Q] {o : LiveOrder (QueueModel.State Q)}
    (hreach : tradeReaches o.order o.remainingQty trade = false) (q : Q) :
    o.offer q trade = (o, none) := by
  have hcheck := SelectiveQueueModel.checkFill_of_not_reached q o.order o.remainingQty trade
    o.queueState hreach
  have hqueued : o.queued q trade = o := by rw [LiveOrder.queued, hcheck]
  have hfill : o.fillQty q trade = 0 := congrArg Prod.fst hcheck
  rcases offer_cases q trade o with ⟨-, heq⟩ | ⟨-, heq⟩ | ⟨-, -, hpos, -⟩
  · exact heq
  · rw [heq, hqueued]
  · omega

/-- A trade reaches no order at another price or side. -/
theorem not_reached_of_not_isAt {o : LiveOrder (QueueModel.State Q)} (ho : ex.orders[n]? = some o)
    (hat : ∀ side, makerSide trade.side = some side → ex.isAt trade.price side n = false) :
    tradeReaches o.order o.remainingQty trade = false := by
  by_contra hreach
  simp only [Bool.not_eq_false, tradeReaches, Bool.and_eq_true, decide_eq_true_eq] at hreach
  obtain ⟨⟨⟨-, hprice⟩, -⟩, hagainst⟩ := hreach
  have hside : makerSide trade.side = some o.order.side := by
    cases hs : trade.side <;> cases hs' : o.order.side <;> simp_all [makerSide, isAgainst]
  have := hat _ hside
  simp [isAt, getOrder, ho, hprice] at this

/-- The stored ids in order are the submitted ids that are stored. -/
theorem keys_eq_filter (h : ex.Indexed ids) (hsorted : ids.Pairwise (· < ·)) :
    ex.orders.keys = ids.filter fun n => (ex.orders[n]?).isSome := by
  have hkeys : ex.orders.keys.Pairwise (· < ·) :=
    (ExtTreeMap.ordered_keys (t := ex.orders)).imp Nat.compare_eq_lt.1
  refine hkeys.eq_of_mem_iff (hsorted.filter _) fun n => ?_
  rw [ExtTreeMap.mem_keys, ExtTreeMap.mem_iff_isSome_getElem?, List.mem_filter, iff_and_self]
  exact fun hsome => h.mem_of_stored n (by simpa [getOrder, Option.isSome_iff_ne_none] using hsome)

/-- The orders at the price and side of a trade are stored. -/
theorem filter_keys (h : ex.Indexed ids) (hsorted : ids.Pairwise (· < ·)) (price : ℤ)
    (side : Side) :
    ex.orders.keys.filter (ex.isAt price side) = ids.filter (ex.isAt price side) := by
  rw [keys_eq_filter h hsorted, List.filter_filter]
  refine List.filter_congr fun n _ => ?_
  cases ho : ex.orders[n]? <;> simp [isAt, getOrder, ho]

theorem filterMap_eq_filterMap_filter {α β : Type} {f : α → Option β} {p : α → Bool} :
    ∀ {l : List α}, (∀ a ∈ l, p a = false → f a = none) → l.filterMap f = (l.filter p).filterMap f
  | [], _ => rfl
  | a :: l, h => by
    have ih : l.filterMap f = (l.filter p).filterMap f :=
      filterMap_eq_filterMap_filter fun b hb => h b (List.mem_cons_of_mem _ hb)
    cases hp : p a with
    | true => rw [List.filter_cons_of_pos hp, List.filterMap_cons, List.filterMap_cons, ih]
    | false =>
      rw [List.filter_cons_of_neg (by simp [hp]),
        List.filterMap_cons_none (h a List.mem_cons_self hp), ih]

/-- Trading by the bucket is trading by the loop over all stored orders. -/
theorem onTrade_eq_scanTrade [SelectiveQueueModel Q] (h : ex.Indexed ids)
    (hsorted : ids.Pairwise (· < ·)) (trade : Tick) : ex.onTrade trade = ex.scanTrade trade := by
  obtain ⟨horders, hreports⟩ := foldl_offerTo ex.queueModel trade ex.orders.keys (ex.orders, [])
    ExtTreeMap.nodup_keys
  have hidle :
    ∀ n : ℕ, (∀ side, makerSide trade.side = some side → ex.isAt trade.price side n = false) →
      (ex.orders[n]?.map fun o => (LiveOrder.offer ex.queueModel trade o).1) = ex.orders[n]? ∧
        offerReport ex.queueModel trade ex.orders n = none := by
    intro n hat
    unfold offerReport
    cases ho : ex.orders[n]? with
    | none => exact ⟨rfl, rfl⟩
    | some o =>
      have hoffer := offer_of_not_reached (not_reached_of_not_isAt ho hat) ex.queueModel
      exact ⟨by rw [Option.map_some, hoffer], by rw [Option.bind_some, hoffer]⟩
  have hscan : ∀ n : ℕ, (ex.scanTrade trade).1.orders[n]? =
      ex.orders[n]?.map fun o => (LiveOrder.offer ex.queueModel trade o).1 := by
    intro n
    refine (horders n).trans ?_
    split_ifs with hmem
    · rfl
    · cases ho : ex.orders[n]? with
      | none => rfl
      | some o => exact absurd (ExtTreeMap.mem_keys.2 (ExtTreeMap.mem_iff_isSome_getElem?.2
          (by rw [ho]; rfl))) hmem
  have htrade : (∀ n : ℕ, (ex.onTrade trade).1.orders[n]? = (ex.scanTrade trade).1.orders[n]?) ∧
      (ex.onTrade trade).2 = (ex.scanTrade trade).2 := by
    have hall : (ex.scanTrade trade).2 =
        ex.orders.keys.filterMap (offerReport ex.queueModel trade ex.orders) :=
      hreports.trans (List.nil_append _)
    cases hside : makerSide trade.side with
    | none =>
      have hnone : ex.onTrade trade = (ex, []) := by
        unfold onTrade
        rw [hside]
      have hidle' := fun n => hidle n (by simp [hside])
      refine ⟨fun n => ?_, ?_⟩
      · rw [hnone, hscan, (hidle' n).1]
      · rw [hnone, hall, List.filterMap_eq_nil_iff.2 fun n _ => (hidle' n).2]
    | some side =>
      obtain ⟨honTrade, hreported⟩ := onTrade_eq h hside
      have hidle' := fun n (hat : ex.isAt trade.price side n = false) =>
        hidle n fun side' hside' => Option.some.inj (hside.symm.trans hside') ▸ hat
      refine ⟨fun n => ?_, ?_⟩
      · rw [honTrade, hscan]
        cases hat : ex.isAt trade.price side n with
        | true => rw [if_pos rfl]
        | false => rw [if_neg (by simp), (hidle' n hat).1]
      · rw [hreported, hall, ← filter_keys h hsorted]
        exact (filterMap_eq_filterMap_filter fun n _ hat => (hidle' n hat).2).symm
  have hput : ∃ orders, (ex.onTrade trade).1 = { ex with orders := orders } := by
    unfold onTrade
    split
    · exact ⟨ex.orders, rfl⟩
    · exact ⟨_, rfl⟩
  obtain ⟨orders, hput⟩ := hput
  refine Prod.ext ?_ htrade.2
  have heq : orders = (ex.scanTrade trade).1.orders :=
    ExtTreeMap.ext_getElem? fun n => by rw [← htrade.1, hput]
  rw [hput, heq]
  rfl

/-- On every simulator that a session with increasing ids reaches, a bucket lists exactly the stored
ids of its price and side, in the order they were submitted, and `onTrade` is the loop over all
stored orders. -/
theorem buckets_faithful [SelectiveQueueModel Q] (hnew : ex₀.IsNew) (hops : Always Increasing ops) :
    (∀ price side, ((ex₀.session ops).1.buckets price side).Sublist (submittedIds ops) ∧
      ((ex₀.session ops).1.buckets price side).Nodup ∧
      ∀ n, n ∈ (ex₀.session ops).1.buckets price side ↔
        ∃ o, (ex₀.session ops).1.orders[n]? = some o ∧ o.order.price = price ∧
          o.order.side = side) ∧
    ∀ trade, (ex₀.session ops).1.onTrade trade = (ex₀.session ops).1.scanTrade trade := by
  have hindexed := indexed_session hnew (fresh_of_increasing hops)
  refine ⟨fun price side => ?_,
    onTrade_eq_scanTrade hindexed (pairwise_submittedIds hops)⟩
  rw [hindexed.buckets]
  refine ⟨List.filter_sublist, hindexed.nodup.filter _, fun n => ?_⟩
  rw [List.mem_filter]
  constructor
  · rintro ⟨-, hat⟩
    cases ho : (ex₀.session ops).1.orders[n]? with
    | none => simp [isAt, getOrder, ho] at hat
    | some o => exact ⟨o, rfl, by simpa [isAt, getOrder, ho] using hat⟩
  · rintro ⟨o, ho, hprice, hside⟩
    exact ⟨hindexed.mem_of_stored n (mt getOrder_eq_none.1 (by simp [ho])),
      by simp [isAt, getOrder, ho, hprice, hside]⟩

/-- Two orders at one price, the first of them removed, and a trade. -/
theorem buckets_faithful_sample :
    let order (id : ℕ) : Order := ⟨id, 0, 0, 0, 100, 2, 1, .buy, .limit⟩
    let ops : List ExchangeOp := [.submitOrder (order 1), .submitOrder (order 2), .removeOrder 1]
    let ex := ((new (⟨⟩ : ConservativeQueue)).session ops).1
    let trade : Tick := ⟨10, 0, 0, 100, 1, 1, .sell, 0⟩
    ex.buckets 100 .buy = [2] ∧ ex.onTrade trade = ex.scanTrade trade := by
  intro order ops ex trade
  have hops : Always Increasing ops := by
    refine (always_snoc (α := ExchangeOp) (l := [.submitOrder (order 1), .submitOrder (order 2)])).2
      ⟨?_, by simp [Increasing, ExchangeOp.submitted]⟩
    refine (always_snoc (α := ExchangeOp) (l := [.submitOrder (order 1)])).2 ⟨?_, ?_⟩
    · exact (always_snoc (α := ExchangeOp) (l := [])).2
        ⟨always_nil, by simp [Increasing, submittedIds]⟩
    · simp [Increasing, ExchangeOp.submitted, submittedIds, order]
  have hnew : (new (⟨⟩ : ConservativeQueue)).IsNew := ⟨⟨⟩, .inl rfl⟩
  exact ⟨by decide +kernel, (buckets_faithful hnew hops).2 trade⟩

end ExchangeSimulator

end Backtester
