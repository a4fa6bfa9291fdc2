import Backtester.Library.StableSort

/-!
# A stable queue that is filled lazily

Two queues are sorted by `key`, and a new item goes behind the items of its key. The items with `p`
are of a feed that is known in advance, the others come up while the queues are worked off. The
eager queue holds the whole feed from the start, the lazy queue takes the items of the feed in one
by one, and `rest` is what it has not taken in (`Coupled`).

In the eager queue the feed is in front of the other items of the same key. The lazy queue keeps to
that order if it takes no item of the feed in while another item of that key waits (`Coupled.take`),
and then both queues pop the same items in the same order (`Coupled.head`).
-/

open StableSort

namespace LazyQueue

variable {α κ : Type*} [LinearOrder κ] (key : α → κ) (p : α → Bool)

/-- The order by `key`, with the feed in front. -/
def rank (a : α) : κ ×ₗ Bool := toLex (key a, !p a)

/-- The eager queue is the lazy queue with the rest of the feed inserted. -/
structure Coupled (rest lazy eager : List α) : Prop where
  feed : eager.filter p = insertAll key rest (lazy.filter p)
  other : eager.filter (!p ·) = lazy.filter (!p ·)
  lazyRanked : SortedBy (rank key p) lazy
  eagerRanked : SortedBy (rank key p) eager

variable {key p}

theorem rank_le_rank {a b : α} : rank key p a ≤ rank key p b ↔
    key a < key b ∨ key a = key b ∧ (p a = true ∨ p b = false) := by
  unfold rank
  rw [Prod.Lex.toLex_le_toLex]
  cases p a <;> cases p b <;> simp

theorem rank_lt_rank {a b : α} : rank key p a < rank key p b ↔
    key a < key b ∨ key a = key b ∧ p a = true ∧ p b = false := by
  unfold rank
  rw [Prod.Lex.toLex_lt_toLex]
  cases p a <;> cases p b <;> simp

theorem key_le_of_rank_le {a b : α} (h : rank key p a ≤ rank key p b) : key a ≤ key b := by
  rcases rank_le_rank.1 h with h | ⟨h, -⟩
  · exact h.le
  · exact h.le

/-- Items of the same rank are of the same kind. -/
theorem kind_eq_of_rank {a b : α} (hab : rank key p a ≤ rank key p b)
    (hba : rank key p b ≤ rank key p a) : p a = p b := by
  have h : toLex (key a, !p a) = toLex (key b, !p b) := le_antisymm hab hba
  simpa using (Prod.mk.inj (toLex.injective h)).2

theorem sorted_of_ranked {l : List α} (h : SortedBy (rank key p) l) : SortedBy key l :=
  h.imp key_le_of_rank_le

/-- A new item keeps the order unless it is of the feed and finds another item of its key. -/
theorem ranked_insertLast {a : α} {l : List α} (h : SortedBy (rank key p) l)
    (untied : p a = true → ∀ b ∈ l, p b = false → key b ≠ key a) :
    SortedBy (rank key p) (insertLast key a l) := by
  have hsame : insertLast key a l = insertLast (rank key p) a l := by
    refine insertLast_congr fun b hb => ?_
    rw [rank_lt_rank]
    exact (or_iff_left fun ⟨heq, ha, hpb⟩ => untied ha b hb hpb heq.symm).symm
  rw [hsame]
  exact sortedBy_insertLast h

namespace Coupled

variable {rest lazy eager : List α} {a x : α}

/-- A feed that is in the eager queue and not in the lazy one. -/
theorem start (hfeed : ∀ a ∈ rest, p a = true) : Coupled key p rest [] (sortBy key rest) := by
  have hmem : ∀ a ∈ sortBy key rest, p a = true :=
    fun a ha => hfeed a ((sortBy_perm rest).mem_iff.1 ha)
  have hsort : sortBy key ([] ++ rest) = insertAll key rest (sortBy key []) := sortBy_append [] rest
  refine ⟨?_, ?_, List.Pairwise.nil, ?_⟩
  · rw [List.filter_eq_self.2 hmem]
    exact hsort
  · exact List.filter_eq_nil_iff.2 fun a ha => by simp [hmem a ha]
  · refine List.Pairwise.imp_of_mem (fun {a b} ha _ hle => ?_) (sortedBy_sortBy rest)
    rw [rank_le_rank]
    rcases hle.lt_or_eq with hlt | heq
    · exact .inl hlt
    · exact .inr ⟨heq, .inl (hmem a ha)⟩

/-- An item that is not of the feed goes into both queues. -/
theorem push (h : Coupled key p rest lazy eager) (ha : p a = false) :
    Coupled key p rest (insertLast key a lazy) (insertLast key a eager) := by
  have hneg : ¬p a = true := by simp [ha]
  have hpos : (!p a) = true := by simp [ha]
  refine ⟨?_, ?_, ranked_insertLast h.lazyRanked fun hp => absurd hp hneg,
    ranked_insertLast h.eagerRanked fun hp => absurd hp hneg⟩
  · rw [filter_insertLast_neg hneg, filter_insertLast_neg hneg]
    exact h.feed
  · rw [filter_insertLast_pos (p := (!p ·)) hpos (sorted_of_ranked h.eagerRanked),
      filter_insertLast_pos (p := (!p ·)) hpos (sorted_of_ranked h.lazyRanked), h.other]

theorem pushAll (h : Coupled key p rest lazy eager) {l : List α} (hl : ∀ a ∈ l, p a = false) :
    Coupled key p rest (insertAll key l lazy) (insertAll key l eager) := by
  induction l generalizing lazy eager with
  | nil => exact h
  | cons a l ih => exact ih (h.push (hl a (by simp))) fun b hb => hl b (by simp [hb])

/-- The lazy queue takes in the next item of the feed, and no other item of its key waits. -/
theorem take (h : Coupled key p (a :: rest) lazy eager) (ha : p a = true)
    (untied : ∀ b ∈ lazy, p b = false → key b ≠ key a) :
    Coupled key p rest (insertLast key a lazy) eager := by
  refine ⟨?_, ?_, ranked_insertLast h.lazyRanked fun _ => untied, h.eagerRanked⟩
  · rw [filter_insertLast_pos ha (sorted_of_ranked h.lazyRanked)]
    exact h.feed
  · rw [filter_insertLast_neg (p := (!p ·)) (by simp [ha])]
    exact h.other

theorem takeAll {new : List α} (h : Coupled key p (new ++ rest) lazy eager)
    (hnew : ∀ a ∈ new, p a = true) (untied : ∀ b ∈ lazy, p b = false → ∀ a ∈ new, key b ≠ key a) :
    Coupled key p rest (insertAll key new lazy) eager := by
  induction new generalizing lazy with
  | nil => exact h
  | cons a new ih =>
    have hfree : ∀ b ∈ lazy, p b = false → key b ≠ key a :=
      fun b hb hp => untied b hb hp a (by simp)
    refine ih (h.take (hnew a (by simp)) hfree) (fun b hb => hnew b (by simp [hb]))
      fun b hb hp c hc => ?_
    rcases mem_insertLast.1 hb with rfl | hb
    · rw [hnew b (by simp)] at hp
      cases hp
    · exact untied b hb hp c (by simp [hc])

theorem mem_eager (h : Coupled key p rest lazy eager) : a ∈ eager → a ∈ lazy ∨ a ∈ rest := by
  intro ha
  cases hp : p a with
  | true =>
    have hmem := h.feed ▸ List.mem_filter.2 ⟨ha, hp⟩
    rw [(insertAll_perm _ _).mem_iff, List.mem_append] at hmem
    exact hmem.imp_left List.mem_of_mem_filter
  | false =>
    have hmem := h.other ▸ List.mem_filter.2 ⟨ha, (by simp [hp] : (!p a) = true)⟩
    exact .inl (List.mem_of_mem_filter hmem)

theorem mem_lazy (h : Coupled key p rest lazy eager) (ha : a ∈ lazy) : a ∈ eager := by
  cases hp : p a with
  | true =>
    have hmem : a ∈ insertAll key rest (lazy.filter p) := by
      rw [(insertAll_perm _ _).mem_iff]
      exact List.mem_append_left _ (List.mem_filter.2 ⟨ha, hp⟩)
    exact List.mem_of_mem_filter (h.feed ▸ hmem)
  | false =>
    have hmem := h.other ▸ List.mem_filter.2 ⟨ha, (by simp [hp] : (!p a) = true)⟩
    exact List.mem_of_mem_filter hmem

/-- When the rest of the feed comes later, the front of the lazy queue is the front of the eager
one. -/
theorem head (h : Coupled key p rest (x :: lazy) eager) (later : ∀ a ∈ rest, key x < key a) :
    ∃ eager', eager = x :: eager' ∧ Coupled key p rest lazy eager' := by
  have hfeed : insertAll key rest ((x :: lazy).filter p) =
      (if p x then [x] else []) ++ insertAll key rest (lazy.filter p) := by
    by_cases hx : p x = true
    · have hle : ∀ a ∈ rest, ∀ b ∈ [x], key b ≤ key a := fun a ha b hb =>
        List.mem_singleton.1 hb ▸ (later a ha).le
      rw [List.filter_cons_of_pos hx, if_pos hx]
      exact insertAll_append hle _
    · rw [List.filter_cons_of_neg hx, if_neg hx, List.nil_append]
  have hx : x ∈ eager := h.mem_lazy List.mem_cons_self
  cases eager with
  | nil => cases hx
  | cons y eager =>
    have hfront : y = x := by
      by_contra hne
      have hyx : rank key p y ≤ rank key p x :=
        (List.pairwise_cons.1 h.eagerRanked).1 x ((List.mem_cons.1 hx).resolve_left (Ne.symm hne))
      rcases h.mem_eager List.mem_cons_self with hy | hy
      · have hxy : rank key p x ≤ rank key p y :=
          (List.pairwise_cons.1 h.lazyRanked).1 y ((List.mem_cons.1 hy).resolve_left hne)
        -- both are in front of all items of their kind
        have hkind := kind_eq_of_rank hxy hyx
        cases hp : p x with
        | true =>
          have hf := h.feed
          rw [hfeed, List.filter_cons_of_pos (hkind ▸ hp), if_pos hp] at hf
          exact hne (List.cons.inj hf).1
        | false =>
          have ho := h.other
          rw [List.filter_cons_of_pos (by simp [← hkind, hp]),
            List.filter_cons_of_pos (by simp [hp])] at ho
          exact hne (List.cons.inj ho).1
      · exact absurd (key_le_of_rank_le hyx) (not_le.2 (later y hy))
    subst hfront
    refine ⟨eager, rfl, ?_, ?_, (List.pairwise_cons.1 h.lazyRanked).2,
      (List.pairwise_cons.1 h.eagerRanked).2⟩
    · have hf := h.feed
      rw [hfeed, List.filter_cons] at hf
      split_ifs at hf with hp
      · exact (List.cons.inj hf).2
      · exact hf
    · have ho := h.other
      simp only [List.filter_cons] at ho
      split_ifs at ho with hp
      · exact (List.cons.inj ho).2
      · exact ho

/-- Two queues without a rest of the feed hold the same items. -/
theorem eq_nil (h : Coupled key p [] [] eager) : eager = [] := by
  refine List.eq_nil_iff_forall_not_mem.2 fun a ha => ?_
  rcases h.mem_eager ha with ha | ha <;> cases ha

/-- Whether the front has key `k` is the same for both queues when the rest of the feed comes
later. -/
theorem head_key_iff (h : Coupled key p rest lazy eager) {k : κ} (later : ∀ a ∈ rest, k < key a) :
    lazy.head?.map key = some k ↔ eager.head?.map key = some k := by
  have hsame : ∀ x, lazy.head? = some x → key x ≤ k → eager.head? = some x := by
    intro x hx hle
    obtain ⟨l, rfl⟩ := List.head?_eq_some_iff.1 hx
    obtain ⟨eager', rfl, -⟩ := h.head fun a ha => hle.trans_lt (later a ha)
    rfl
  constructor
  · intro hk
    obtain ⟨x, hx, rfl⟩ := Option.map_eq_some_iff.1 hk
    rw [hsame x hx le_rfl]
    rfl
  · intro hk
    obtain ⟨y, hy, rfl⟩ := Option.map_eq_some_iff.1 hk
    rcases h.mem_eager (List.mem_of_mem_head? hy) with hmem | hmem
    · obtain ⟨x, l, rfl⟩ := List.exists_cons_of_ne_nil (List.ne_nil_of_mem hmem)
      have hle : key x ≤ key y := by
        rcases List.mem_cons.1 hmem with rfl | hmem
        · exact le_rfl
        · exact key_le_of_rank_le ((List.pairwise_cons.1 h.lazyRanked).1 y hmem)
      have hxy : some x = some y := (hsame x rfl hle).symm.trans hy
      rw [List.head?_cons, hxy]
      rfl
    · exact absurd (later y hmem) (lt_irrefl _)

end Coupled

end LazyQueue
