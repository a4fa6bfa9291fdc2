import Backtester.Library.History

/-!
# Stable insertion and stable sorting

`insertLast key a l` inserts `a` into a list sorted by `key`, after every element whose
key is not larger.

`sortBy key` is Mathlib's stable `List.insertionSort`. Appending an element to the
input inserts it last into the output (`sortBy_snoc`), and an element with a
smaller key than everything before it and no larger key than everything after it comes
out first (`sortBy_middle`).
-/

namespace StableSort

variable {α β κ : Type*} [LinearOrder κ]

/-- `l` is sorted by `key`. -/
def SortedBy (key : α → κ) (l : List α) : Prop := l.Pairwise fun a b => key a ≤ key b

instance (key : α → κ) (l : List α) : Decidable (SortedBy key l) :=
  inferInstanceAs (Decidable (List.Pairwise _ l))

/-- Insert `a` after every element whose key is at most `key a`. -/
def insertLast (key : α → κ) (a : α) (l : List α) : List α :=
  l.orderedInsert (fun x y => key x < key y) a

/-- Insert the elements of `l'` one by one. -/
def insertAll (key : α → κ) (l' l : List α) : List α :=
  l'.foldl (fun l a => insertLast key a l) l

/-- The stable sort of `l` by `key`. -/
def sortBy (key : α → κ) (l : List α) : List α :=
  l.insertionSort fun a b => key a ≤ key b

variable {key : α → κ}

/-! ## Insertion -/

@[simp] theorem insertLast_nil (a : α) : insertLast key a [] = [a] := rfl

theorem insertLast_cons (a b : α) (l : List α) : insertLast key a (b :: l) =
    if key a < key b then a :: b :: l else b :: insertLast key a l := by
  simp [insertLast]

theorem insertLast_perm (a : α) (l : List α) : (insertLast key a l).Perm (a :: l) :=
  List.perm_orderedInsert _ a l

/-- Inserting adds one element. -/
@[simp] theorem mem_insertLast {a b : α} {l : List α} :
    b ∈ insertLast key a l ↔ b = a ∨ b ∈ l := by
  rw [(insertLast_perm a l).mem_iff, List.mem_cons]

/-- A sorted list stays sorted. -/
theorem sortedBy_insertLast {a : α} : ∀ {l : List α}, SortedBy key l →
    SortedBy key (insertLast key a l)
  | [], _ => List.pairwise_singleton _ _
  | b :: l, h => by
    obtain ⟨hb, hl⟩ := List.pairwise_cons.1 h
    rw [insertLast_cons]
    split_ifs with hab
    · refine List.pairwise_cons.2 ⟨fun c hc => ?_, h⟩
      rcases List.mem_cons.1 hc with rfl | hc
      · exact hab.le
      · exact hab.le.trans (hb c hc)
    · refine List.pairwise_cons.2 ⟨fun c hc => ?_, sortedBy_insertLast hl⟩
      rcases mem_insertLast.1 hc with rfl | hc
      · exact not_lt.1 hab
      · exact hb c hc

/-- A greatest element goes to the end. -/
theorem insertLast_eq_append {a : α} : ∀ {l : List α}, (∀ b ∈ l, key b ≤ key a) →
    insertLast key a l = l ++ [a]
  | [], _ => rfl
  | b :: l, h => by
    rw [insertLast_cons, if_neg (not_lt.2 (h b (by simp))),
      insertLast_eq_append fun c hc => h c (by simp [hc])]
    rfl

/-- A least element goes to the front. -/
theorem insertLast_eq_cons {a : α} {l : List α} (h : ∀ b ∈ l, key a < key b) :
    insertLast key a l = a :: l := by
  cases l with
  | nil => rfl
  | cons b l => rw [insertLast_cons, if_pos (h b (by simp))]

/-- Two keys that compare `a` alike with every element insert it at the same place. -/
theorem insertLast_congr {κ' : Type*} [LinearOrder κ'] {key' : α → κ'} {a : α} :
    ∀ {l : List α}, (∀ b ∈ l, key a < key b ↔ key' a < key' b) →
      insertLast key a l = insertLast key' a l
  | [], _ => rfl
  | b :: l, h => by
    rw [insertLast_cons, insertLast_cons, insertLast_congr fun c hc => h c (by simp [hc])]
    exact if_congr (h b (by simp)) rfl rfl

/-- Inserting commutes with a map that keeps the key. -/
theorem map_insertLast (g : β → α) (a : β) : ∀ l : List β,
    (insertLast (fun b => key (g b)) a l).map g = insertLast key (g a) (l.map g)
  | [] => rfl
  | b :: l => by
    rw [insertLast_cons, List.map_cons, insertLast_cons, ← map_insertLast g a l]
    split_ifs <;> rfl

/-- An element that is filtered out makes no difference. -/
theorem filter_insertLast_neg {p : α → Bool} {a : α} (ha : ¬p a = true) :
    ∀ l : List α, (insertLast key a l).filter p = l.filter p
  | [] => by simp [ha]
  | b :: l => by
    rw [insertLast_cons]
    split_ifs
    · rw [List.filter_cons_of_neg ha]
    · simp only [List.filter_cons, filter_insertLast_neg ha l]

/-- Inserting commutes with a filter that keeps the element. -/
theorem filter_insertLast_pos {p : α → Bool} {a : α} (ha : p a = true) :
    ∀ {l : List α}, SortedBy key l →
      (insertLast key a l).filter p = insertLast key a (l.filter p)
  | [], _ => by simp [ha]
  | b :: l, hl => by
    obtain ⟨hb, hl'⟩ := List.pairwise_cons.1 hl
    have ih := filter_insertLast_pos ha hl'
    rw [insertLast_cons]
    split_ifs with hab
    · rw [List.filter_cons_of_pos ha]
      -- `a` comes before everything, so also before what the filter keeps
      refine (insertLast_eq_cons fun c hc => ?_).symm
      rcases List.mem_cons.1 (List.mem_of_mem_filter hc) with rfl | hc
      · exact hab
      · exact hab.trans_le (hb c hc)
    · by_cases hp : p b = true
      · rw [List.filter_cons_of_pos hp, List.filter_cons_of_pos hp, ih, insertLast_cons,
          if_neg hab]
      · rw [List.filter_cons_of_neg hp, List.filter_cons_of_neg hp, ih]

/-- Elements that come after all of `l` are inserted behind it. -/
theorem insertLast_append {a : α} {l : List α} (h : ∀ b ∈ l, key b ≤ key a) (l' : List α) :
    insertLast key a (l ++ l') = l ++ insertLast key a l' := by
  induction l with
  | nil => rfl
  | cons b l ih =>
    rw [List.cons_append, insertLast_cons, if_neg (not_lt.2 (h b (by simp))),
      ih fun c hc => h c (by simp [hc]), List.cons_append]

/-- What is least already stays in front. -/
theorem insertAll_append : ∀ {l' l : List α}, (∀ a ∈ l', ∀ b ∈ l, key b ≤ key a) →
    ∀ m : List α, insertAll key l' (l ++ m) = l ++ insertAll key l' m
  | [], _, _, _ => rfl
  | a :: l', l, h, m => by
    simp only [insertAll, List.foldl_cons]
    rw [insertLast_append (h a (by simp))]
    exact insertAll_append (fun b hb => h b (by simp [hb])) _

/-- First the one list, then the other. -/
theorem insertAll_append_right (l l' m : List α) :
    insertAll key (l ++ l') m = insertAll key l' (insertAll key l m) :=
  List.foldl_append

/-- Inserting a list adds its elements. -/
theorem insertAll_perm : ∀ l' l : List α, (insertAll key l' l).Perm (l ++ l')
  | [], l => by simp [insertAll]
  | a :: l', l => by
    refine (insertAll_perm l' (insertLast key a l)).trans ?_
    refine ((insertLast_perm a l).append_right l').trans ?_
    exact List.perm_middle.symm

/-! ## Sorting -/

/-- Sorting permutes. -/
theorem sortBy_perm (l : List α) : (sortBy key l).Perm l :=
  List.perm_insertionSort _ l

/-- A sorted list stays as it is. -/
theorem sortBy_eq_self {l : List α} (h : SortedBy key l) : sortBy key l = l :=
  List.Pairwise.insertionSort_eq h

/-- Sorting sorts. -/
theorem sortedBy_sortBy (l : List α) : SortedBy key (sortBy key l) :=
  haveI : Std.Total fun a b : α => key a ≤ key b := ⟨fun a b => le_total (key a) (key b)⟩
  haveI : IsTrans α fun a b => key a ≤ key b := ⟨fun _ _ _ => le_trans⟩
  List.pairwise_insertionSort _ l

theorem sortBy_cons (a : α) (l : List α) :
    sortBy key (a :: l) = (sortBy key l).orderedInsert (fun a b => key a ≤ key b) a := rfl

/-- Inserting `b` first and `a` last commute. -/
private theorem orderedInsert_insertLast (a b : α) : ∀ {l : List α}, SortedBy key l →
    (insertLast key a l).orderedInsert (fun a b => key a ≤ key b) b =
      insertLast key a (l.orderedInsert (fun a b => key a ≤ key b) b)
  | [], _ => by
    by_cases h : key b ≤ key a
    · simp [insertLast_cons, h, not_lt.2 h]
    · simp [insertLast_cons, h, not_le.1 h]
  | c :: l, hl => by
    obtain ⟨hc, hl'⟩ := List.pairwise_cons.1 hl
    have ih := orderedInsert_insertLast a b hl'
    by_cases hac : key a < key c
    · by_cases hba : key b ≤ key a
      · have hbc : key b ≤ key c := hba.trans hac.le
        simp [insertLast_cons, hac, hba, hbc, not_lt.2 hba]
      · by_cases hbc : key b ≤ key c
        · simp [insertLast_cons, hac, hba, hbc, not_le.1 hba]
        · simp [insertLast_cons, hac, hba, hbc]
    · by_cases hbc : key b ≤ key c
      · have hba : ¬key a < key b := not_lt.2 (hbc.trans (not_lt.1 hac))
        simp [insertLast_cons, hac, hbc, hba]
      · simp [insertLast_cons, hac, hbc, ih]

/-- The last element is inserted behind its equals. -/
theorem sortBy_snoc (a : α) : ∀ l : List α,
    sortBy key (l ++ [a]) = insertLast key a (sortBy key l)
  | [] => rfl
  | b :: l => by
    rw [List.cons_append, sortBy_cons, sortBy_snoc a l, sortBy_cons,
      orderedInsert_insertLast a b (sortedBy_sortBy l)]

/-- Sorting a longer list inserts what is new. -/
theorem sortBy_append (l l' : List α) : sortBy key (l ++ l') = insertAll key l' (sortBy key l) := by
  induction l' using List.reverseRecOn with
  | nil => simp [insertAll]
  | append_singleton l' a ih =>
    rw [← List.append_assoc, sortBy_snoc, ih, insertAll_append_right]
    rfl

/-- Sorting commutes with a map that carries the keys over. -/
theorem map_sortBy (g : β → α) (l : List β) :
    (sortBy (fun b => key (g b)) l).map g = sortBy key (l.map g) := by
  induction l using List.reverseRecOn with
  | nil => rfl
  | append_singleton l b ih =>
    rw [sortBy_snoc, map_insertLast, ih, List.map_append, List.map_singleton, sortBy_snoc]

/-- Where `a` is inserted : behind every element whose key is at most its own. -/
theorem exists_insertLast_eq {a : α} {l : List α} (h : SortedBy key l) :
    ∃ l₁ l₂, l = l₁ ++ l₂ ∧ insertLast key a l = l₁ ++ a :: l₂ ∧
      l.filter (key · ≤ key a) = l₁ := by
  induction l with
  | nil => exact ⟨[], [], rfl, rfl, rfl⟩
  | cons b l ih =>
    obtain ⟨hb, hl⟩ := List.pairwise_cons.1 h
    rw [insertLast_cons]
    split_ifs with hab
    · refine ⟨[], b :: l, rfl, rfl, List.filter_eq_nil_iff.2 fun c hc => ?_⟩
      have hac : key a < key c := by
        rcases List.mem_cons.1 hc with rfl | hc
        · exact hab
        · exact hab.trans_le (hb c hc)
      simpa using hac
    · obtain ⟨l₁, l₂, heq, hinsert, hfilter⟩ := ih hl
      refine ⟨b :: l₁, l₂, by rw [heq]; rfl, by rw [hinsert]; rfl, ?_⟩
      rw [List.filter_cons_of_pos (by simpa using hab), hfilter]

/-- A property of elements and what precedes them survives sorting if it only needs elements of
no larger key. -/
theorem always_sortBy {P : List α → α → Prop} (mono : ∀ pre pre' a, pre ⊆ pre' → P pre a → P pre' a)
    {l : List α} (h : History.Always (fun pre a => P (pre.filter (key · ≤ key a)) a) l) :
    History.Always P (sortBy key l) := by
  induction l using List.reverseRecOn with
  | nil => exact History.always_nil
  | append_singleton l a ih =>
    obtain ⟨hl, ha⟩ := History.always_snoc.1 h
    obtain ⟨l₁, l₂, heq, hinsert, hfilter⟩ :=
      @exists_insertLast_eq _ _ _ key a _ (sortedBy_sortBy l)
    have hlow : P l₁ a := by
      refine mono _ _ a (fun b hb => ?_) ha
      obtain ⟨hb, hle⟩ := List.mem_filter.1 hb
      exact hfilter ▸ List.mem_filter.2 ⟨(sortBy_perm l).mem_iff.2 hb, hle⟩
    have hsorted := heq ▸ ih hl
    rw [sortBy_snoc, hinsert]
    refine History.always_append (fun pre b post hpre => ?_) fun pre b post hpost => ?_
    · exact hsorted pre b (post ++ l₂) (by simp [hpre])
    · cases pre with
      | nil =>
        obtain ⟨rfl, -⟩ := List.cons.inj hpost
        simpa using hlow
      | cons c pre =>
        obtain ⟨rfl, rfl⟩ := List.cons.inj hpost
        exact mono (l₁ ++ pre) _ b (by simp) (hsorted (l₁ ++ pre) b post (by simp))

/-- An element before all that follow and less than all that precede comes first. -/
theorem sortBy_middle {a : α} : ∀ {l l' : List α}, (∀ b ∈ l, key a < key b) →
    (∀ b ∈ l', key a ≤ key b) → sortBy key (l ++ a :: l') = a :: sortBy key (l ++ l')
  | [], l', _, h' => by
    rw [List.nil_append, List.nil_append, sortBy_cons]
    cases hs : sortBy key l' with
    | nil => rfl
    | cons b s =>
      have hb : b ∈ l' := (sortBy_perm l').mem_iff.1 (hs ▸ List.mem_cons_self)
      rw [List.orderedInsert_cons, if_pos (h' b hb)]
  | b :: l, l', h, h' => by
    rw [List.cons_append, sortBy_cons,
      sortBy_middle (fun c hc => h c (by simp [hc])) h', List.orderedInsert_cons,
      if_neg (not_le.2 (h b (by simp)))]
    rfl

end StableSort
