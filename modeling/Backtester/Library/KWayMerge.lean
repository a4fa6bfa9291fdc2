import Backtester.Library.StableSort

/-!
# Merging lists head by head

`pick key ls` takes the least head of the lists `ls`, the leftmost one among equal keys;
`merge key ls` repeats this until every list is empty. It holds every element once
(`merge_perm`), and when each list is sorted it is the stable sort of the lists laid end
to end (`merge_eq_sortBy`).
-/

open StableSort

namespace KWayMerge

variable {α κ : Type*} [LinearOrder κ]

/-- The least head, the leftmost among equal keys, and the lists without it. -/
def pick (key : α → κ) : List (List α) → Option (α × List (List α))
  | [] => none
  | [] :: ls => (pick key ls).map fun r => (r.1, [] :: r.2)
  | (a :: l) :: ls =>
    match pick key ls with
    | none => some (a, l :: ls)
    | some (b, ls') => if key a ≤ key b then some (a, l :: ls) else some (b, (a :: l) :: ls')

/-- `n` picks, or fewer if the lists run out. -/
def mergeN (key : α → κ) : ℕ → List (List α) → List α
  | 0, _ => []
  | n + 1, ls =>
    match pick key ls with
    | none => []
    | some (a, ls') => a :: mergeN key n ls'

/-- All elements of `ls`, in the order they are picked. -/
def merge (key : α → κ) (ls : List (List α)) : List α := mergeN key ls.flatten.length ls

variable {key : α → κ}

/-! ## One pick -/

theorem pick_eq_none : ∀ {ls : List (List α)}, pick key ls = none ↔ ls.flatten = []
  | [] => by simp [pick]
  | [] :: ls => by
    have ih : pick key ls = none ↔ ls.flatten = [] := pick_eq_none
    simp [pick, ih]
  | (a :: l) :: ls => by
    simp only [pick]
    cases pick key ls with
    | none => simp
    | some r => simp only []; split_ifs <;> simp

/-- The picked element heads some list; the heads to its left are larger, those to its
right not smaller. -/
theorem pick_spec : ∀ {ls ls' : List (List α)} {a : α}, pick key ls = some (a, ls') →
    ∃ pre l post, ls = pre ++ (a :: l) :: post ∧ ls' = pre ++ l :: post ∧
      (∀ t ∈ pre, ∀ b ∈ t.head?, key a < key b) ∧ ∀ t ∈ post, ∀ b ∈ t.head?, key a ≤ key b
  | [] :: ls, ls', a, h => by
    simp only [pick, Option.map_eq_some_iff, Prod.mk.injEq] at h
    obtain ⟨⟨b, ls₁⟩, hp, rfl, rfl⟩ := h
    obtain ⟨pre, l, post, rfl, hls, hpre, hpost⟩ := pick_spec hp
    refine ⟨[] :: pre, l, post, rfl, by rw [hls]; rfl, ?_, hpost⟩
    simpa using hpre
  | (b :: l) :: ls, ls', a, h => by
    simp only [pick] at h
    cases hp : pick key ls with
    | none =>
      rw [hp] at h
      obtain ⟨rfl, rfl⟩ := by simpa using h
      refine ⟨[], l, ls, rfl, rfl, by simp, fun t ht c hc => ?_⟩
      have hnil : t = [] := List.flatten_eq_nil_iff.1 (pick_eq_none.1 hp) t ht
      simp [hnil] at hc
    | some r =>
      obtain ⟨c, ls₁⟩ := r
      obtain ⟨pre, m, post, rfl, rfl, hpre, hpost⟩ := pick_spec hp
      rw [hp] at h
      simp only [] at h
      split_ifs at h with hbc
      · obtain ⟨rfl, rfl⟩ := by simpa using h
        refine ⟨[], l, _, rfl, rfl, by simp, fun t ht d hd => hbc.trans ?_⟩
        rcases List.mem_append.1 ht with ht | ht
        · exact (hpre t ht d hd).le
        · rcases List.mem_cons.1 ht with rfl | ht
          · obtain rfl : c = d := by simpa using hd
            exact le_rfl
          · exact hpost t ht d hd
      · obtain ⟨rfl, rfl⟩ := by simpa using h
        refine ⟨(b :: l) :: pre, m, post, rfl, rfl, ?_, hpost⟩
        simpa using ⟨not_le.1 hbc, hpre⟩

theorem pick_perm {ls ls' : List (List α)} {a : α} (h : pick key ls = some (a, ls')) :
    ls.flatten.Perm (a :: ls'.flatten) := by
  obtain ⟨pre, l, post, rfl, rfl, -, -⟩ := pick_spec h
  simp [List.perm_middle]

/-- The head of list `i` is picked when no head is smaller and every head to its left is
larger. -/
theorem pick_eq_some : ∀ {ls : List (List α)} {i : ℕ} {a : α} {l : List α},
    ls[i]? = some (a :: l) →
    (∀ j b t, ls[j]? = some (b :: t) → key a ≤ key b ∧ (j < i → key a < key b)) →
    pick key ls = some (a, ls.set i l)
  | l₀ :: ls, 0, a, l, hi, h => by
    obtain rfl : l₀ = a :: l := by simpa using hi
    simp only [pick, List.set_cons_zero]
    cases hp : pick key ls with
    | none => rfl
    | some r =>
      obtain ⟨b, ls'⟩ := r
      obtain ⟨pre, t, post, rfl, -⟩ := pick_spec hp
      have hab := (h (pre.length + 1) b t (by simp)).1
      simp [hab]
  | l₀ :: ls, i + 1, a, l, hi, h => by
    have hrec : pick key ls = some (a, ls.set i l) :=
      pick_eq_some (by simpa using hi) fun j b t hj => by
        obtain ⟨h1, h2⟩ := h (j + 1) b t (by simpa using hj)
        exact ⟨h1, fun hlt => h2 (by omega)⟩
    cases l₀ with
    | nil => simp [pick, hrec]
    | cons b t =>
      have hlt := (h 0 b t (by simp)).2 (by omega)
      simp [pick, hrec, not_le.2 hlt]

/-! ## The whole merge -/

theorem merge_nil {ls : List (List α)} (h : ls.flatten = []) : merge key ls = [] := by
  simp [merge, h, mergeN]

theorem merge_cons {ls ls' : List (List α)} {a : α} (h : pick key ls = some (a, ls')) :
    merge key ls = a :: merge key ls' := by
  have hlen : ls.flatten.length = ls'.flatten.length + 1 := by simpa using (pick_perm h).length_eq
  rw [merge, hlen, mergeN, h, merge]

/-- One list is merged with nothing. -/
theorem merge_singleton : ∀ l : List α, merge key [l] = l
  | [] => merge_nil rfl
  | a :: l => by
    have hpick : pick key [a :: l] = some (a, [l]) := rfl
    rw [merge_cons hpick, merge_singleton l]

variable (key) in
/-- The picks of `ls`, one after the other. -/
theorem merge_induction {P : List (List α) → Prop} (nil : ∀ ls, ls.flatten = [] → P ls)
    (cons : ∀ ls a ls', pick key ls = some (a, ls') → P ls' → P ls) (ls : List (List α)) :
    P ls := by
  induction hn : ls.flatten.length generalizing ls with
  | zero => exact nil ls (List.length_eq_zero_iff.1 hn)
  | succ n ih =>
    cases hp : pick key ls with
    | none =>
      rw [pick_eq_none.1 hp] at hn
      simp at hn
    | some r =>
      have hlen : ls.flatten.length = r.2.flatten.length + 1 := by
        simpa using (pick_perm hp).length_eq
      exact cons ls r.1 r.2 hp (ih r.2 (by omega))

variable (key) in
theorem merge_perm (ls : List (List α)) : (merge key ls).Perm ls.flatten := by
  induction ls using merge_induction key with
  | nil ls h => rw [merge_nil h, h]
  | cons ls a ls' h ih =>
    rw [merge_cons h]
    exact (ih.cons a).trans (pick_perm h).symm

/-- The lists left by a pick are suffixes of the lists. -/
theorem suffix_of_pick {ls ls' : List (List α)} {a : α} (h : pick key ls = some (a, ls')) :
    ∀ t ∈ ls', ∃ l ∈ ls, t <:+ l := by
  obtain ⟨pre, l, post, rfl, rfl, -, -⟩ := pick_spec h
  intro t ht
  rcases List.mem_append.1 ht with ht | ht
  · exact ⟨t, by simp [ht], List.suffix_refl t⟩
  · rcases List.mem_cons.1 ht with rfl | ht
    · exact ⟨a :: t, by simp, List.suffix_cons a t⟩
    · exact ⟨t, by simp [ht], List.suffix_refl t⟩

/-- The picked element is in one of the lists. -/
theorem mem_of_pick {ls ls' : List (List α)} {a : α} (h : pick key ls = some (a, ls')) :
    ∃ l ∈ ls, a ∈ l := by
  obtain ⟨pre, l, post, rfl, rfl, -, -⟩ := pick_spec h
  exact ⟨a :: l, by simp, List.mem_cons_self⟩

/-- Taking the head off one list keeps every list sorted. -/
theorem sorted_of_pick {κ' : Type*} [LinearOrder κ'] {g : α → κ'} {ls ls' : List (List α)} {a : α}
    (h : pick key ls = some (a, ls')) (hs : ∀ l ∈ ls, SortedBy g l) : ∀ l ∈ ls', SortedBy g l := by
  intro t ht
  obtain ⟨l, hl, hsuffix⟩ := suffix_of_pick h t ht
  exact (hs l hl).sublist hsuffix.sublist

/-- A bound on the head of a sorted list bounds the whole list. -/
theorem forall_of_head {p : κ → Prop} (hp : ∀ x y, p x → x ≤ y → p y) {t : List α}
    (hs : SortedBy key t) (hh : ∀ b ∈ t.head?, p (key b)) : ∀ b ∈ t, p (key b) := by
  cases t with
  | nil => simp
  | cons c t =>
    intro b hb
    rcases List.mem_cons.1 hb with rfl | hb
    · exact hh b (by simp)
    · exact hp _ _ (hh c (by simp)) ((List.pairwise_cons.1 hs).1 b hb)

/-- If a smaller key means no larger value of `g`, a merge of lists sorted by `g` is sorted
by `g`. -/
theorem sortedBy_merge {κ' : Type*} [LinearOrder κ'] {g : α → κ'}
    (hg : ∀ a b, key a ≤ key b → g a ≤ g b) {ls : List (List α)}
    (hs : ∀ l ∈ ls, SortedBy g l) : SortedBy g (merge key ls) := by
  induction ls using merge_induction key with
  | nil ls h =>
    rw [merge_nil h]
    exact List.Pairwise.nil
  | cons ls a ls' h ih =>
    rw [merge_cons h]
    obtain ⟨pre, l, post, rfl, rfl, hpre, hpost⟩ := pick_spec h
    have hal := List.pairwise_cons.1 (hs (a :: l) (by simp))
    refine List.pairwise_cons.2 ⟨fun b hb => ?_, ih fun t ht => ?_⟩
    · have hmem := (merge_perm key _).mem_iff.1 hb
      obtain ⟨t, ht, hbt⟩ := List.mem_flatten.1 hmem
      have hhead : ∀ t ∈ pre ++ post, (∀ c ∈ t.head?, g a ≤ g c) := by
        intro t ht c hc
        rcases List.mem_append.1 ht with ht | ht
        · exact hg _ _ (hpre t ht c hc).le
        · exact hg _ _ (hpost t ht c hc)
      have hside : ∀ t ∈ pre ++ post, ∀ c ∈ t, g a ≤ g c := fun t ht =>
        forall_of_head (p := (g a ≤ ·)) (fun _ _ => le_trans)
          (hs t (by rcases List.mem_append.1 ht with h | h <;> simp [h])) (hhead t ht)
      rcases List.mem_append.1 ht with ht | ht
      · exact hside t (by simp [ht]) b hbt
      · rcases List.mem_cons.1 ht with rfl | ht
        · exact hal.1 b hbt
        · exact hside t (by simp [ht]) b hbt
    · rcases List.mem_append.1 ht with ht | ht
      · exact hs t (by simp [ht])
      · rcases List.mem_cons.1 ht with rfl | ht
        · exact hal.2
        · exact hs t (by simp [ht])

/-- A merge of sorted lists is the stable sort of the lists laid end to end. -/
theorem merge_eq_sortBy {ls : List (List α)} (hs : ∀ l ∈ ls, SortedBy key l) :
    merge key ls = sortBy key ls.flatten := by
  induction ls using merge_induction key with
  | nil ls h =>
    rw [merge_nil h, h]
    rfl
  | cons ls a ls' h ih =>
    rw [merge_cons h, ih (sorted_of_pick h hs)]
    obtain ⟨pre, l, post, rfl, rfl, hpre, hpost⟩ := pick_spec h
    have hal := List.pairwise_cons.1 (hs (a :: l) (by simp))
    simp only [List.flatten_append, List.flatten_cons, List.cons_append]
    rw [sortBy_middle]
    · intro b hb
      obtain ⟨t, ht, hb⟩ := List.mem_flatten.1 hb
      exact forall_of_head (p := (key a < ·)) (fun _ _ => lt_of_lt_of_le) (hs t (by simp [ht]))
        (hpre t ht) b hb
    · intro b hb
      rcases List.mem_append.1 hb with hb | hb
      · exact hal.1 b hb
      · obtain ⟨t, ht, hb⟩ := List.mem_flatten.1 hb
        exact forall_of_head (p := (key a ≤ ·)) (fun _ _ => le_trans) (hs t (by simp [ht]))
          (hpost t ht) b hb

end KWayMerge
