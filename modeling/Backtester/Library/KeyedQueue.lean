import Mathlib

/-!
# Queues of keyed entries

A list of entries with a key and a value, in the order they arrived. The value of a key can be set
(`put`), and its entries can leave. Both commute with a choice of keys (`filter_put`), so who
watches some of the keys can follow the queue by the same operations. A volume can be taken from the
front (`TakenFrom`).
-/

namespace KeyedQueue

variable {κ β : Type*} [DecidableEq κ] {k : κ} {v w : β} {l : List (κ × β)}

/-- Set the value of the first entry of `k`. -/
def put (k : κ) (v : β) : List (κ × β) → List (κ × β)
  | [] => []
  | e :: l => if e.1 = k then (e.1, v) :: l else e :: put k v l

/-- The keys of a queue, in order. -/
def keys (l : List (κ × β)) : List κ := l.map Prod.fst

/-- Setting a value changes no key. -/
@[simp] theorem keys_put (k : κ) (v : β) (l : List (κ × β)) : keys (put k v l) = keys l := by
  induction l with
  | nil => rfl
  | cons e l ih =>
    rw [put]
    split_ifs
    · rfl
    · exact congrArg (e.1 :: ·) ih

/-- Setting the value of a key that is not there changes nothing. -/
theorem put_of_not_mem (h : k ∉ keys l) (v : β) : put k v l = l := by
  induction l with
  | nil => rfl
  | cons e l ih =>
    obtain ⟨hne, hl⟩ := not_or.1 (mt List.mem_cons.2 h)
    rw [put, if_neg (Ne.symm hne), ih hl]

/-- A value that is set is there. -/
theorem mem_put (h : k ∈ keys l) (v : β) : (k, v) ∈ put k v l := by
  induction l with
  | nil => cases h
  | cons e l ih =>
    rw [put]
    split_ifs with hk
    · rw [hk]
      exact List.mem_cons_self
    · exact List.mem_cons_of_mem _ (ih ((List.mem_cons.1 h).resolve_left (Ne.symm hk)))

omit [DecidableEq κ] in
/-- Filtering by key filters the keys. -/
theorem mem_keys_filter {p : κ → Bool} : k ∈ keys (l.filter fun e => p e.1) ↔ k ∈ keys l ∧
    p k = true := by
  simp only [keys, List.mem_map, List.mem_filter]
  constructor
  · rintro ⟨e, ⟨he, hp⟩, rfl⟩
    exact ⟨⟨e, he, rfl⟩, hp⟩
  · rintro ⟨⟨e, he, rfl⟩, hp⟩
    exact ⟨e, ⟨he, hp⟩, rfl⟩

/-- Setting a value commutes with a choice of keys. -/
theorem filter_put (p : κ → Bool) (k : κ) (v : β) (l : List (κ × β)) :
    ((put k v l).filter fun e => p e.1) = put k v (l.filter fun e => p e.1) := by
  induction l with
  | nil => rfl
  | cons e l ih =>
    by_cases hk : e.1 = k
    · cases hp : p e.1 with
      | true => simp [put, hk, hk ▸ hp]
      | false =>
        have hnot : k ∉ keys (l.filter fun e => p e.1) := fun hmem => by
          have hpk := (mem_keys_filter.1 hmem).2
          simp [← hk, hp] at hpk
        simp [put, hk, hk ▸ hp, put_of_not_mem hnot]
    · cases hp : p e.1 with
      | true => simp [put, hk, hp, ih]
      | false => simp [put, hk, hp, ih]

/-- Where the keys are distinct, an entry is the only one of its key. -/
theorem erase_eq_filter (h : (keys l).Nodup) (k : κ) :
    (l.eraseP fun e => e.1 = k) = l.filter fun e => e.1 ≠ k := by
  induction l with
  | nil => rfl
  | cons e l ih =>
    obtain ⟨he, hl⟩ := List.nodup_cons.1 h
    by_cases hk : e.1 = k
    · have hrest : (l.filter fun e => e.1 ≠ k) = l := by
        refine List.filter_eq_self.2 fun e' he' => decide_eq_true fun hk' => he ?_
        exact hk.trans hk'.symm ▸ List.mem_map_of_mem he'
      rw [List.eraseP_cons_of_pos (by simpa using hk), List.filter_cons_of_neg (by simpa using hk),
        hrest]
    · rw [List.eraseP_cons_of_neg (by simpa using hk), List.filter_cons_of_pos (by simpa using hk),
        ih hl]

/-- Where the keys are distinct, the entries of the keys of a first part are that part. -/
theorem filter_mem_keys {l' : List (κ × β)} (h : (keys l).Nodup) (hpre : l' <+: l) :
    (l.filter fun e => e.1 ∈ keys l') = l' := by
  obtain ⟨rest, rfl⟩ := hpre
  rw [keys, List.map_append, List.nodup_append] at h
  have hfirst : (l'.filter fun e => e.1 ∈ keys l') = l' :=
    List.filter_eq_self.2 fun e he => decide_eq_true (List.mem_map_of_mem he)
  have hrest : (rest.filter fun e => e.1 ∈ keys l') = [] :=
    List.filter_eq_nil_iff.2 fun e he hmem =>
      h.2.2 e.1 (of_decide_eq_true hmem) e.1 (List.mem_map_of_mem he) rfl
  rw [List.filter_append, hfirst, hrest, List.append_nil]

/-- A key is not found when it is not there. -/
theorem find_eq_none_iff : (l.find? fun e => e.1 = k) = none ↔ k ∉ keys l := by
  simp only [List.find?_eq_none, decide_eq_true_eq, keys, List.mem_map, not_exists, not_and]

/-! ## Totals -/

variable [AddCommGroup β]

/-- The total of a queue. -/
def total (l : List (κ × β)) : β := (l.map Prod.snd).sum

/-- Setting a value changes the total by the difference. -/
theorem total_put (h : (l.find? fun e => e.1 = k) = some (k, w)) (v : β) :
    total (put k v l) = total l - w + v := by
  induction l with
  | nil => simp at h
  | cons e l ih =>
    by_cases hk : e.1 = k
    · rw [List.find?_cons_of_pos (by simpa using hk)] at h
      obtain rfl := Option.some.inj h
      simp [total, put, add_comm]
    · rw [List.find?_cons_of_neg (by simpa using hk)] at h
      have ih := ih h
      simp only [total, put, if_neg hk, List.map_cons, List.sum_cons] at ih ⊢
      rw [ih]
      abel

/-- Erasing a key takes its value from the total. -/
theorem total_erase (h : (l.find? fun e => e.1 = k) = some (k, w)) :
    total (l.eraseP fun e => e.1 = k) = total l - w := by
  induction l with
  | nil => simp at h
  | cons e l ih =>
    by_cases hk : e.1 = k
    · rw [List.find?_cons_of_pos (by simpa using hk)] at h
      obtain rfl := Option.some.inj h
      simp [total]
    · rw [List.find?_cons_of_neg (by simpa using hk)] at h
      have ih := ih h
      rw [List.eraseP_cons_of_neg (by simpa using hk)]
      simp only [total, List.map_cons, List.sum_cons] at ih ⊢
      rw [ih]
      abel

/-! ## Taking from the front -/

variable [LinearOrder β] [IsOrderedAddMonoid β] {l' : List (κ × β)} {volume : β}

omit [DecidableEq κ] in
/-- Positive values have no negative total. -/
theorem total_nonneg (h : ∀ e ∈ l, 0 < e.2) : 0 ≤ total l := by
  refine List.sum_nonneg fun v hv => ?_
  obtain ⟨e, he, rfl⟩ := List.mem_map.1 hv
  exact (h e he).le

/-- `volume` is taken from the oldest entries : the first ones are gone, the next one may have lost
a part of its value, and the others are as before. -/
def TakenFrom (l : List (κ × β)) (volume : β) (l' : List (κ × β)) : Prop :=
  ∃ gone rest, l = gone ++ rest ∧
    (total gone = volume ∧ l' = rest ∨
      ∃ k v later, rest = (k, v) :: later ∧ total gone < volume ∧ volume < total gone + v ∧
        l' = (k, total gone + v - volume) :: later)

namespace TakenFrom

omit [DecidableEq κ] [IsOrderedAddMonoid β] in
/-- Taking nothing leaves everything. -/
theorem zero (l : List (κ × β)) : TakenFrom l 0 l := ⟨[], l, rfl, .inl ⟨rfl, rfl⟩⟩

omit [DecidableEq κ] in
/-- After an entry that is used up. -/
theorem cons (e : κ × β) (h : TakenFrom l (volume - e.2) l') : TakenFrom (e :: l) volume l' := by
  have htotal : ∀ gone : List (κ × β), total (e :: gone) = e.2 + total gone := fun _ => rfl
  obtain ⟨gone, rest, rfl, ⟨hgone, rfl⟩ | ⟨k, v, later, rfl, hlt, hgt, rfl⟩⟩ := h
  · exact ⟨e :: gone, l', rfl, .inl ⟨by rw [htotal, hgone, add_sub_cancel], rfl⟩⟩
  · refine ⟨e :: gone, (k, v) :: later, rfl, .inr ⟨k, v, later, rfl, ?_, ?_, ?_⟩⟩
    · rw [htotal]
      exact lt_sub_iff_add_lt'.1 hlt
    · rw [htotal, add_assoc]
      exact sub_lt_iff_lt_add'.1 hgt
    · rw [htotal]
      congr 2
      abel

omit [DecidableEq κ] [IsOrderedAddMonoid β] in
/-- What is taken is missing in the total. -/
theorem total_eq (h : TakenFrom l volume l') : total l' = total l - volume := by
  obtain ⟨gone, rest, rfl, ⟨hgone, rfl⟩ | ⟨k, v, later, rfl, -, -, rfl⟩⟩ := h
  · simp only [total, List.map_append, List.sum_append] at hgone ⊢
    rw [← hgone]
    abel
  · simp only [total, List.map_append, List.map_cons, List.sum_append, List.sum_cons]
    abel

omit [DecidableEq κ] in
/-- What is left is positive. -/
theorem positive (h : TakenFrom l volume l') (hl : ∀ e ∈ l, 0 < e.2) : ∀ e ∈ l', 0 < e.2 := by
  obtain ⟨gone, rest, rfl, ⟨hgone, rfl⟩ | ⟨k, v, later, rfl, -, hgt, rfl⟩⟩ := h
  · exact fun e he => hl e (List.mem_append_right _ he)
  · intro e he
    rcases List.mem_cons.1 he with rfl | he
    · exact sub_pos.2 hgt
    · exact hl e (List.mem_append_right _ (List.mem_cons_of_mem _ he))

omit [DecidableEq κ] in
/-- Taking everything leaves nothing. -/
theorem eq_nil (h : TakenFrom l (total l) l') (hl : ∀ e ∈ l, 0 < e.2) : l' = [] := by
  have htotal := h.total_eq
  rw [sub_self] at htotal
  have hpos := h.positive hl
  cases l' with
  | nil => rfl
  | cons e rest =>
    have hrest := total_nonneg fun e' he' => hpos e' (List.mem_cons_of_mem e he')
    exact absurd htotal (add_pos_of_pos_of_nonneg (hpos e List.mem_cons_self) hrest).ne'

end TakenFrom

end KeyedQueue
