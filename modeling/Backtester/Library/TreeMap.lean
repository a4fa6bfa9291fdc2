import Mathlib

/-!
# Ends of an ordered map

The least and the greatest entry of an ordered map are entries of it, and no key lies beyond them.
-/

open Std Std.DTreeMap.Internal

namespace TreeMap

variable {κ β : Type} {e : κ × β}

/-- The entries of a node are those of its subtrees and its own. -/
theorem mem_toList_inner {n : ℕ} {k : κ} {v : β} {l r : Impl κ fun _ => β} :
    e ∈ Impl.Const.toList (.inner n k v l r) ↔
      e ∈ Impl.Const.toList l ∨ e = (k, v) ∨ e ∈ Impl.Const.toList r := by
  simp only [Impl.Const.toList_eq_toListModel_map, Impl.toListModel_inner, List.map_append,
    List.map_cons, List.mem_append, List.mem_cons]

/-- The least entry of a tree is one of its entries. -/
theorem mem_of_min_eq : ∀ {t : Impl κ fun _ => β}, Impl.Const.minEntry? t = some e →
    e ∈ Impl.Const.toList t
  | .leaf, h => by simp [Impl.Const.minEntry?] at h
  | .inner _ k v .leaf r, h => by
    rw [Impl.Const.minEntry?] at h
    exact mem_toList_inner.2 (.inr (.inl (Option.some.inj h).symm))
  | .inner _ k v (.inner _ _ _ _ _) r, h => by
    rw [Impl.Const.minEntry?] at h
    exact mem_toList_inner.2 (.inl (mem_of_min_eq h))

/-- The greatest entry of a tree is one of its entries. -/
theorem mem_of_max_eq : ∀ {t : Impl κ fun _ => β}, Impl.Const.maxEntry? t = some e →
    e ∈ Impl.Const.toList t
  | .leaf, h => by simp [Impl.Const.maxEntry?] at h
  | .inner _ k v l .leaf, h => by
    rw [Impl.Const.maxEntry?] at h
    exact mem_toList_inner.2 (.inr (.inl (Option.some.inj h).symm))
  | .inner _ k v l (.inner _ _ _ _ _), h => by
    rw [Impl.Const.maxEntry?] at h
    exact mem_toList_inner.2 (.inr (.inr (mem_of_max_eq h)))

/-- The key of the least entry is the least key. -/
theorem map_fst_min [Ord κ] : ∀ t : Impl κ fun _ => β,
    (Impl.Const.minEntry? t).map Prod.fst = Impl.minKey? t
  | .leaf => by simp [Impl.Const.minEntry?, Impl.minKey?]
  | .inner _ k v .leaf r => by simp [Impl.Const.minEntry?, Impl.minKey?]
  | .inner _ k v (.inner n k' v' l' r') r => by
    rw [Impl.Const.minEntry?, Impl.minKey?]
    exact map_fst_min (.inner n k' v' l' r')

/-- The key of the greatest entry is the greatest key. -/
theorem map_fst_max [Ord κ] : ∀ t : Impl κ fun _ => β,
    (Impl.Const.maxEntry? t).map Prod.fst = Impl.maxKey? t
  | .leaf => by simp [Impl.Const.maxEntry?, Impl.maxKey?]
  | .inner _ k v l .leaf => by simp [Impl.Const.maxEntry?, Impl.maxKey?]
  | .inner _ k v l (.inner n k' v' l' r') => by
    rw [Impl.Const.maxEntry?, Impl.maxKey?]
    exact map_fst_max (.inner n k' v' l' r')

variable [Ord κ] [TransOrd κ] [LawfulEqOrd κ] {t : ExtTreeMap κ β}

/-- The least entry is found under its key. -/
theorem getElem?_of_min_eq (h : t.minEntry? = some e) : t[e.1]? = some e.2 := by
  rw [← ExtTreeMap.mem_toList_iff_getElem?_eq_some]
  obtain ⟨⟨q⟩⟩ := t
  induction q using Quotient.ind with
  | _ m => exact mem_of_min_eq (t := m.inner) h

/-- The greatest entry is found under its key. -/
theorem getElem?_of_max_eq (h : t.maxEntry? = some e) : t[e.1]? = some e.2 := by
  rw [← ExtTreeMap.mem_toList_iff_getElem?_eq_some]
  obtain ⟨⟨q⟩⟩ := t
  induction q using Quotient.ind with
  | _ m => exact mem_of_max_eq (t := m.inner) h

omit [LawfulEqOrd κ] in
/-- The key of the least entry of a map is its least key. -/
theorem fst_minEntry (t : ExtTreeMap κ β) : t.minEntry?.map Prod.fst = t.minKey? := by
  obtain ⟨⟨q⟩⟩ := t
  induction q using Quotient.ind with
  | _ m => exact map_fst_min m.inner

omit [LawfulEqOrd κ] in
/-- The key of the greatest entry of a map is its greatest key. -/
theorem fst_maxEntry (t : ExtTreeMap κ β) : t.maxEntry?.map Prod.fst = t.maxKey? := by
  obtain ⟨⟨q⟩⟩ := t
  induction q using Quotient.ind with
  | _ m => exact map_fst_max m.inner

/-- No key is below that of the least entry. -/
theorem isLE_of_min_eq (h : t.minEntry? = some e) {k : κ} (hk : (t[k]?).isSome) :
    (compare e.1 k).isLE := by
  have hkey : t.minKey? = some e.1 := by rw [← fst_minEntry, h, Option.map_some]
  exact (ExtTreeMap.minKey?_eq_some_iff_mem_and_forall.1 hkey).2 k
    (ExtTreeMap.mem_iff_isSome_getElem?.2 hk)

/-- No key is above that of the greatest entry. -/
theorem isLE_of_max_eq (h : t.maxEntry? = some e) {k : κ} (hk : (t[k]?).isSome) :
    (compare k e.1).isLE := by
  have hkey : t.maxKey? = some e.1 := by rw [← fst_maxEntry, h, Option.map_some]
  exact (ExtTreeMap.maxKey?_eq_some_iff_mem_and_forall.1 hkey).2 k
    (ExtTreeMap.mem_iff_isSome_getElem?.2 hk)

omit [LawfulEqOrd κ] in
/-- A map is empty when nothing is found in it. -/
theorem eq_empty_iff : t = ∅ ↔ ∀ k : κ, t[k]? = none := by
  simp only [ExtTreeMap.eq_empty_iff_forall_not_mem, ExtTreeMap.mem_iff_isSome_getElem?,
    Bool.not_eq_true, Option.isSome_eq_false_iff, Option.isNone_iff_eq_none]

omit [LawfulEqOrd κ] in
/-- There is no least entry when nothing is found. -/
theorem minEntry_eq_none_iff : t.minEntry? = none ↔ ∀ k : κ, t[k]? = none := by
  rw [← Option.map_eq_none_iff (f := Prod.fst), fst_minEntry, ExtTreeMap.minKey?_eq_none_iff,
    eq_empty_iff]

omit [LawfulEqOrd κ] in
/-- There is no greatest entry when nothing is found. -/
theorem maxEntry_eq_none_iff : t.maxEntry? = none ↔ ∀ k : κ, t[k]? = none := by
  rw [← Option.map_eq_none_iff (f := Prod.fst), fst_maxEntry, ExtTreeMap.maxKey?_eq_none_iff,
    eq_empty_iff]

end TreeMap
