import Mathlib

/-!
# Histories

A history is a list that grows at its end. `Always P l` says that every entry was in the
relation `P` to the entries before it when it was made, and `Everywhere P l` that every entry is
in the relation `P` to the entries before it and those after it.
-/

namespace History

variable {α β : Type*} {P Q : List α → α → Prop}

/-- Every entry of `l` is in the relation `P` to the entries before it. -/
def Always (P : List α → α → Prop) (l : List α) : Prop :=
  ∀ pre a post, l = pre ++ a :: post → P pre a

theorem always_nil : Always P [] := by
  intro pre a post h
  simp at h

theorem always_snoc {l : List α} {a : α} : Always P (l ++ [a]) ↔ Always P l ∧ P l a := by
  constructor
  · intro h
    exact ⟨fun pre b post hl => h pre b (post ++ [a]) (by simp [hl]), h l a [] rfl⟩
  · rintro ⟨hl, ha⟩ pre b post heq
    rcases List.eq_nil_or_concat post with rfl | ⟨post', c, rfl⟩
    · obtain ⟨rfl, hb⟩ := List.append_inj' heq rfl
      obtain rfl := List.singleton_inj.1 hb
      exact ha
    · have heq' : l ++ [a] = (pre ++ b :: post') ++ [c] := by simpa using heq
      exact hl pre b post' (List.append_inj' heq' rfl).1

theorem Always.mono {l : List α} (h : Always P l) (hPQ : ∀ pre a, P pre a → Q pre a) :
    Always Q l :=
  fun pre a post hl => hPQ pre a (h pre a post hl)

/-- A history extended by entries that are each in the relation to what precedes them. -/
theorem always_append {l : List α} (hl : Always P l) :
    ∀ {l' : List α}, (∀ pre a post, l' = pre ++ a :: post → P (l ++ pre) a) →
      Always P (l ++ l') := by
  intro l'
  induction l' using List.reverseRecOn with
  | nil => simpa using hl
  | append_singleton l' b ih =>
    intro h
    rw [← List.append_assoc, always_snoc]
    exact ⟨ih fun pre a post heq => h pre a (post ++ [b]) (by simp [heq]), h l' b [] rfl⟩

theorem always_iff {l : List α} : Always P l ↔ ∀ k (hk : k < l.length), P (l.take k) l[k] := by
  constructor
  · intro h k hk
    exact h _ _ (l.drop (k + 1)) (by rw [← List.drop_eq_getElem_cons hk, List.take_append_drop])
  · rintro h pre a post rfl
    simpa using h pre.length (by simp)

instance [∀ pre a, Decidable (P pre a)] (l : List α) : Decidable (Always P l) :=
  decidable_of_iff _ always_iff.symm

/-- Every entry of `l` is in the relation `P` to the entries before it and those after it. -/
def Everywhere (P : List α → α → List α → Prop) (l : List α) : Prop :=
  ∀ pre a post, l = pre ++ a :: post → P pre a post

/-- An entry of `l ++ l'` is an entry of `l` that more follows, or an entry of `l'` that more
precedes. -/
theorem everywhere_append {P : List α → α → List α → Prop} {l l' : List α}
    (hl : Everywhere (fun pre a post => P pre a (post ++ l')) l)
    (hl' : Everywhere (fun pre a post => P (l ++ pre) a post) l') : Everywhere P (l ++ l') := by
  intro pre a post h
  rcases List.append_eq_append_iff.1 h with ⟨pre', rfl, heq⟩ | ⟨rest, rfl, heq⟩
  · exact hl' pre' a post heq
  · cases rest with
    | nil => simpa using hl' [] a post heq.symm
    | cons b rest =>
      obtain ⟨rfl, rfl⟩ := List.cons_eq_cons.1 heq
      exact hl pre a rest rfl

end History
