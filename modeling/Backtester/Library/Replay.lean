import Mathlib.Data.List.Basic

/-!
# Replaying a history

`replay f b l` reads the history `l` from the state `b`. Unlike in a fold, each step `f` also sees
the part of the history before its entry, so that the state may depend on all that was recorded
(`replay_append`).
-/

namespace Replay

variable {α β γ : Type*} {f : List α → β → α → β} {pre l : List α} {b : β}

/-- The state after `l`, when `pre` came before it. -/
def replay (f : List α → β → α → β) (pre : List α) (b : β) : List α → β
  | [] => b
  | a :: l => replay f (pre ++ [a]) (f pre b a) l

theorem replay_append (pre : List α) (b : β) (l l' : List α) :
    replay f pre b (l ++ l') = replay f (pre ++ l) (replay f pre b l) l' := by
  induction l generalizing pre b with
  | nil => rw [List.append_nil]; rfl
  | cons a l ih =>
    refine (ih (pre ++ [a]) (f pre b a)).trans ?_
    rw [List.append_assoc]
    rfl

/-- Where the step only works on what `g` reads off the entries, the replay is a fold. -/
theorem replay_eq_foldl {g : α → Option γ} {h : β → γ → β}
    (step : ∀ pre' a post, l = pre' ++ a :: post → ∀ b, f (pre ++ pre') b a = (g a).elim b (h b)) :
    replay f pre b l = (l.filterMap g).foldl h b := by
  induction l generalizing pre b with
  | nil => rfl
  | cons a l ih =>
    have hhead : f pre b a = (g a).elim b (h b) := by simpa using step [] a l rfl b
    have htail : replay f (pre ++ [a]) (f pre b a) l = (l.filterMap g).foldl h (f pre b a) := by
      refine ih fun pre' a' post hsplit b => ?_
      rw [List.append_assoc]
      exact step (a :: pre') a' post (by rw [hsplit]; rfl) b
    rw [replay, htail, hhead]
    cases hg : g a with
    | none => rw [List.filterMap_cons_none hg]; rfl
    | some c => rw [List.filterMap_cons_some hg]; rfl

theorem replay_of_idle {g : α → Option γ} {h : β → γ → β}
    (step : ∀ pre' a post, l = pre' ++ a :: post → ∀ b, f (pre ++ pre') b a = (g a).elim b (h b))
    (idle : l.filterMap g = []) : replay f pre b l = b := by
  rw [replay_eq_foldl step, idle]
  rfl

/-- Two passes over a list are one pass, when the second commutes with the first. -/
theorem foldl_foldl {g h : β → α → β} (comm : ∀ b x y, g (h b x) y = h (g b y) x) (l : List α)
    (b : β) :
    l.foldl h (l.foldl g b) = l.foldl (fun b x => h (g b x) x) b := by
  have hpast : ∀ (l : List α) b x, h (l.foldl g b) x = l.foldl g (h b x) := by
    intro l
    induction l with
    | nil => exact fun _ _ => rfl
    | cons y l ih =>
      intro b x
      rw [List.foldl_cons, List.foldl_cons, ih, comm]
  induction l generalizing b with
  | nil => rfl
  | cons x l ih =>
    rw [List.foldl_cons, List.foldl_cons, List.foldl_cons, hpast, ih]

end Replay
