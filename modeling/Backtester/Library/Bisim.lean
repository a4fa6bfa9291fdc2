import Backtester.Library.Run

/-!
# Machines that move in lockstep

Results agree if they are the same error or related values (`Agree`). Machines whose turns keep a
relation between their states, and give the same status, stay related for as long as they run
(`runFor_related`).
-/

namespace Run

/-- Results that agree : the same error, or related values. -/
inductive Agree {ε α α' : Type*} (rel : α → α' → Prop) : Except ε α → Except ε α' → Prop
  | error (err : ε) : Agree rel (.error err) (.error err)
  | ok {a : α} {a' : α'} : rel a a' → Agree rel (.ok a) (.ok a')

namespace Agree

variable {ε α α' β β' : Type*} {rel : α → α' → Prop} {rel' : β → β' → Prop} {r : Except ε α}
  {r' : Except ε α'}

theorem map {f : α → β} {f' : α' → β'} (h : Agree rel r r')
    (step : ∀ a a', rel a a' → rel' (f a) (f' a')) : Agree rel' (r.map f) (r'.map f') := by
  cases h with
  | error err => exact .error err
  | ok ha => exact .ok (step _ _ ha)

theorem bind {f : α → Except ε β} {f' : α' → Except ε β'} (h : Agree rel r r')
    (step : ∀ a a', rel a a' → Agree rel' (f a) (f' a')) : Agree rel' (r.bind f) (r'.bind f') := by
  cases h with
  | error err => exact .error err
  | ok ha => exact step _ _ ha

theorem mapError {ε' : Type*} {f : ε → ε'} (h : Agree rel r r') :
    Agree rel (r.mapError f) (r'.mapError f) := by
  cases h with
  | error err => exact .error (f err)
  | ok ha => exact .ok ha

theorem refl {rel : α → α → Prop} (h : ∀ a, rel a a) (r : Except ε α) : Agree rel r r := by
  cases r with
  | error err => exact .error err
  | ok a => exact .ok (h a)

end Agree

/-- Machines that move in lockstep stay related, and stop together. -/
theorem runFor_related {σ σ' ε : Type} {turn : σ → σ × Status ε} {turn' : σ' → σ' × Status ε}
    {rel : σ → σ' → Prop}
    (step : ∀ s s', rel s s' → rel (turn s).1 (turn' s').1 ∧ (turn' s').2 = (turn s).2) {s : σ}
    {s' : σ'} (h : rel s s') (n : ℕ) : rel (runFor turn n s).1 (runFor turn' n s').1 ∧
      (runFor turn' n s').2 = (runFor turn n s).2 := by
  induction n with
  | zero => exact ⟨h, rfl⟩
  | succ n ih =>
    simp only [runFor]
    generalize runFor turn n s = r at ih ⊢
    generalize runFor turn' n s' = r' at ih ⊢
    obtain ⟨t, st⟩ := r
    obtain ⟨t', st'⟩ := r'
    obtain ⟨hrel, rfl⟩ := ih
    cases st' with
    | running => exact step t t' hrel
    | finished => exact ⟨hrel, rfl⟩
    | failed err => exact ⟨hrel, rfl⟩

end Run
