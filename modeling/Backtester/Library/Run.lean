import Mathlib

/-!
# Runs of a machine that may finish or fail

A machine is a function `turn` from a state to the next state and a status. `Reaches`
collects the states of its runs from a start state; between turns an environment may move
the state along `env`. A run stops at the first turn that does not leave it `running`.

`Reaches.invariant` is the induction rule, and `runFor` executes a run in which the environment
does not move (`reaches_runFor`).
-/

namespace Run

/-- Whether a run goes on, is through, or has failed. -/
inductive Status (ε : Type) where
  | running
  | finished
  | failed (err : ε)
  deriving DecidableEq, Repr

variable {σ ε : Type} {turn : σ → σ × Status ε} {env : σ → σ → Prop}

/-- `Reaches turn env s t st` : a run from `s` is in state `t` with status `st`. -/
inductive Reaches (turn : σ → σ × Status ε) (env : σ → σ → Prop) (s : σ) : σ → Status ε → Prop
  | start : Reaches turn env s s .running
  | turn {t : σ} : Reaches turn env s t .running → Reaches turn env s (turn t).1 (turn t).2
  | env {t t' : σ} : Reaches turn env s t .running → env t t' → Reaches turn env s t' .running

/-- Nothing moves the state but the machine. -/
def closed (_ _ : σ) : Prop := False

/-- What holds at the start and is preserved by every turn and every environment move
holds in every state of the run, the one it stops in included. -/
theorem Reaches.invariant {I : σ → Prop} {s t : σ} {st : Status ε}
    (h : Reaches turn env s t st) (start : I s) (step : ∀ t, I t → I (turn t).1)
    (move : ∀ t t', I t → env t t' → I t') : I t := by
  induction h with
  | start => exact start
  | turn _ ih => exact step _ ih
  | env _ he ih => exact move _ _ ih he

/-- The invariant rule when the environment does not move. -/
theorem Reaches.invariant_closed {I : σ → Prop} {s t : σ} {st : Status ε}
    (h : Reaches turn closed s t st) (start : I s) (step : ∀ t, I t → I (turn t).1) : I t :=
  h.invariant start step fun _ _ _ hf => hf.elim

/-- The invariant rule for the states from which a run goes on. -/
theorem Reaches.running {I : σ → Prop} {s t : σ} {st : Status ε} (h : Reaches turn env s t st)
    (hst : st = .running) (start : I s)
    (step : ∀ t, Reaches turn env s t .running → I t → (turn t).2 = .running → I (turn t).1)
    (move : ∀ t t', I t → env t t' → I t') : I t := by
  induction h with
  | start => exact start
  | turn ht ih => exact step _ ht (ih rfl) hst
  | env _ he ih => exact move _ _ (ih rfl) he

/-- `ReachesWhile ok turn env s t st` : a run from `s` to `t` with status `st`, every turn of which
starts in a state that satisfies `ok`. -/
inductive ReachesWhile (ok : σ → Prop) (turn : σ → σ × Status ε) (env : σ → σ → Prop) (s : σ) :
    σ → Status ε → Prop
  | start : ReachesWhile ok turn env s s .running
  | turn {t : σ} : ReachesWhile ok turn env s t .running → ok t →
      ReachesWhile ok turn env s (turn t).1 (turn t).2
  | env {t t' : σ} : ReachesWhile ok turn env s t .running → env t t' →
      ReachesWhile ok turn env s t' .running

theorem ReachesWhile.reaches {ok : σ → Prop} {s t : σ} {st : Status ε}
    (h : ReachesWhile ok turn env s t st) : Reaches turn env s t st := by
  induction h with
  | start => exact .start
  | turn _ _ ih => exact ih.turn
  | env _ he ih => exact ih.env he

/-- What holds at the start, and holds after a turn if and only if it holds before and the turn is
`ok`, tells whether all turns were `ok`. -/
theorem Reaches.while_iff {ok I : σ → Prop} {s t : σ} {st : Status ε} (h : Reaches turn env s t st)
    (start : I s) (step : ∀ t, Reaches turn env s t .running → (I (turn t).1 ↔ I t ∧ ok t))
    (move : ∀ t t', env t t' → (I t' ↔ I t)) : ReachesWhile ok turn env s t st ↔ I t := by
  constructor
  · intro hwhile
    clear h
    induction hwhile with
    | start => exact start
    | turn ht hok ih => exact (step _ ht.reaches).2 ⟨ih, hok⟩
    | env _ he ih => exact (move _ _ he).2 ih
  · intro hI
    induction h with
    | start => exact .start
    | turn ht ih =>
      obtain ⟨hI, hok⟩ := (step _ ht).1 hI
      exact (ih hI).turn hok
    | env _ he ih => exact (ih ((move _ _ he).1 hI)).env he

/-- `n` turns, or fewer if the run stops. -/
def runFor (turn : σ → σ × Status ε) : ℕ → σ → σ × Status ε
  | 0, s => (s, .running)
  | n + 1, s =>
    match runFor turn n s with
    | (t, .running) => turn t
    | r => r

/-- A map that commutes with a turn commutes with a run. -/
theorem runFor_map {σ' : Type} {turn' : σ' → σ' × Status ε} (f : σ → σ')
    (h : ∀ s, turn' (f s) = (f (turn s).1, (turn s).2)) (n : ℕ) (s : σ) :
    runFor turn' n (f s) = (f (runFor turn n s).1, (runFor turn n s).2) := by
  induction n with
  | zero => rfl
  | succ n ih =>
    simp only [runFor, ih]
    generalize runFor turn n s = r
    obtain ⟨t, _ | _ | err⟩ := r
    · exact h t
    · rfl
    · rfl

theorem reaches_runFor (s : σ) : ∀ n, Reaches turn env s (runFor turn n s).1 (runFor turn n s).2
  | 0 => .start
  | n + 1 => by
    have ih := reaches_runFor s n
    simp only [runFor]
    generalize runFor turn n s = r at ih ⊢
    obtain ⟨t, st⟩ := r
    cases st with
    | running => exact ih.turn
    | finished => exact ih
    | failed err => exact ih

/-- An executed run whose states before the last are `ok` is a run of `ok` turns. -/
theorem reachesWhile_runFor {ok : σ → Prop} (s : σ) : ∀ n, (∀ k < n, ok (runFor turn k s).1) →
    ReachesWhile ok turn env s (runFor turn n s).1 (runFor turn n s).2
  | 0, _ => .start
  | n + 1, hok => by
    have ih := reachesWhile_runFor s n fun k hk => hok k (hk.trans n.lt_succ_self)
    have hn := hok n n.lt_succ_self
    simp only [runFor]
    generalize runFor turn n s = r at ih hn ⊢
    obtain ⟨t, st⟩ := r
    cases st with
    | running => exact ih.turn hn
    | finished => exact ih
    | failed err => exact ih

theorem reaches_of_runFor {s : σ} {st : Status ε} (n : ℕ) (h : (runFor turn n s).2 = st) :
    Reaches turn env s (runFor turn n s).1 st :=
  h ▸ reaches_runFor s n

end Run
