import DriveSync.Lib.Prog

/-!
# DriveSync.Lib.Descend

A loop of a program whose every step either ends it or brings a measure down, so that it needs no
other bound on how often it goes round.

* `descend`: the loop; each step hands over its next state with the proof that it is nearer the end.
* `wp_descend`: the rule of the loop, by an invariant of its states.
-/

namespace DriveSync
namespace Prog

variable {I : Interface} {σ ε τ ρ : Type} {measure : τ → Nat}

/-- What a step comes to: the loop's result, or a state nearer to its end. -/
abbrev Descent (measure : τ → Nat) (ρ : Type) (t : τ) : Type :=
  ρ ⊕ { t' : τ // measure t' < measure t }

/-- The loop from a state whose measure is at most `n`. -/
def descendFrom (body : (t : τ) → Prog I σ ε (Descent measure ρ t)) :
    (n : Nat) → (t : τ) → measure t ≤ n → Prog I σ ε ρ
  | 0, t, h => do
    match ← body t with
    | .inl r => pure r
    | .inr t' => absurd t'.2 (by omega)
  | n + 1, t, h => do
    match ← body t with
    | .inl r => pure r
    | .inr t' => descendFrom body n t'.1 (Nat.le_of_lt_succ (Nat.lt_of_lt_of_le t'.2 h))

def descend (body : (t : τ) → Prog I σ ε (Descent measure ρ t)) (t : τ) : Prog I σ ε ρ :=
  descendFrom body (measure t) t (Nat.le_refl _)

variable {env : Env I} {Q : ρ → World I σ → Prop} {E : ε → World I σ → Prop}
  {body : (t : τ) → Prog I σ ε (Descent measure ρ t)} {J : τ → World I σ → Prop}

/-- What every step keeps, and the last one turns into what is asked of the result. -/
theorem wp_descend
    (step : ∀ t w, J t w → wp env (body t)
      (fun r w' => (∀ a, r = .inl a → Q a w') ∧ ∀ t', r = .inr t' → J t'.1 w') E w)
    {t : τ} {w : World I σ} (start : J t w) : wp env (descend body t) Q E w := by
  suffices h : ∀ n t (ht : measure t ≤ n) w, J t w → wp env (descendFrom body n t ht) Q E w from
    h _ t _ w start
  intro n
  induction n with
  | zero =>
    intro t ht w hw
    rw [descendFrom, wp_bind]
    refine wp_mono (step t w hw) (fun r w' hr => ?_) fun _ _ h => h
    cases r with
    | inl a => exact hr.1 a rfl
    | inr t' => exact absurd t'.2 (by omega)
  | succ n ih =>
    intro t ht w hw
    rw [descendFrom, wp_bind]
    refine wp_mono (step t w hw) (fun r w' hr => ?_) fun _ _ h => h
    cases r with
    | inl a => exact hr.1 a rfl
    | inr t' => exact ih t'.1 _ w' (hr.2 t' rfl)

end Prog
end DriveSync
