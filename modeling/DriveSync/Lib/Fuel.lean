import Mathlib.Data.List.Basic
import Mathlib.Tactic.Common

/-!
# DriveSync.Lib.Fuel

A loop that runs until its body stops it. The body takes a state to the next one, or to the result.

* `run`: the loop, for as many steps as it is given.
* `run_add`: more steps do not change a result.
* `exists_run`: a measure that each step brings down is steps enough.
* `run_inv`: what every step keeps and the last one turns into the result's property.
* `countP_lt`: what is left to do gets less when one thing to do is done.
-/

namespace DriveSync
namespace Fuel

variable {σ ρ : Type}

/-- The next state, or the result. -/
inductive Next (σ ρ : Type) where
  | go (s : σ)
  | stop (r : ρ)

def run (body : σ → Next σ ρ) : Nat → σ → Option ρ
  | 0, _ => none
  | fuel + 1, s =>
    match body s with
    | .go s' => run body fuel s'
    | .stop r => some r

variable {body : σ → Next σ ρ}

theorem run_add {fuel : Nat} {s : σ} {r : ρ} (h : run body fuel s = some r) (more : Nat) :
    run body (fuel + more) s = some r := by
  induction fuel generalizing s with
  | zero => cases h
  | succ fuel ih =>
    rw [Nat.add_right_comm]
    simp only [run] at h ⊢
    split at h
    · exact ih h
    · exact h

theorem run_of_le {fuel fuel' : Nat} {s : σ} {r : ρ} (h : run body fuel s = some r)
    (hle : fuel ≤ fuel') : run body fuel' s = some r := by
  rw [← Nat.add_sub_cancel' hle]
  exact run_add h _

/-- A loop whose steps keep an invariant and bring a measure down comes to a result. -/
theorem exists_run {I : σ → Prop} (measure : σ → Nat) {s : σ} (start : I s)
    (step : ∀ s s', I s → body s = .go s' → I s' ∧ measure s' < measure s) :
    ∃ r, run body (measure s + 1) s = some r := by
  suffices h : ∀ fuel s, I s → measure s < fuel → ∃ r, run body fuel s = some r from
    h _ s start (Nat.lt_succ_self _)
  intro fuel
  induction fuel with
  | zero => intro s _ h; omega
  | succ fuel ih =>
    intro s hI h
    simp only [run]
    cases hb : body s with
    | stop r => exact ⟨r, rfl⟩
    | go s' =>
      obtain ⟨hI', hlt⟩ := step s s' hI hb
      exact ih s' hI' (by omega)

/-- What holds at the start and is kept by every step holds where the loop stops. -/
theorem run_inv {I : σ → Prop} {Q : ρ → Prop} {fuel : Nat} {s : σ} {r : ρ} (start : I s)
    (step : ∀ s s', I s → body s = .go s' → I s')
    (stop : ∀ s r, I s → body s = .stop r → Q r) (h : run body fuel s = some r) : Q r := by
  induction fuel generalizing s with
  | zero => cases h
  | succ fuel ih =>
    simp only [run] at h
    cases hb : body s with
    | stop r' =>
      rw [hb] at h
      cases h
      exact stop s r start hb
    | go s' =>
      rw [hb] at h
      exact ih (step s s' start hb) h

/-- Fewer items are left when none comes back and one is done. -/
theorem countP_lt {α : Type} {l : List α} {p q : α → Bool} (h : ∀ x ∈ l, p x = true → q x = true)
    {a : α} (ha : a ∈ l) (hp : p a = false) (hq : q a = true) : l.countP p < l.countP q := by
  obtain ⟨front, back, rfl⟩ := List.append_of_mem ha
  have hfront : front.countP p ≤ front.countP q :=
    List.countP_mono_left fun x hx => h x (by simp [hx])
  have hback : back.countP p ≤ back.countP q :=
    List.countP_mono_left fun x hx => h x (by simp [hx])
  simp only [List.countP_append, List.countP_cons, hp, hq]
  simp
  omega

end Fuel
end DriveSync
