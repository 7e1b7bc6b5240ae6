import Mathlib.Data.List.Basic
import Mathlib.Tactic.Common

/-!
# DriveSync.Lib.Loop

Rules for a loop over a list, written as a fold of its body.

* `foldl_done`: an invariant that says what the items done so far have contributed.
* `foldl_establish`: one item brings a fact about, and no item takes it away.
* `foldlM_done`: the first rule for a body that can fail, of a loop that does not.
* `bind_eq_ok`: a sequence of two computations succeeds when both do.
* `bind_eq_error`, `exists_of_foldlM_error`: a computation that fails does so at one of its parts.
-/

namespace DriveSync
namespace Loop

variable {α β γ σ ε : Type}

theorem bind_eq_ok {x : Except ε α} {f : α → Except ε β} {b : β} :
    (x >>= f) = .ok b ↔ ∃ a, x = .ok a ∧ f a = .ok b := by
  cases x with
  | error e => simp [bind, Except.bind]
  | ok a => simp [bind, Except.bind]

theorem mapError_eq_ok {δ : Type} {x : Except ε α} {f : ε → δ} {a : α} :
    x.mapError f = .ok a ↔ x = .ok a := by
  cases x <;> simp [Except.mapError]

/-- Whether a computation succeeds with a result in `p`. -/
def okAnd (x : Except ε α) (p : α → Bool) : Bool :=
  match x with
  | .ok a => p a
  | .error _ => false

theorem exists_of_okAnd {x : Except ε α} {p : α → Bool} (h : okAnd x p = true) :
    ∃ a, x = .ok a ∧ p a = true := by
  cases x with
  | ok a => exact ⟨a, rfl, h⟩
  | error e => cases h

/-- Every result of a loop that succeeds is the result of one of its items. -/
theorem mem_of_mapM {f : α → Except ε β} {l : List α} {l' : List β}
    (h : l.mapM f = .ok l') : ∀ b ∈ l', ∃ a ∈ l, f a = .ok b := by
  induction l generalizing l' with
  | nil =>
    cases h
    simp
  | cons a l ih =>
    rw [List.mapM_cons] at h
    obtain ⟨b, hb, h⟩ := bind_eq_ok.mp h
    obtain ⟨bs, hbs, h⟩ := bind_eq_ok.mp h
    obtain rfl := Except.ok.inj h
    intro c hc
    rcases List.mem_cons.mp hc with rfl | hc
    · exact ⟨a, .head _, hb⟩
    · obtain ⟨a', ha', hfa⟩ := ih hbs c hc
      exact ⟨a', .tail _ ha', hfa⟩

/-- Where a step gives what a function does, or fails for want of something, so does the walk. -/
theorem mapM_eq_ok {f : α → Except ε β} {g : α → β} {P : α → Prop}
    (hf : ∀ a b, f a = .ok b ↔ b = g a ∧ P a) {l : List α} {l' : List β} :
    l.mapM f = .ok l' ↔ l' = l.map g ∧ ∀ a ∈ l, P a := by
  induction l generalizing l' with
  | nil =>
    constructor
    · intro h
      cases h
      exact ⟨rfl, by simp⟩
    · rintro ⟨rfl, _⟩
      rfl
  | cons a l ih =>
    rw [List.mapM_cons]
    constructor
    · intro h
      obtain ⟨b, hb, h⟩ := bind_eq_ok.mp h
      obtain ⟨bs, hbs, h⟩ := bind_eq_ok.mp h
      obtain ⟨rfl, ha⟩ := (hf a b).mp hb
      obtain ⟨rfl, hl⟩ := ih.mp hbs
      exact ⟨(Except.ok.inj h).symm, List.forall_mem_cons.mpr ⟨ha, hl⟩⟩
    · rintro ⟨rfl, h⟩
      obtain ⟨ha, hl⟩ := List.forall_mem_cons.mp h
      rw [(hf a _).mpr ⟨rfl, ha⟩, ih.mpr ⟨rfl, hl⟩]
      rfl

/-- Where each item can be told from its result, the results stand in the order of the items. -/
theorem map_of_mapM {f : α → Except ε β} {g : β → γ} {k : α → γ} {l : List α} {l' : List β}
    (hback : ∀ a ∈ l, ∀ b, f a = .ok b → g b = k a) (h : l.mapM f = .ok l') :
    l'.map g = l.map k := by
  induction l generalizing l' with
  | nil =>
    cases h
    rfl
  | cons a l ih =>
    rw [List.mapM_cons] at h
    obtain ⟨b, hb, h⟩ := bind_eq_ok.mp h
    obtain ⟨bs, hbs, h⟩ := bind_eq_ok.mp h
    obtain rfl := Except.ok.inj h
    rw [List.map_cons, List.map_cons, hback a (.head _) b hb,
      ih (fun a ha => hback a (.tail _ ha)) hbs]

/-- An invariant of the items done so far holds of all of them when the loop ends. -/
theorem foldl_done {body : σ → α → σ} {I : List α → σ → Prop} {s : σ} (l : List α)
    (start : I [] s)
    (step : ∀ done a rest s, l = done ++ a :: rest → I done s → I (done ++ [a]) (body s a)) :
    I l (l.foldl body s) := by
  suffices h : ∀ rest done s, l = done ++ rest → I done s → I l (rest.foldl body s) from
    h l [] s rfl start
  intro rest
  induction rest with
  | nil =>
    intro done s hl h
    rw [List.append_nil] at hl
    exact hl ▸ h
  | cons a rest ih =>
    intro done s hl h
    exact ih (done ++ [a]) (body s a) (by simp [hl]) (step done a rest s hl h)

/-- What one item brings about holds when the loop ends, if no item takes it away. -/
theorem foldl_establish {body : σ → α → σ} {I Q : σ → Prop} {l : List α} {a : α} {s : σ}
    (start : I s) (inv : ∀ s, ∀ b ∈ l, I s → I (body s b))
    (keep : ∀ s, ∀ b ∈ l, I s → Q s → Q (body s b))
    (ha : a ∈ l) (brings : ∀ s, I s → Q (body s a)) : Q (l.foldl body s) := by
  have keepAll : ∀ (k : List α) (s : σ), (∀ b ∈ k, b ∈ l) → I s → Q s → Q (k.foldl body s) := by
    intro k
    induction k with
    | nil => intro s _ _ hQ; exact hQ
    | cons b k ih =>
      intro s hk hInv hQ
      have hb := hk b (.head _)
      exact ih (body s b) (fun c hc => hk c (.tail _ hc)) (inv s b hb hInv) (keep s b hb hInv hQ)
  obtain ⟨before, after, rfl⟩ := List.append_of_mem ha
  rw [List.foldl_append, List.foldl_cons]
  have hmid : I (before.foldl body s) :=
    List.foldlRecOn before body start fun s hs b hb => inv s b (by simp [hb]) hs
  exact keepAll after _ (fun b hb => by simp [hb]) (inv _ a ha hmid) (brings _ hmid)

/-- The rule `foldl_done` for a body that can fail. -/
theorem foldlM_done {body : σ → α → Except ε σ} {I : List α → σ → Prop} {s s' : σ} (l : List α)
    (start : I [] s)
    (step : ∀ done a rest s s', l = done ++ a :: rest → I done s → body s a = .ok s' →
      I (done ++ [a]) s')
    (h : l.foldlM body s = .ok s') : I l s' := by
  suffices hgen : ∀ rest done s, l = done ++ rest → I done s → rest.foldlM body s = .ok s' →
      I l s' from hgen l [] s rfl start h
  intro rest
  induction rest with
  | nil =>
    intro done s hl hInv h
    rw [List.append_nil] at hl
    cases h
    exact hl ▸ hInv
  | cons a rest ih =>
    intro done s hl hInv h
    rw [List.foldlM_cons] at h
    cases hbody : body s a with
    | error e => rw [hbody] at h; cases h
    | ok s1 =>
      rw [hbody] at h
      exact ih (done ++ [a]) s1 (by simp [hl]) (step done a rest s s1 hl hInv hbody) h

/-! ## Where a computation failed -/

theorem bind_eq_error {x : Except ε α} {f : α → Except ε β} {e : ε} :
    (x >>= f) = .error e ↔ x = .error e ∨ ∃ a, x = .ok a ∧ f a = .error e := by
  cases x with
  | error d => simp [bind, Except.bind]
  | ok a => simp [bind, Except.bind]

theorem mapError_eq_error {δ : Type} {x : Except ε α} {f : ε → δ} {e : δ} :
    x.mapError f = .error e ↔ ∃ d, x = .error d ∧ f d = e := by
  cases x <;> simp [Except.mapError]

theorem exists_of_mapM_error {f : α → Except ε β} {l : List α} {e : ε}
    (h : l.mapM f = .error e) : ∃ a ∈ l, f a = .error e := by
  induction l with
  | nil => cases h
  | cons a l ih =>
    rw [List.mapM_cons] at h
    rcases bind_eq_error.mp h with ha | ⟨b, _, h⟩
    · exact ⟨a, .head _, ha⟩
    · rcases bind_eq_error.mp h with hl | ⟨bs, _, h⟩
      · obtain ⟨a', ha', hfa⟩ := ih hl
        exact ⟨a', .tail _ ha', hfa⟩
      · cases h

/-- A loop fails at one of its items. -/
theorem exists_of_foldlM_error {body : σ → α → Except ε σ} {l : List α} {s : σ} {e : ε}
    (h : l.foldlM body s = .error e) : ∃ a ∈ l, ∃ s', body s' a = .error e := by
  induction l generalizing s with
  | nil => cases h
  | cons a l ih =>
    rw [List.foldlM_cons] at h
    rcases bind_eq_error.mp h with ha | ⟨s', _, h⟩
    · exact ⟨a, .head _, s, ha⟩
    · obtain ⟨a', ha', s'', hbody⟩ := ih h
      exact ⟨a', .tail _ ha', s'', hbody⟩

end Loop
end DriveSync
