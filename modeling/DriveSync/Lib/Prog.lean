import Mathlib.Data.List.Basic
import Mathlib.Tactic.Common

/-!
# DriveSync.Lib.Prog

Programs that call the outside world, report as they go, keep a state, and can fail. All that was
asked and answered and all that was reported is on one log, and neither the log nor the state is
lost when a program fails.

* `Prog`: a program, run against an environment that answers each call on the whole log before it.
  Every sequence of answers is some environment's.
* `wp`: what has to hold before a program for its result and the world it leaves to be as asked,
  with a rule for each way to build a program.
* `wp_foldlM`, `wp_forM`: the rules of loops, by an invariant of the items done so far; `wp_forM_met`,
  by an invariant of the worlds and a condition of each item.
* `Returns`: what holds of every result of a program.
* `Takes`: what every part of a program does to the world, succeeding and failing.
* `Spends`: the same where what is done is to be accounted for, item by item.
-/

namespace DriveSync

/-- What a program can call, what it is answered, and what it can report. -/
structure Interface where
  Call : Type
  Reply : Call → Type
  Event : Type

variable {I : Interface} {σ ε α β : Type}

/-- A call with its answer, or a report. -/
inductive Entry (I : Interface) where
  | asked (call : I.Call) (reply : I.Reply call)
  | told (event : I.Event)

/-- What answers each call, given all that went before it. -/
abbrev Env (I : Interface) : Type := List (Entry I) → (call : I.Call) → I.Reply call

/-- The log so far, oldest entry first, and the state. -/
structure World (I : Interface) (σ : Type) where
  log : List (Entry I)
  state : σ

def World.push (w : World I σ) (entry : Entry I) : World I σ := ⟨w.log ++ [entry], w.state⟩

def World.put (w : World I σ) (state : σ) : World I σ := ⟨w.log, state⟩

@[simp] theorem World.push_log (w : World I σ) (entry : Entry I) :
    (w.push entry).log = w.log ++ [entry] := rfl

@[simp] theorem World.push_state (w : World I σ) (entry : Entry I) :
    (w.push entry).state = w.state := rfl

@[simp] theorem World.put_log (w : World I σ) (state : σ) : (w.put state).log = w.log := rfl

@[simp] theorem World.put_state (w : World I σ) (state : σ) : (w.put state).state = state := rfl

def Prog (I : Interface) (σ ε α : Type) : Type := Env I → World I σ → Except ε α × World I σ

namespace Prog

instance : Monad (Prog I σ ε) where
  pure a := fun _ w => (.ok a, w)
  bind p f := fun env w =>
    match p env w with
    | (.ok a, w') => f a env w'
    | (.error e, w') => (.error e, w')

def ask (call : I.Call) : Prog I σ ε (I.Reply call) := fun env w =>
  (.ok (env w.log call), w.push (.asked call (env w.log call)))

def tell (event : I.Event) : Prog I σ ε Unit := fun _ w => (.ok (), w.push (.told event))

def get : Prog I σ ε σ := fun _ w => (.ok w.state, w)

def modify (f : σ → σ) : Prog I σ ε Unit := fun _ w => (.ok (), w.put (f w.state))

def fail (e : ε) : Prog I σ ε α := fun _ w => (.error e, w)

/-- The value, or the failure, of an answer. -/
def lift (r : Except ε α) : Prog I σ ε α := fun _ w => (r, w)

/-- A program's outcome, to go on from either way. -/
def attempt (p : Prog I σ ε α) : Prog I σ ε (Except ε α) := fun env w =>
  (.ok (p env w).1, (p env w).2)

@[simp] theorem lift_ok_bind {a : α} {f : α → Prog I σ ε β} :
    (lift (.ok a) >>= f : Prog I σ ε β) = f a := rfl

@[simp] theorem lift_error_bind {e : ε} {f : α → Prog I σ ε β} :
    (lift (.error e) >>= f : Prog I σ ε β) = fail e := rfl

theorem bind_assoc {γ : Type} (p : Prog I σ ε α) {f : α → Prog I σ ε β}
    {g : β → Prog I σ ε γ} : (p >>= f) >>= g = p >>= fun a => f a >>= g := by
  funext env w
  simp only [bind]
  rcases p env w with ⟨_ | _, _⟩ <;> rfl

/-! ## Weakest preconditions -/

section Wp

variable {env : Env I}

/-- Run here, a program succeeds with `Q` of its result and the world, or fails with `E`. -/
def wp (env : Env I) (p : Prog I σ ε α) (Q : α → World I σ → Prop) (E : ε → World I σ → Prop)
    (w : World I σ) : Prop :=
  match p env w with
  | (.ok a, w') => Q a w'
  | (.error e, w') => E e w'

variable {Q Q' : α → World I σ → Prop} {E E' : ε → World I σ → Prop} {w : World I σ}

theorem wp_of_eq_ok {p : Prog I σ ε α} {a : α} {w' : World I σ} (h : wp env p Q E w)
    (hp : p env w = (.ok a, w')) : Q a w' := by
  rw [wp, hp] at h
  exact h

theorem wp_of_eq_error {p : Prog I σ ε α} {e : ε} {w' : World I σ} (h : wp env p Q E w)
    (hp : p env w = (.error e, w')) : E e w' := by
  rw [wp, hp] at h
  exact h

/-- What holds however a program ends holds of the world it leaves. -/
theorem of_wp {p : Prog I σ ε α} {P : World I σ → Prop}
    (h : wp env p (fun _ => P) (fun _ => P) w) : P (p env w).2 := by
  unfold wp at h
  rcases hp : p env w with ⟨_ | _, w'⟩ <;> rw [hp] at h <;> exact h

@[simp] theorem wp_pure {a : α} : wp env (pure a) Q E w ↔ Q a w := Iff.rfl

@[simp] theorem wp_fail {e : ε} : wp env (fail e) Q E w ↔ E e w := Iff.rfl

@[simp] theorem wp_bind {p : Prog I σ ε β} {f : β → Prog I σ ε α} :
    wp env (p >>= f) Q E w ↔ wp env p (fun b w' => wp env (f b) Q E w') E w := by
  simp only [wp, bind]
  rcases p env w with ⟨_ | _, w'⟩ <;> exact Iff.rfl

@[simp] theorem wp_ask {call : I.Call} {Q : I.Reply call → World I σ → Prop} :
    wp env (ask call) Q E w ↔ Q (env w.log call) (w.push (.asked call (env w.log call))) := Iff.rfl

@[simp] theorem wp_tell {event : I.Event} {Q : Unit → World I σ → Prop} :
    wp env (tell event) Q E w ↔ Q () (w.push (.told event)) := Iff.rfl

@[simp] theorem wp_get {Q : σ → World I σ → Prop} : wp env get Q E w ↔ Q w.state w := Iff.rfl

@[simp] theorem wp_modify {f : σ → σ} {Q : Unit → World I σ → Prop} :
    wp env (modify f) Q E w ↔ Q () (w.put (f w.state)) := Iff.rfl

@[simp] theorem wp_lift_ok {a : α} : wp env (lift (.ok a)) Q E w ↔ Q a w := Iff.rfl

@[simp] theorem wp_lift_error {e : ε} : wp env (lift (.error e)) Q E w ↔ E e w := Iff.rfl

@[simp] theorem wp_attempt {p : Prog I σ ε α} {Q : Except ε α → World I σ → Prop} :
    wp env (attempt p) Q E w ↔
      wp env p (fun a w' => Q (.ok a) w') (fun e w' => Q (.error e) w') w := by
  simp only [wp, attempt]
  rcases p env w with ⟨_ | _, w'⟩ <;> exact Iff.rfl

theorem wp_mono {p : Prog I σ ε α} (h : wp env p Q E w) (hQ : ∀ a w', Q a w' → Q' a w')
    (hE : ∀ e w', E e w' → E' e w') : wp env p Q' E' w := by
  unfold wp at h ⊢
  rcases hp : p env w with ⟨e | a, w'⟩ <;> rw [hp] at h
  · exact hE e w' h
  · exact hQ a w' h

theorem wp_and {p : Prog I σ ε α} (h : wp env p Q E w) (h' : wp env p Q' E' w) :
    wp env p (fun a w' => Q a w' ∧ Q' a w') (fun e w' => E e w' ∧ E' e w') w := by
  unfold wp at h h' ⊢
  rcases hp : p env w with ⟨e | a, w'⟩ <;> rw [hp] at h h'
  · exact ⟨h, h'⟩
  · exact ⟨h, h'⟩

/-- Every result of a program is in `P`. -/
def Returns (P : α → Prop) (p : Prog I σ ε α) : Prop :=
  ∀ env w, wp env p (fun a _ => P a) (fun _ _ => True) w

theorem returns_pure {P : α → Prop} {a : α} (h : P a) : Returns P (pure a : Prog I σ ε α) :=
  fun _ _ => h

theorem returns_fail {P : α → Prop} {e : ε} : Returns P (fail e : Prog I σ ε α) :=
  fun _ _ => trivial

theorem returns_bind {P : α → Prop} {p : Prog I σ ε β} {f : β → Prog I σ ε α}
    (h : ∀ b, Returns P (f b)) : Returns P (p >>= f) := by
  intro env w
  rw [wp_bind]
  unfold wp
  rcases p env w with ⟨_ | b, w'⟩
  · trivial
  · exact h b env w'

/-- What the first part returns is what the second goes on with. -/
theorem Returns.bind {P : α → Prop} {P' : β → Prop} {p : Prog I σ ε β} {f : β → Prog I σ ε α}
    (hp : Returns P' p) (hf : ∀ b, P' b → Returns P (f b)) : Returns P (p >>= f) := by
  intro env w
  rw [wp_bind]
  exact wp_mono (hp env w) (fun b w' h => hf b h env w') fun _ _ h => h

theorem returns_foldlM {P : β → Prop} {body : β → α → Prog I σ ε β} (l : List α)
    (h : ∀ b, ∀ a ∈ l, P b → Returns P (body b a)) {b : β} (hb : P b) :
    Returns P (l.foldlM body b) := by
  induction l generalizing b with
  | nil => exact returns_pure hb
  | cons a l ih =>
    rw [List.foldlM_cons]
    exact (h b a (.head _) hb).bind fun b' hb' => ih (fun b c hc => h b c (.tail _ hc)) hb'

/-- A loop that carries a value: an invariant of the items done so far. -/
theorem wp_foldlM {body : β → α → Prog I σ ε β} {b : β} (l : List α)
    {inv : List α → β → World I σ → Prop} (start : inv [] b w)
    (step : ∀ done a rest b w, l = done ++ a :: rest → inv done b w →
      wp env (body b a) (inv (done ++ [a])) E w) :
    wp env (l.foldlM body b) (inv l) E w := by
  suffices h : ∀ rest done b w, l = done ++ rest → inv done b w →
      wp env (rest.foldlM body b) (inv l) E w from h l [] b w rfl start
  intro rest
  induction rest with
  | nil =>
    intro done b w hl h
    rw [List.append_nil] at hl
    subst hl
    exact h
  | cons a rest ih =>
    intro done b w hl h
    rw [List.foldlM_cons, wp_bind]
    refine wp_mono (step done a rest b w hl h) (fun b' w' h' => ?_) fun _ _ h' => h'
    exact ih (done ++ [a]) b' w' (by simp [hl]) h'

theorem wp_forM {body : α → Prog I σ ε PUnit} (l : List α) {inv : List α → World I σ → Prop}
    (start : inv [] w)
    (step : ∀ done a rest w, l = done ++ a :: rest → inv done w →
      wp env (body a) (fun _ => inv (done ++ [a])) E w) :
    wp env (l.forM body) (fun _ => inv l) E w := by
  suffices h : ∀ rest done w, l = done ++ rest → inv done w →
      wp env (rest.forM body) (fun _ => inv l) E w from h l [] w rfl start
  intro rest
  induction rest with
  | nil =>
    intro done w hl h
    rw [List.append_nil] at hl
    subst hl
    exact h
  | cons a rest ih =>
    intro done w hl h
    rw [List.forM, wp_bind]
    refine wp_mono (step done a rest w hl h) (fun _ w' h' => ?_) fun _ _ h' => h'
    exact ih (done ++ [a]) w' (by simp [hl]) h'

/-- Each item of a loop meets its condition in the world the loop has come to. -/
def EachMet (env : Env I) (body : α → Prog I σ ε PUnit) (C : α → World I σ → Prop) :
    List α → World I σ → Prop
  | [], _ => True
  | a :: l, w => C a w ∧ ∀ w', body a env w = (.ok ⟨⟩, w') → EachMet env body C l w'

theorem EachMet.cons {body : α → Prog I σ ε PUnit} {C : α → World I σ → Prop} {a : α} {l : List α}
    (ha : C a w) (h : EachMet env body C l (body a env w).2) : EachMet env body C (a :: l) w := by
  refine ⟨ha, fun w' hw => ?_⟩
  rw [hw] at h
  exact h

/-- A loop whose items meet their conditions, by an invariant of its worlds. -/
theorem wp_forM_met {body : α → Prog I σ ε PUnit} {C : α → World I σ → Prop}
    {inv : World I σ → Prop} {l : List α} (start : inv w)
    (step : ∀ a w, inv w → C a w → wp env (body a) (fun _ => inv) E w)
    (h : EachMet env body C l w) : wp env (l.forM body) (fun _ => inv) E w := by
  induction l generalizing w with
  | nil => exact start
  | cons a l ih =>
    obtain ⟨hC, hrest⟩ := h
    rw [List.forM, wp_bind]
    have hbody := step a w start hC
    unfold wp at hbody ⊢
    rcases hp : body a env w with ⟨e | ⟨⟩, w'⟩ <;> rw [hp] at hbody
    · exact hbody
    · exact ih hbody (hrest w' hp)

end Wp

/-! ## What every part of a program does -/

section Takes

variable {R E : World I σ → World I σ → Prop}

/-- What a program does to the world when it succeeds, `R`, and when it fails, `E`: both can be
nothing at all, and each part does one after the other. -/
class Framed (R E : World I σ → World I σ → Prop) : Prop where
  refl : ∀ w, R w w
  fails : ∀ w, E w w
  trans : ∀ {w₁ w₂ w₃}, R w₁ w₂ → R w₂ w₃ → R w₁ w₃
  after : ∀ {w₁ w₂ w₃}, R w₁ w₂ → E w₂ w₃ → E w₁ w₃

/-- Wherever it is run, a program that succeeds takes the world along `R`, and one that fails takes
it along `E`. -/
def Takes (R E : World I σ → World I σ → Prop) (p : Prog I σ ε α) : Prop :=
  ∀ env w, wp env p (fun _ w' => R w w') (fun _ w' => E w w') w

theorem Takes.mono {R' E' : World I σ → World I σ → Prop} {p : Prog I σ ε α} (h : Takes R E p)
    (hR : ∀ w w', R w w' → R' w w') (hE : ∀ w w', E w w' → E' w w') : Takes R' E' p :=
  fun env w => wp_mono (h env w) (fun _ w' => hR w w') fun _ w' => hE w w'

variable [Framed R E]

theorem takes_pure {a : α} : Takes R E (pure a : Prog I σ ε α) := fun _ w => Framed.refl E w

theorem takes_get : Takes R E (get : Prog I σ ε σ) := fun _ w => Framed.refl E w

theorem takes_fail {e : ε} : Takes R E (fail e : Prog I σ ε α) := fun _ w => Framed.fails R w

theorem Takes.bind {p : Prog I σ ε α} {f : α → Prog I σ ε β} (hp : Takes R E p)
    (hf : ∀ a, Takes R E (f a)) : Takes R E (p >>= f) := by
  intro env w
  rw [wp_bind]
  refine wp_mono (hp env w) (fun a w' h => ?_) fun _ _ h => h
  exact wp_mono (hf a env w') (fun _ _ h' => Framed.trans E h h') fun _ _ h' => Framed.after h h'

/-- A program that goes on knowing the state it is in. -/
theorem Takes.get_bind {f : σ → Prog I σ ε α} (h : ∀ s, Takes R E (f s)) :
    Takes R E (get >>= f) := takes_get.bind h

/-- What follows may rely on what every result of the first part is. -/
theorem Takes.bind_returns {P : α → Prop} {p : Prog I σ ε α} {f : α → Prog I σ ε β}
    (hp : Takes R E p) (hr : Returns P p) (hf : ∀ a, P a → Takes R E (f a)) :
    Takes R E (p >>= f) := by
  intro env w
  rw [wp_bind]
  refine wp_mono (wp_and (hp env w) (hr env w)) (fun a w' h => ?_) fun _ _ h => h.1
  exact wp_mono (hf a h.2 env w') (fun _ _ h' => Framed.trans E h.1 h')
    fun _ _ h' => Framed.after h.1 h'

/-- A call, and what is done with each answer: some may only fail the program. -/
theorem Takes.ask_bind {call : I.Call} {f : I.Reply call → Prog I σ ε α}
    (h : ∀ reply, ((∀ w, R w (w.push (.asked call reply))) ∧ Takes R E (f reply)) ∨
      ∃ e, f reply = fail e ∧ ∀ w, E w (w.push (.asked call reply))) :
    Takes R E (ask call >>= f) := by
  intro env w
  rw [wp_bind, wp_ask]
  rcases h (env w.log call) with ⟨hR, hf⟩ | ⟨e, hf, hE⟩
  · exact wp_mono (hf env _) (fun _ _ h' => Framed.trans E (hR w) h')
      fun _ _ h' => Framed.after (hR w) h'
  · rw [hf]
    exact hE w

theorem takes_foldlM {body : β → α → Prog I σ ε β} (l : List α)
    (h : ∀ b, ∀ a ∈ l, Takes R E (body b a)) (b : β) : Takes R E (l.foldlM body b) := by
  induction l generalizing b with
  | nil => exact takes_pure
  | cons a l ih =>
    rw [List.foldlM_cons]
    exact (h b a (.head _)).bind fun b' => ih (fun b c hc => h b c (.tail _ hc)) b'

theorem takes_forM {body : α → Prog I σ ε PUnit} (l : List α)
    (h : ∀ a ∈ l, Takes R E (body a)) : Takes R E (l.forM body) := by
  induction l with
  | nil => exact takes_pure
  | cons a l ih =>
    rw [List.forM]
    exact (h a (.head _)).bind fun _ => ih fun c hc => h c (.tail _ hc)

end Takes

/-! ## What every part of a program accounts for -/

section Spends

variable {γ : Type} {R E : List γ → World I σ → World I σ → Prop} {l l' : List γ}

/-- What a program does to the world when it spends a list of items: all of them when it succeeds,
some of them when it fails. -/
class Graded (R E : List γ → World I σ → World I σ → Prop) : Prop where
  refl : ∀ w, R [] w w
  fails : ∀ {l w w'}, R l w w' → E l w w'
  trans : ∀ {l l' w₁ w₂ w₃}, R l w₁ w₂ → R l' w₂ w₃ → R (l ++ l') w₁ w₃
  after : ∀ {l l' w₁ w₂ w₃}, R l w₁ w₂ → E l' w₂ w₃ → E (l ++ l') w₁ w₃
  pad : ∀ {l w w'} (l'), E l w w' → E (l ++ l') w w'

/-- Wherever it is run, a program spends the list. -/
def Spends (R E : List γ → World I σ → World I σ → Prop) (l : List γ) (p : Prog I σ ε α) : Prop :=
  ∀ env w, wp env p (fun _ w' => R l w w') (fun _ w' => E l w w') w

variable [Graded R E]

theorem spends_pure {a : α} : Spends R E [] (pure a : Prog I σ ε α) :=
  fun _ w => Graded.refl E w

theorem spends_get : Spends R E [] (get : Prog I σ ε σ) := fun _ w => Graded.refl E w

/-- A program that fails at once may owe anything. -/
theorem spends_fail {e : ε} : Spends R E l (fail e : Prog I σ ε α) :=
  fun _ w => Graded.pad R l (Graded.fails (Graded.refl E w : R [] w w))

theorem Spends.bind {p : Prog I σ ε α} {f : α → Prog I σ ε β} (hp : Spends R E l p)
    (hf : ∀ a, Spends R E l' (f a)) : Spends R E (l ++ l') (p >>= f) := by
  intro env w
  rw [wp_bind]
  refine wp_mono (hp env w) (fun a w' h => ?_) fun _ _ h => Graded.pad R l' h
  exact wp_mono (hf a env w') (fun _ _ h' => Graded.trans E h h') fun _ _ h' => Graded.after h h'

/-- A part that spends nothing, and what follows it. -/
theorem Spends.then {p : Prog I σ ε α} {f : α → Prog I σ ε β} (hp : Spends R E [] p)
    (hf : ∀ a, Spends R E l (f a)) : Spends R E l (p >>= f) := hp.bind hf

/-- A part after which nothing is spent. -/
theorem Spends.last {p : Prog I σ ε α} {f : α → Prog I σ ε β} (hp : Spends R E l p)
    (hf : ∀ a, Spends R E [] (f a)) : Spends R E l (p >>= f) := by
  have := hp.bind hf
  rwa [List.append_nil] at this

/-- What follows may rely on what every result of the first part is. -/
theorem Spends.bind_returns {P : α → Prop} {p : Prog I σ ε α} {f : α → Prog I σ ε β}
    (hp : Spends R E l p) (hr : Returns P p) (hf : ∀ a, P a → Spends R E l' (f a)) :
    Spends R E (l ++ l') (p >>= f) := by
  intro env w
  rw [wp_bind]
  refine wp_mono (wp_and (hp env w) (hr env w)) (fun a w' h => ?_) fun _ _ h => Graded.pad R l' h.1
  exact wp_mono (hf a h.2 env w') (fun _ _ h' => Graded.trans E h.1 h')
    fun _ _ h' => Graded.after h.1 h'

/-- A part that spends nothing, and what follows each of its results. -/
theorem Spends.then_returns {P : α → Prop} {p : Prog I σ ε α} {f : α → Prog I σ ε β}
    (hp : Spends R E [] p) (hr : Returns P p) (hf : ∀ a, P a → Spends R E l (f a)) :
    Spends R E l (p >>= f) := hp.bind_returns hr hf

theorem spends_foldlM {cost : α → List γ} {body : β → α → Prog I σ ε β} (items : List α)
    (h : ∀ b, ∀ a ∈ items, Spends R E (cost a) (body b a)) (b : β) :
    Spends R E (items.flatMap cost) (items.foldlM body b) := by
  induction items generalizing b with
  | nil => exact spends_pure
  | cons a items ih =>
    rw [List.foldlM_cons, List.flatMap_cons]
    exact (h b a (.head _)).bind fun b' => ih (fun b c hc => h b c (.tail _ hc)) b'

theorem spends_forM {cost : α → List γ} {body : α → Prog I σ ε PUnit} (items : List α)
    (h : ∀ a ∈ items, Spends R E (cost a) (body a)) :
    Spends R E (items.flatMap cost) (items.forM body) := by
  induction items with
  | nil => exact spends_pure
  | cons a items ih =>
    rw [List.forM, List.flatMap_cons]
    exact (h a (.head _)).bind fun _ => ih fun c hc => h c (.tail _ hc)

/-- A loop that spends nothing. -/
theorem spends_forM_nil {body : α → Prog I σ ε PUnit} (items : List α)
    (h : ∀ a ∈ items, Spends R E [] (body a)) : Spends R E [] (items.forM body) := by
  have hall : Spends R E (items.flatMap fun _ => []) (items.forM body) := spends_forM items h
  rwa [List.flatMap_eq_nil_iff.mpr fun _ _ => rfl] at hall

end Spends
end Prog
end DriveSync
