import DriveSync.Lib.Descend

/-!
# DriveSync.Lib.Appends

What a program adds to the log, whatever stood there before: a relation between the entries it adds
and its result, and one between the entries and its failure.

* `Appends`: the two relations, with a rule for each way to build a program.
* `Appends.bind`: of two parts in sequence, the entries of the first stand before those of the second.
* `appends_descend`: a loop, by an invariant of its states and of the entries added so far.
-/

namespace DriveSync
namespace Prog

variable {I : Interface} {σ ε α β : Type}

/-- Wherever it is run, a program adds entries that are in `Q` with its result, or in `E` with its
failure. -/
def Appends (Q : List (Entry I) → α → Prop) (E : List (Entry I) → ε → Prop) (p : Prog I σ ε α) :
    Prop :=
  ∀ env w, wp env p (fun a w' => ∃ l, w'.log = w.log ++ l ∧ Q l a)
    (fun e w' => ∃ l, w'.log = w.log ++ l ∧ E l e) w

variable {Q Q' : List (Entry I) → α → Prop} {E E' : List (Entry I) → ε → Prop}

theorem Appends.mono {p : Prog I σ ε α} (h : Appends Q E p) (hQ : ∀ l a, Q l a → Q' l a)
    (hE : ∀ l e, E l e → E' l e) : Appends Q' E' p := by
  intro env w
  refine wp_mono (h env w) ?_ ?_
  · rintro a w' ⟨l, hl, ha⟩
    exact ⟨l, hl, hQ l a ha⟩
  · rintro e w' ⟨l, hl, he⟩
    exact ⟨l, hl, hE l e he⟩

/-- One run of a program, with what it added. -/
theorem Appends.run {p : Prog I σ ε α} (h : Appends Q E p) (env : Env I) (w : World I σ) :
    ∃ l, (p env w).2.log = w.log ++ l ∧ (∀ a, (p env w).1 = .ok a → Q l a) ∧
      ∀ e, (p env w).1 = .error e → E l e := by
  have hrun := h env w
  unfold wp at hrun
  rcases hp : p env w with ⟨e | a, w'⟩ <;> rw [hp] at hrun <;> obtain ⟨l, hl, hr⟩ := hrun
  · exact ⟨l, hl, fun a ha => (by cases ha), fun e' he' => Except.error.inj he' ▸ hr⟩
  · exact ⟨l, hl, fun a' ha' => Except.ok.inj ha' ▸ hr, fun e he => (by cases he)⟩

/-- What two relations say of one run, both say of the same entries. -/
theorem Appends.and {p : Prog I σ ε α} (h : Appends Q E p) (h' : Appends Q' E' p) :
    Appends (fun l a => Q l a ∧ Q' l a) (fun l e => E l e ∧ E' l e) p := by
  intro env w
  refine wp_mono (wp_and (h env w) (h' env w)) ?_ ?_
  · rintro a w' ⟨⟨l, hl, ha⟩, l', hl', ha'⟩
    obtain rfl := List.append_cancel_left (hl.symm.trans hl')
    exact ⟨l, hl, ha, ha'⟩
  · rintro e w' ⟨⟨l, hl, he⟩, l', hl', he'⟩
    obtain rfl := List.append_cancel_left (hl.symm.trans hl')
    exact ⟨l, hl, he, he'⟩

theorem appends_pure {a : α} (h : Q [] a) : Appends Q E (pure a : Prog I σ ε α) :=
  fun _ _ => ⟨[], (List.append_nil _).symm, h⟩

theorem appends_fail {e : ε} (h : E [] e) : Appends Q E (fail e : Prog I σ ε α) :=
  fun _ _ => ⟨[], (List.append_nil _).symm, h⟩

theorem appends_lift {r : Except ε α} (hok : ∀ a, r = .ok a → Q [] a)
    (herror : ∀ e, r = .error e → E [] e) : Appends Q E (lift r : Prog I σ ε α) := by
  cases r with
  | ok a => exact appends_pure (hok a rfl)
  | error e => exact appends_fail (herror e rfl)

theorem appends_ask {call : I.Call} {Q : List (Entry I) → I.Reply call → Prop}
    (h : ∀ reply, Q [.asked call reply] reply) : Appends Q E (ask call : Prog I σ ε _) :=
  fun _ _ => ⟨_, rfl, h _⟩

theorem appends_attempt {p : Prog I σ ε α} {Q : List (Entry I) → Except ε α → Prop}
    (h : Appends (fun l a => Q l (.ok a)) (fun l e => Q l (.error e)) p) : Appends Q E (attempt p) := by
  intro env w
  rw [wp_attempt]
  exact h env w

/-- Two parts in sequence. -/
theorem Appends.bind {P : List (Entry I) → β → Prop} {p : Prog I σ ε β} {f : β → Prog I σ ε α}
    (hp : Appends P E p) (hf : ∀ l b, P l b →
      Appends (fun l' a => Q (l ++ l') a) (fun l' e => E (l ++ l') e) (f b)) :
    Appends Q E (p >>= f) := by
  intro env w
  rw [wp_bind]
  refine wp_mono (hp env w) ?_ fun _ _ h => h
  rintro b w' ⟨l, hl, hb⟩
  refine wp_mono (hf l b hb env w') ?_ ?_
  · rintro a w'' ⟨l', hl', ha⟩
    exact ⟨l ++ l', by rw [hl', hl, List.append_assoc], ha⟩
  · rintro e w'' ⟨l', hl', he⟩
    exact ⟨l ++ l', by rw [hl', hl, List.append_assoc], he⟩

/-- A call, and what is done with its answer. -/
theorem appends_ask_bind {call : I.Call} {f : I.Reply call → Prog I σ ε α}
    (h : ∀ reply, Appends (fun l a => Q (.asked call reply :: l) a)
      (fun l e => E (.asked call reply :: l) e) (f reply)) : Appends Q E (ask call >>= f) := by
  refine Appends.bind (P := fun l reply => l = [.asked call reply]) ?_ ?_
  · exact appends_ask fun _ => rfl
  · rintro _ reply rfl
    exact h reply

theorem appends_get_bind {f : σ → Prog I σ ε α} (h : ∀ s, Appends Q E (f s)) :
    Appends Q E (get >>= f) := by
  intro env w
  rw [wp_bind, wp_get]
  exact h _ env w

theorem appends_modify_bind {g : σ → σ} {f : Unit → Prog I σ ε α} (h : Appends Q E (f ())) :
    Appends Q E (modify g >>= f) := by
  intro env w
  rw [wp_bind, wp_modify]
  exact h env _

/-- What every step keeps of the states and of the entries added so far, and the last one turns
into what is asked of the result. -/
theorem appends_descend {τ : Type} {measure : τ → Nat}
    {body : (t : τ) → Prog I σ ε (Descent measure α t)} {J : τ → List (Entry I) → Prop}
    (step : ∀ t l, J t l → Appends
      (fun l' r => (∀ a, r = .inl a → Q (l ++ l') a) ∧ ∀ t', r = .inr t' → J t'.1 (l ++ l'))
      (fun l' e => E (l ++ l') e) (body t))
    {t : τ} (start : J t []) : Appends Q E (descend body t) := by
  intro env w
  refine wp_descend (J := fun t w' => ∃ l, w'.log = w.log ++ l ∧ J t l) ?_
    ⟨[], (List.append_nil _).symm, start⟩
  rintro t w' ⟨l, hl, ht⟩
  refine wp_mono (step t l ht env w') ?_ ?_
  · rintro r w'' ⟨l', hl', hr⟩
    have hlog : w''.log = w.log ++ (l ++ l') := by rw [hl', hl, List.append_assoc]
    exact ⟨fun a ha => ⟨_, hlog, hr.1 a ha⟩, fun t' ht' => ⟨_, hlog, hr.2 t' ht'⟩⟩
  · rintro e w'' ⟨l', hl', he⟩
    exact ⟨_, by rw [hl', hl, List.append_assoc], he⟩

end Prog
end DriveSync
