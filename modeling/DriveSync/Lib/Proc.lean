import Mathlib.Logic.Function.Basic
import Mathlib.Logic.Relation
import Mathlib.Tactic.Common

/-!
# DriveSync.Lib.Proc

Programs of several processes on one store, their calls interleaved in any order, any of them cut
off at any call.

* `Proc`: a program, finished or about to make a call and go on with its reply.
* `Keeps`: whatever the others do between its calls (`rely`), every call a program makes keeps the
  invariant and is something the others can rely on, and the program ends as asked.
* `Triple`: the same from every store where `P` holds, with a rule for each way to build a program.
* `System`: the store and the programs that run on it. `System.Reaches.kept`: where every program is
  one that keeps the invariant when it is started, it holds of every store a run comes to.
* `Proc.runWith`: one run of one program, each call answered by a function. It is a run of the system
  where that function's answers are possible (`System.Reaches.runWith`).
-/

namespace DriveSync

/-- What programs can call, and what each call is answered. -/
structure Signature where
  Call : Type
  Reply : Call → Type

inductive Proc (S : Signature) (ε α : Type) where
  | done (result : Except ε α)
  | call (c : S.Call) (next : S.Reply c → Proc S ε α)

namespace Proc

variable {S : Signature} {ε α β : Type}

def bind : Proc S ε α → (α → Proc S ε β) → Proc S ε β
  | done (.ok a), f => f a
  | done (.error e), _ => done (.error e)
  | call c next, f => call c fun reply => (next reply).bind f

instance : Monad (Proc S ε) where
  pure a := done (.ok a)
  bind := Proc.bind

/-- A call whose reply is its result. -/
def ask (c : S.Call) : Proc S ε (S.Reply c) := call c fun reply => done (.ok reply)

def fail (e : ε) : Proc S ε α := done (.error e)

def lift (r : Except ε α) : Proc S ε α := done r

/-- A program's outcome, to go on from either way. -/
def attempt : Proc S ε α → Proc S ε (Except ε α)
  | done r => done (.ok r)
  | call c next => call c fun reply => (next reply).attempt

theorem ask_bind {c : S.Call} {f : S.Reply c → Proc S ε α} :
    (ask c >>= f : Proc S ε α) = call c f := rfl

theorem bind_assoc {γ : Type} (p : Proc S ε α) {f : α → Proc S ε β} {g : β → Proc S ε γ} :
    (p >>= f) >>= g = p >>= fun a => f a >>= g := by
  induction p with
  | done r => cases r <;> rfl
  | call c next ih => exact congrArg (call c) (funext fun reply => ih reply)

/-! ## What a program keeps -/

section Keeps

variable {σ ι : Type}

/-- What calls do, the invariant, and what each process can rely on of the others. -/
structure Contract (S : Signature) (σ ι : Type) where
  act : ι → (c : S.Call) → σ → S.Reply c → σ → Prop
  inv : σ → Prop
  rely : ι → σ → σ → Prop
  refl : ∀ i s, rely i s s
  trans : ∀ {i s₁ s₂ s₃}, rely i s₁ s₂ → rely i s₂ s₃ → rely i s₁ s₃

variable (K : Contract S σ ι) (i : ι)

/-- Whatever the others do from here on, the program keeps the invariant and what the others rely on,
and ends in `Q`. -/
def Keeps (Q : Except ε α → σ → Prop) : Proc S ε α → σ → Prop
  | .done r, s => ∀ s', K.rely i s s' → K.inv s' → Q r s'
  | .call c next, s => ∀ s', K.rely i s s' → K.inv s' → ∀ reply s'', K.act i c s' reply s'' →
      ((∀ j, j ≠ i → K.rely j s' s'') ∧ K.inv s'') ∧ Keeps Q (next reply) s''

variable {K i}
variable {Q Q' : Except ε α → σ → Prop} {s s' : σ}

/-- What the others do takes nothing away. -/
theorem Keeps.stable {p : Proc S ε α} (h : Keeps K i Q p s) (hrely : K.rely i s s') :
    Keeps K i Q p s' := by
  cases p with
  | done r => exact fun s'' hr hinv => h s'' (K.trans hrely hr) hinv
  | call c next => exact fun s'' hr hinv => h s'' (K.trans hrely hr) hinv

/-- It is enough to keep it from the stores the others may leave, and of those the invariant's. -/
theorem keeps_of_rely {p : Proc S ε α}
    (h : ∀ s', K.rely i s s' → K.inv s' → Keeps K i Q p s') : Keeps K i Q p s := by
  cases p with
  | done r => exact fun s' hr hinv => h s' hr hinv s' (K.refl i s') hinv
  | call c next => exact fun s' hr hinv => h s' hr hinv s' (K.refl i s') hinv

theorem Keeps.mono {p : Proc S ε α} (h : Keeps K i Q p s) (hQ : ∀ r s', Q r s' → Q' r s') :
    Keeps K i Q' p s := by
  induction p generalizing s with
  | done r => exact fun s' hr hinv => hQ r s' (h s' hr hinv)
  | call c next ih =>
    intro s' hr hinv reply s'' hact
    exact ⟨(h s' hr hinv reply s'' hact).1, ih reply (h s' hr hinv reply s'' hact).2⟩

theorem Keeps.bind {p : Proc S ε α} {f : α → Proc S ε β} {R : Except ε β → σ → Prop}
    (h : Keeps K i Q p s) (hok : ∀ a s', K.inv s' → Q (.ok a) s' → Keeps K i R (f a) s')
    (herror : ∀ e s', K.inv s' → Q (.error e) s' → R (.error e) s') :
    Keeps K i R (p >>= f) s := by
  induction p generalizing s with
  | done r =>
    cases r with
    | ok a => exact keeps_of_rely fun s' hr hinv => hok a s' hinv (h s' hr hinv)
    | error e => exact fun s' hr hinv => herror e s' hinv (h s' hr hinv)
  | call c next ih =>
    intro s' hr hinv reply s'' hact
    exact ⟨(h s' hr hinv reply s'' hact).1, ih reply (h s' hr hinv reply s'' hact).2⟩

theorem Keeps.attempt {p : Proc S ε α} {R : Except ε (Except ε α) → σ → Prop}
    (h : Keeps K i Q p s) (hR : ∀ r s', Q r s' → R (.ok r) s') : Keeps K i R p.attempt s := by
  induction p generalizing s with
  | done r => exact fun s' hr hinv => hR r s' (h s' hr hinv)
  | call c next ih =>
    intro s' hr hinv reply s'' hact
    exact ⟨(h s' hr hinv reply s'' hact).1, ih reply (h s' hr hinv reply s'' hact).2⟩

/-- What neither the others nor the program's own calls take away it ends with. -/
theorem Keeps.frame {p : Proc S ε α} {R : σ → Prop}
    (hrely : ∀ s s', R s → K.rely i s s' → K.inv s' → R s')
    (hact : ∀ c s reply s', K.act i c s reply s' → R s → R s') (h : Keeps K i Q p s) (hs : R s) :
    Keeps K i (fun r s => Q r s ∧ R s) p s := by
  induction p generalizing s with
  | done r => exact fun s' hr hinv => ⟨h s' hr hinv, hrely s s' hs hr hinv⟩
  | call c next ih =>
    intro s' hr hinv reply s'' hstep
    obtain ⟨hkept, hnext⟩ := h s' hr hinv reply s'' hstep
    exact ⟨hkept, ih reply hnext (hact c s' reply s'' hstep (hrely s s' hs hr hinv))⟩

/-! ### Triples -/

/-- What holds of a result and of a failure. -/
def post (Q : α → σ → Prop) (E : ε → σ → Prop) : Except ε α → σ → Prop
  | .ok a, s => Q a s
  | .error e, s => E e s

variable (K i) in
/-- Where `P` holds the program keeps the contract and ends in `Q`, or fails in `E`. -/
def Triple (P : σ → Prop) (p : Proc S ε α) (Q : α → σ → Prop) (E : ε → σ → Prop) : Prop :=
  ∀ s, K.inv s → P s → Keeps K i (post Q E) p s

variable (K i) in
/-- What the others cannot take away. -/
def Stable (P : σ → Prop) : Prop := ∀ s s', P s → K.rely i s s' → K.inv s' → P s'

variable {P P' : σ → Prop} {Q₁ Q₁' : α → σ → Prop} {R : β → σ → Prop} {E E' : ε → σ → Prop}

theorem Stable.and (h : Stable K i P) (h' : Stable K i P') : Stable K i fun s => P s ∧ P' s :=
  fun s s' hs hrely hinv => ⟨h s s' hs.1 hrely hinv, h' s s' hs.2 hrely hinv⟩

theorem Stable.const {p : Prop} : Stable K i fun _ => p := fun _ _ h _ _ => h

theorem Stable.imp {p : Prop} (h : Stable K i P) : Stable K i fun s => p → P s :=
  fun s s' hs hrely hinv hp => h s s' (hs hp) hrely hinv

theorem Triple.weaken {p : Proc S ε α} (h : Triple K i P p Q₁ E) (hP : ∀ s, K.inv s → P' s → P s)
    (hQ : ∀ a s, Q₁ a s → Q₁' a s) (hE : ∀ e s, E e s → E' e s) : Triple K i P' p Q₁' E' :=
  fun s hinv hs => (h s hinv (hP s hinv hs)).mono fun r s' hr => by
    cases r with
    | ok a => exact hQ a s' hr
    | error e => exact hE e s' hr

theorem Triple.pre {p : Proc S ε α} (h : Triple K i P p Q₁ E) (hP : ∀ s, K.inv s → P' s → P s) :
    Triple K i P' p Q₁ E := h.weaken hP (fun _ _ h => h) fun _ _ h => h

theorem Triple.result {p : Proc S ε α} (h : Triple K i P p Q₁ E) (hQ : ∀ a s, Q₁ a s → Q₁' a s) :
    Triple K i P p Q₁' E := h.weaken (fun _ _ h => h) hQ fun _ _ h => h

/-- What holds whatever the store may be assumed. -/
theorem Triple.assuming {p : Prop} {prog : Proc S ε α} (h : p → Triple K i P prog Q₁ E) :
    Triple K i (fun s => P s ∧ p) prog Q₁ E := fun s hinv hs => h hs.2 s hinv hs.1

/-- What holds of every value of a parameter the store determines. -/
theorem Triple.exists {γ : Type} {p : Proc S ε α} {P : γ → σ → Prop}
    (h : ∀ c, Triple K i (P c) p Q₁ E) : Triple K i (fun s => ∃ c, P c s) p Q₁ E :=
  fun s hinv ⟨c, hs⟩ => h c s hinv hs

theorem Triple.frame {p : Proc S ε α} {R : σ → Prop} (h : Triple K i P p Q₁ E)
    (hR : Stable K i R) (hact : ∀ c s reply s', K.act i c s reply s' → R s → R s') :
    Triple K i (fun s => P s ∧ R s) p (fun a s => Q₁ a s ∧ R s) fun e s => E e s ∧ R s :=
  fun s hinv hs => ((h s hinv hs.1).frame hR hact hs.2).mono fun r _ hr => by
    cases r <;> exact hr

theorem triple_pure {a : α} (hP : Stable K i P) (h : ∀ s, K.inv s → P s → Q₁ a s) :
    Triple K i P (pure a) Q₁ E :=
  fun s _ hs s' hrely hinv' => h s' hinv' (hP s s' hs hrely hinv')

theorem triple_fail {e : ε} (hP : Stable K i P) (h : ∀ s, K.inv s → P s → E e s) :
    Triple K i P (Proc.fail e) Q₁ E :=
  fun s _ hs s' hrely hinv' => h s' hinv' (hP s s' hs hrely hinv')

theorem Triple.bind {p : Proc S ε α} {f : α → Proc S ε β} (h : Triple K i P p Q₁ E)
    (hf : ∀ a, Triple K i (Q₁ a) (f a) R E) : Triple K i P (p >>= f) R E :=
  fun s hinv hs => (h s hinv hs).bind (fun a s' hinv' ha => hf a s' hinv' ha) fun _ _ _ he => he

/-- A value that may be a failure. -/
theorem triple_lift {r : Except ε α} (hP : Stable K i P)
    (hok : ∀ a, r = .ok a → ∀ s, K.inv s → P s → Q₁ a s)
    (herror : ∀ e, r = .error e → ∀ s, K.inv s → P s → E e s) : Triple K i P (lift r) Q₁ E := by
  cases r with
  | ok a => exact triple_pure hP (hok a rfl)
  | error e => exact triple_fail hP (herror e rfl)

/-- One call, with what is made of its reply. -/
theorem triple_call {c : S.Call} {result : S.Reply c → Except ε α} (hP : Stable K i P)
    (h : ∀ s reply s', K.inv s → P s → K.act i c s reply s' →
      ((∀ j, j ≠ i → K.rely j s s') ∧ K.inv s') ∧ post Q₁ E (result reply) s')
    (hQ : ∀ a, Stable K i (Q₁ a)) (hE : ∀ e, Stable K i (E e)) :
    Triple K i P (.call c fun reply => .done (result reply)) Q₁ E := by
  intro s _ hs s' hrely hinv' reply s'' hact
  obtain ⟨hkept, hpost⟩ := h s' reply s'' hinv' (hP s s' hs hrely hinv') hact
  refine ⟨hkept, fun s₃ hrely' hinv₃ => ?_⟩
  cases hr : result reply with
  | ok a =>
    rw [hr] at hpost
    exact hQ a s'' s₃ hpost hrely' hinv₃
  | error e =>
    rw [hr] at hpost
    exact hE e s'' s₃ hpost hrely' hinv₃

/-- A program that is gone on from either way. -/
theorem Triple.attempt {p : Proc S ε α} (h : Triple K i P p Q₁ E) {F : ε → σ → Prop} :
    Triple K i P p.attempt (post Q₁ E) F :=
  fun s hinv hs => (h s hinv hs).attempt fun _ _ hr => hr

/-- A loop, by an invariant of its stores. -/
theorem triple_foldlM {body : β → α → Proc S ε β} {J : β → σ → Prop} (l : List α)
    (hJ : ∀ b, Stable K i (J b)) (h : ∀ b, ∀ a ∈ l, Triple K i (J b) (body b a) J E) (b : β) :
    Triple K i (J b) (l.foldlM body b) J E := by
  induction l generalizing b with
  | nil => exact triple_pure (hJ b) fun _ _ hs => hs
  | cons a l ih =>
    rw [List.foldlM_cons]
    exact (h b a (.head _)).bind fun b' => ih (fun b c hc => h b c (.tail _ hc)) b'

end Keeps
end Proc

/-! ## Runs -/

section Runs

open Proc (Contract Keeps)

variable {S : Signature} {ε α σ ι : Type} [DecidableEq ι]

/-- The store, and what runs on it. -/
structure System (S : Signature) (ε α σ ι : Type) where
  store : σ
  procs : ι → Option (Proc S ε α)

/-- What happens apart from calls: which programs are started, how a process is cut off or ends, and
what else changes the store. -/
structure Surroundings (S : Signature) (ε α σ ι : Type) where
  starts : ι → Proc S ε α → σ → σ → Prop
  ends : ι → σ → σ → Prop
  others : σ → σ → Prop

variable (act : ι → (c : S.Call) → σ → S.Reply c → σ → Prop) (around : Surroundings S ε α σ ι)

inductive System.Step (sys : System S ε α σ ι) : System S ε α σ ι → Prop where
  | start (i : ι) (p : Proc S ε α) (s : σ) (h : sys.procs i = none)
    (hs : around.starts i p sys.store s) :
    Step sys ⟨s, Function.update sys.procs i (some p)⟩
  | call (i : ι) (c : S.Call) (next : S.Reply c → Proc S ε α) (reply : S.Reply c) (s : σ)
    (h : sys.procs i = some (.call c next)) (hs : act i c sys.store reply s) :
    Step sys ⟨s, Function.update sys.procs i (some (next reply))⟩
  | stop (i : ι) (p : Proc S ε α) (s : σ) (h : sys.procs i = some p)
    (hs : around.ends i sys.store s) : Step sys ⟨s, Function.update sys.procs i none⟩
  | other (s : σ) (hs : around.others sys.store s) : Step sys ⟨s, sys.procs⟩

/-- A run of any number of steps. -/
abbrev System.Reaches : System S ε α σ ι → System S ε α σ ι → Prop :=
  Relation.ReflTransGen (System.Step act around)

/-- What is started keeps the invariant, and what else happens does. -/
structure Proc.Contract.Admits (K : Contract S σ ι) (around : Surroundings S ε α σ ι)
    (Q : ι → Except ε α → σ → Prop) : Prop where
  starts : ∀ {i p s s'}, around.starts i p s s' → K.inv s →
    ((∀ j, j ≠ i → K.rely j s s') ∧ K.inv s') ∧ Keeps K i (Q i) p s'
  ends : ∀ {i s s'}, around.ends i s s' → K.inv s → (∀ j, j ≠ i → K.rely j s s') ∧ K.inv s'
  others : ∀ {s s'}, around.others s s' → K.inv s → (∀ j, K.rely j s s') ∧ K.inv s'

/-- The invariant, and every program on its way. -/
structure System.Kept (K : Contract S σ ι) (Q : ι → Except ε α → σ → Prop)
    (sys : System S ε α σ ι) : Prop where
  inv : K.inv sys.store
  procs : ∀ {i p}, sys.procs i = some p → Keeps K i (Q i) p sys.store

variable {K : Contract S σ ι} {Q : ι → Except ε α → σ → Prop} {around}
  {sys sys' : System S ε α σ ι}

/-- The others' programs are still on their way after a step of one. -/
theorem System.Kept.others (h : sys.Kept K Q) {i : ι} {s : σ}
    (hrely : ∀ j, j ≠ i → K.rely j sys.store s) {q : Option (Proc S ε α)}
    (hq : ∀ p, q = some p → Keeps K i (Q i) p s) {j : ι} {p : Proc S ε α}
    (hp : Function.update sys.procs i q j = some p) : Keeps K j (Q j) p s := by
  by_cases hj : j = i
  · subst hj
    rw [Function.update_self] at hp
    exact hq p hp
  · rw [Function.update_of_ne hj] at hp
    exact (h.procs hp).stable (hrely j hj)

theorem System.Kept.step (hK : K.Admits around Q) (h : sys.Kept K Q)
    (hstep : System.Step K.act around sys sys') : sys'.Kept K Q := by
  cases hstep with
  | start i p s hi hs =>
    obtain ⟨⟨hrely, hinv⟩, hp⟩ := hK.starts hs h.inv
    exact ⟨hinv, h.others hrely fun _ hq => Option.some.inj hq ▸ hp⟩
  | call i c next reply s hi hs =>
    obtain ⟨⟨hrely, hinv⟩, hp⟩ := h.procs hi sys.store (K.refl i _) h.inv reply s hs
    exact ⟨hinv, h.others hrely fun _ hq => Option.some.inj hq ▸ hp⟩
  | stop i p s hi hs =>
    obtain ⟨hrely, hinv⟩ := hK.ends hs h.inv
    exact ⟨hinv, h.others hrely fun _ hq => by cases hq⟩
  | other s hs =>
    obtain ⟨hrely, hinv⟩ := hK.others hs h.inv
    exact ⟨hinv, fun hp => (h.procs hp).stable (hrely _)⟩

theorem System.Reaches.kept (hK : K.Admits around Q)
    (hrun : System.Reaches K.act around sys sys') (h : sys.Kept K Q) : sys'.Kept K Q := by
  induction hrun with
  | refl => exact h
  | tail _ hstep ih => exact ih.step hK hstep

/-! ## One run of one program -/

/-- The program run on its own for at most so many calls, each answered by a function of the store. -/
def Proc.runWith (answer : (c : S.Call) → σ → S.Reply c × σ) : Nat → Proc S ε α → σ →
    Proc S ε α × σ
  | 0, p, s => (p, s)
  | _ + 1, .done r, s => (.done r, s)
  | n + 1, .call c next, s => runWith answer n (next (answer c s).1) (answer c s).2

theorem System.Reaches.runWith {answer : (c : S.Call) → σ → S.Reply c × σ} {i : ι}
    (hanswer : ∀ c s, act i c s (answer c s).1 (answer c s).2) (n : Nat) {p : Proc S ε α}
    (h : sys.procs i = some p) :
    System.Reaches act around sys
      ⟨(p.runWith answer n sys.store).2,
        Function.update sys.procs i (some (p.runWith answer n sys.store).1)⟩ := by
  induction n generalizing sys p with
  | zero =>
    have : Function.update sys.procs i (some p) = sys.procs := by
      rw [← h, Function.update_eq_self]
    rw [Proc.runWith, this]
  | succ n ih =>
    cases p with
    | done r =>
      have : Function.update sys.procs i (some (.done r)) = sys.procs := by
        rw [← h, Function.update_eq_self]
      rw [Proc.runWith, this]
    | call c next =>
      refine .head (.call i c next _ _ h (hanswer c sys.store)) ?_
      have := @ih ⟨(answer c sys.store).2,
        Function.update sys.procs i (some (next (answer c sys.store).1))⟩
        (next (answer c sys.store).1) (Function.update_self ..)
      rwa [Function.update_idem] at this

end Runs
end DriveSync
