import Mathlib.Logic.Basic

/-!
# Sequences of steps that may fail

A program of steps on a state `σ`, any of which may fail: `faults` says of the steps to
come which do. A step that fails has no effect, what the steps before it did stays, unless
they are one transaction.

`Holds P p Q E` is a rule of pre- and postconditions for such programs, with `E` for the
states a failure leaves, whatever the faults.
-/
namespace Tarit.Lib

variable {ε α β : Type} {a : α} {f : α → Except ε β}

theorem bind_eq_ok {x : Except ε α} {f : α → Except ε β} {r : β} :
    (x >>= f) = .ok r ↔ ∃ a, x = .ok a ∧ f a = .ok r := by
  cases x with
  | error e | ok a => simp [bind, Except.bind]

@[simp] theorem ok_bind : ((Except.ok a : Except ε α) >>= f) = f a := rfl

@[simp] theorem error_bind (e : ε) : ((Except.error e : Except ε α) >>= f) = .error e := rfl

@[simp] theorem pure_eq_ok : (pure a : Except ε α) = .ok a := rfl

theorem ite_error_eq_ok {p : Prop} [Decidable p] {e : ε} {x : Except ε α} :
    (if p then .error e else x) = .ok a ↔ ¬p ∧ x = .ok a := by
  by_cases h : p <;> simp [h]

theorem ite_eq_ok {p : Prop} [Decidable p] {e : ε} {x : Except ε α} :
    (if p then x else .error e) = .ok a ↔ p ∧ x = .ok a := by
  by_cases h : p <;> simp [h]

theorem run_bind {σ : Type} (p : ExceptT ε (StateM σ) α) (k : α → ExceptT ε (StateM σ) β) (s : σ) :
    (p >>= k) s = match p s with
      | (.ok a, t) => k a t
      | (.error e, t) => (.error e, t) := by
  have h : (p >>= k) s = (ExceptT.bindCont k (p s).1 : StateM σ (Except ε β)) (p s).2 := rfl
  rw [h]
  rcases p s with ⟨e | a, t⟩ <;> rfl

structure Faulty (σ : Type) where
  state : σ
  faults : List Bool

abbrev Fallible (σ ε : Type) := ExceptT ε (StateM (Faulty σ))

namespace Fallible

variable {σ ε α β : Type}

/-- A step: it fails with `failure` or does `f`, which may refuse as well. -/
def step (failure : ε) (f : σ → Except ε (α × σ)) : Fallible σ ε α := fun x =>
  match x.faults with
  | true :: faults => (.error failure, ⟨x.state, faults⟩)
  | faults =>
    match f x.state with
    | .ok (a, state) => (.ok a, ⟨state, faults.tail⟩)
    | .error e => (.error e, ⟨x.state, faults.tail⟩)

def read (failure : ε) (f : σ → α) : Fallible σ ε α := step failure fun s => .ok (f s, s)

def ensure (b : Bool) (error : ε) : Fallible σ ε Unit := if b then pure () else throw error

/-- All steps of `p` and the commit, or none of them. -/
def transaction (failure : ε) (p : Fallible σ ε α) : Fallible σ ε α := fun x =>
  match (do let a ← p; step failure fun s => .ok (a, s) : Fallible σ ε α) x with
  | (.ok a, x') => (.ok a, x')
  | (.error e, x') => (.error e, ⟨x.state, x'.faults⟩)

/-- What came of a program. -/
def Outcome (Q : α → σ → Prop) (E : σ → Prop) : Except ε α × Faulty σ → Prop
  | (.ok a, x) => Q a x.state
  | (.error _, x) => E x.state

def Holds (P : σ → Prop) (p : Fallible σ ε α) (Q : α → σ → Prop) (E : σ → Prop) : Prop :=
  ∀ x, P x.state → Outcome Q E (p x)

/-- What a program that does not fail leads to. -/
abbrev Leads (P : σ → Prop) (p : Fallible σ ε α) (Q : α → σ → Prop) : Prop :=
  Holds P p Q fun _ => True

variable {P P' : σ → Prop} {Q Q' : α → σ → Prop} {E E' : σ → Prop}

theorem Holds.pure {a : α} (h : ∀ s, P s → Q a s) : Holds P (Pure.pure a : Fallible σ ε α) Q E :=
  fun x hx => h x.state hx

theorem Holds.throw {e : ε} (h : ∀ s, P s → E s) : Holds P (throw e : Fallible σ ε α) Q E :=
  fun x hx => h x.state hx

variable {p : Fallible σ ε α} {failure : ε}

theorem Holds.conseq (h : Holds P p Q E) (hP : ∀ s, P' s → P s) (hQ : ∀ a s, Q a s → Q' a s)
    (hE : ∀ s, E s → E' s) : Holds P' p Q' E' := by
  intro x hx
  have hp := h x (hP x.state hx)
  revert hp
  rcases p x with ⟨e | a, x'⟩
  · exact hE x'.state
  · exact hQ a x'.state

theorem Holds.pre (h : Holds P p Q E) (hP : ∀ s, P' s → P s) : Holds P' p Q E :=
  h.conseq hP (fun _ _ h => h) fun _ h => h

theorem Holds.post (h : Holds P p Q E) (hQ : ∀ a s, Q a s → Q' a s) : Holds P p Q' E :=
  h.conseq (fun _ h => h) hQ fun _ h => h

theorem Holds.bind {k : α → Fallible σ ε β} {Q' : β → σ → Prop} (hp : Holds P p Q E)
    (hk : ∀ a, Holds (Q a) (k a) Q' E) : Holds P (p >>= k) Q' E := by
  intro x hx
  have h := hp x hx
  rw [run_bind]
  revert h
  rcases p x with ⟨e | a, x'⟩
  · exact id
  · exact hk a x'

theorem Holds.catches {handle : ε → Fallible σ ε α} (hp : Holds P p Q E)
    (hh : ∀ e, Holds E (handle e) Q E') : Holds P (tryCatch p handle) Q E' := by
  intro x hx
  have h := hp x hx
  have hcatch : (tryCatch p handle) x = match p x with
      | (.ok a, x') => (.ok a, x')
      | (.error e, x') => handle e x' := by
    show (match (p x).1 with
      | .ok a => (.pure (.ok a) : StateM (Faulty σ) (Except ε α))
      | .error e => handle e) (p x).2 = _
    rcases p x with ⟨e | a, x'⟩ <;> rfl
  rw [hcatch]
  revert h
  rcases p x with ⟨e | a, x'⟩
  · exact hh e x'
  · exact id

theorem Holds.assume {φ : Prop} (hφ : ∀ s, P s → φ) (h : φ → Holds P p Q E) : Holds P p Q E :=
  fun x hx => h (hφ x.state hx) x hx

theorem Holds.step {f : σ → Except ε (α × σ)} (hE : ∀ s, P s → E s)
    (h : ∀ s a s', P s → f s = .ok (a, s') → Q a s') : Holds P (step failure f) Q E := by
  intro x hx
  unfold Fallible.step
  split
  · exact hE x.state hx
  split
  · next hf => exact h _ _ _ hx hf
  · exact hE x.state hx

theorem Holds.read {f : σ → α} (hE : ∀ s, P s → E s) (h : ∀ s, P s → Q (f s) s) :
    Holds P (read failure f) Q E :=
  .step hE fun s a s' hs hf => by
    cases hf
    exact h s hs

theorem Holds.ensure {b : Bool} {e : ε} {Q : Unit → σ → Prop} (hE : ∀ s, P s → E s)
    (h : ∀ s, P s → b = true → Q () s) : Holds P (Fallible.ensure b e) Q E := by
  unfold Fallible.ensure
  split
  · next hb => exact .pure fun s hs => h s hs hb
  · exact .throw hE

/-- A transaction that fails changes nothing. -/
theorem Holds.transaction {t : σ} (h : Holds (· = t) p Q fun _ => True) :
    Holds (· = t) (transaction failure p) Q (· = t) := by
  have hcommit : Holds (· = t) (do let a ← p; .step failure fun s => .ok (a, s)) Q
      fun _ => True :=
    .bind h fun a => .step (fun _ _ => trivial) fun s a' s' hs hf => by
      cases hf
      exact hs
  intro x hx
  have hrun := hcommit x hx
  unfold Fallible.transaction
  split
  · next heq =>
    rw [heq] at hrun
    exact hrun
  · exact hx

end Fallible

end Tarit.Lib
