import Mathlib.Logic.Relation

/-!
# Sequential programs among concurrent environment steps

`Prog` is a sequential program over atomic operations. A `World` says what an operation
may answer and do, and which steps everything else in the system may take. Between any
two operations of the program the environment takes any number of steps, so a triple
`World.Triple` holds in every interleaving. An assertion the program relies on between
two operations has to be `Stable`: kept by every environment step.

Programs that can fail run in `ExceptT`: `World.Tries` is a triple with one postcondition
for the value and one for the error, `World.Yields` the triple of the values alone.
-/
namespace Tarit.Lib

/-- A program that performs operations one after the other and ends with a value. -/
inductive Prog (Op : Type) (Res : Op → Type) (α : Type) : Type where
  | done (a : α)
  | step (o : Op) (next : Res o → Prog Op Res α)

variable {ι : Type}

namespace Prog

variable {Op : Type} {Res : Op → Type} {σ α β : Type}

def bind : Prog Op Res α → (α → Prog Op Res β) → Prog Op Res β
  | .done a, k => k a
  | .step o next, k => .step o fun r => (next r).bind k

instance : Monad (Prog Op Res) where
  pure := .done
  bind := Prog.bind

def perform (o : Op) : Prog Op Res (Res o) := .step o .done

/-- Every operation the program can reach is one of `S`. -/
def Uses (S : Op → Prop) : Prog Op Res α → Prop
  | .done _ => True
  | .step o next => S o ∧ ∀ r, (next r).Uses S

/-- Every value the program can end with has `φ`, whatever its operations answer. -/
def Gives (φ : α → Prop) : Prog Op Res α → Prop
  | .done a => φ a
  | .step _ next => ∀ r, (next r).Gives φ

/-- Every operation the program can reach is one of `S`; if `b` holds and every answer is one of
`A`, the value it ends with has `φ`. -/
def Behaves (S : Op → Prop) (A : (o : Op) → Res o → Prop) (φ : α → Prop) :
    Prop → Prog Op Res α → Prop
  | b, .done a => b → φ a
  | b, .step o next => S o ∧ ∀ r, (next r).Behaves S A φ (b ∧ A o r)

/-- Run the program alone, its operations answered by `f`. -/
def interp (f : (o : Op) → σ → Res o × σ) : Prog Op Res α → σ → α × σ
  | .done a, s => (a, s)
  | .step o next, s => (next (f o s).1).interp f (f o s).2

/-- Run alone, the program performs each operation in a state where `S` holds of it. -/
def Follows (f : (o : Op) → σ → Res o × σ) (S : Op → σ → Prop) : Prog Op Res α → σ → Prop
  | .done _, _ => True
  | .step o next, s => S o s ∧ (next (f o s).1).Follows f S (f o s).2

instance decidableFollows (f : (o : Op) → σ → Res o × σ) (S : Op → σ → Prop)
    [∀ o s, Decidable (S o s)] : (p : Prog Op Res α) → (s : σ) → Decidable (p.Follows f S s)
  | .done _, _ => isTrue trivial
  | .step o next, s =>
    have := decidableFollows f S (next (f o s).1) (f o s).2
    inferInstanceAs (Decidable (S o s ∧ (next (f o s).1).Follows f S (f o s).2))

/-- Run alone, the program performs only operations of `S`. -/
abbrev Meets (f : (o : Op) → σ → Res o × σ) (S : Op → Prop) (p : Prog Op Res α) (s : σ) : Prop :=
  p.Follows f (fun o _ => S o) s

@[simp] theorem interp_pure (f : (o : Op) → σ → Res o × σ) (a : α) (s : σ) :
    (pure a : Prog Op Res α).interp f s = (a, s) := rfl

@[simp] theorem interp_perform (f : (o : Op) → σ → Res o × σ) (o : Op) (s : σ) :
    (perform o).interp f s = f o s := rfl

@[simp] theorem interp_bind (f : (o : Op) → σ → Res o × σ) (p : Prog Op Res α)
    (k : α → Prog Op Res β) (s : σ) :
    (p >>= k).interp f s = (k (p.interp f s).1).interp f (p.interp f s).2 := by
  induction p generalizing s with
  | done a => rfl
  | step o next ih => exact ih (f o s).1 (f o s).2

variable {p : Prog Op Res α} {S : Op → Prop} {k : α → Prog Op Res β}
  {f : (o : Op) → σ → Res o × σ} {ε : Type} {φ : α → Prop} {o : Op}

theorem meets_bind {s : σ} :
    (p >>= k).Meets f S s ↔ p.Meets f S s ∧ (k (p.interp f s).1).Meets f S (p.interp f s).2 := by
  induction p generalizing s with
  | done a => exact ⟨fun h => ⟨trivial, h⟩, fun h => h.2⟩
  | step o next ih =>
    constructor
    · intro h
      obtain ⟨hnext, hk⟩ := (ih (f o s).1).mp h.2
      exact ⟨⟨h.1, hnext⟩, hk⟩
    · intro h
      exact ⟨h.1.1, (ih (f o s).1).mpr ⟨h.1.2, h.2⟩⟩

theorem meets_of_uses (h : p.Uses S) (s : σ) : p.Meets f S s := by
  induction p generalizing s with
  | done a => trivial
  | step o next ih => exact ⟨h.1, ih _ (h.2 _) _⟩

theorem interp_run_bind (f : (o : Op) → σ → Res o × σ) (p : ExceptT ε (Prog Op Res) α)
    (k : α → ExceptT ε (Prog Op Res) β) (s : σ) :
    (p >>= k).run.interp f s = match p.run.interp f s with
      | (.ok a, t) => (k a).run.interp f t
      | (.error e, t) => (.error e, t) := by
  have h : (p >>= k).run = p.run >>= ExceptT.bindCont k := rfl
  rw [h, interp_bind]
  split <;> next heq => rw [heq]; rfl

theorem run_lift_bind (p : Prog Op Res α) (k : α → ExceptT ε (Prog Op Res) β) :
    (ExceptT.lift p >>= k).run = p >>= fun a => (k a).run := by
  induction p with
  | done a => rfl
  | step o next ih => exact congrArg (Prog.step o) (funext ih)

theorem interp_run_lift (f : (o : Op) → σ → Res o × σ) (p : Prog Op Res α) (s : σ) :
    (ExceptT.lift p : ExceptT ε (Prog Op Res) α).run.interp f s =
      (.ok (p.interp f s).1, (p.interp f s).2) := by
  have h : (.lift p : ExceptT ε (Prog Op Res) α).run =
      p >>= fun a => pure (.ok a) := rfl
  rw [h, interp_bind, interp_pure]

theorem interp_map (f : (o : Op) → σ → Res o × σ) (g : α → β) (p : Prog Op Res α) (s : σ) :
    (g <$> p).interp f s = (g (p.interp f s).1, (p.interp f s).2) :=
  interp_bind f p (fun a => pure (g a)) s

/-- What every answer keeps, the program keeps. -/
theorem interp_keeps {I : σ → Prop} (h : ∀ o s, I s → I (f o s).2) (p : Prog Op Res α) {s : σ}
    (hs : I s) : I (p.interp f s).2 := by
  induction p generalizing s with
  | done a => exact hs
  | step o next ih => exact ih (f o s).1 (h o s hs)

theorem uses_all (p : Prog Op Res α) : p.Uses fun _ => True := by
  induction p with
  | done a => trivial
  | step o next ih => exact ⟨trivial, ih⟩

theorem gives_all (p : Prog Op Res α) : p.Gives fun _ => True := by
  induction p with
  | done a => trivial
  | step o next ih => exact ih

theorem uses_pure (S : Op → Prop) (a : α) : (pure a : Prog Op Res α).Uses S := trivial

theorem uses_perform (h : S o) : (perform o : Prog Op Res (Res o)).Uses S := ⟨h, fun _ => trivial⟩

theorem uses_bind (hp : p.Uses S) (hk : ∀ a, (k a).Uses S) : (p >>= k).Uses S := by
  induction p with
  | done a => exact hk a
  | step o next ih => exact ⟨hp.1, fun r => ih r (hp.2 r)⟩

theorem gives_bind {ψ : β → Prop} (hp : p.Gives φ) (hk : ∀ a, φ a → (k a).Gives ψ) :
    (p >>= k).Gives ψ := by
  induction p with
  | done a => exact hk a hp
  | step o next ih => exact fun r => ih r (hp r)

theorem gives_skip {ψ : β → Prop} (hk : ∀ a, (k a).Gives ψ) : (p >>= k).Gives ψ :=
  gives_bind (gives_all p) fun a _ => hk a

theorem gives_ite {c : Prop} [Decidable c] {q : Prog Op Res α} (hp : c → p.Gives φ)
    (hq : ¬ c → q.Gives φ) : (if c then p else q).Gives φ := by
  by_cases h : c
  · rw [if_pos h]
    exact hp h
  · rw [if_neg h]
    exact hq h

theorem Gives.imp {ψ : α → Prop} (hp : p.Gives φ) (h : ∀ a, φ a → ψ a) : p.Gives ψ := by
  induction p with
  | done a => exact h a hp
  | step o next ih => exact fun r => ih r (hp r)

theorem Gives.and {ψ : α → Prop} (hφ : p.Gives φ) (hψ : p.Gives ψ) :
    p.Gives fun a => φ a ∧ ψ a := by
  induction p with
  | done a => exact ⟨hφ, hψ⟩
  | step o next ih => exact fun r => ih r (hφ r) (hψ r)

theorem gives_forall {φ : ι → α → Prop} (h : ∀ i, p.Gives (φ i)) : p.Gives fun a => ∀ i, φ i a := by
  induction p with
  | done a => exact h
  | step o next ih => exact fun r => ih r fun i => h i r

theorem interp_gives (hp : p.Gives φ) (f : (o : Op) → σ → Res o × σ) (s : σ) :
    φ (p.interp f s).1 := by
  induction p generalizing s with
  | done a => exact hp
  | step o next ih => exact ih _ (hp _) _

def Can (p : Prog Op Res α) (a : α) : Prop := ∀ φ : α → Prop, p.Gives φ → φ a

theorem gives_can (p : Prog Op Res α) : p.Gives p.Can := by
  induction p with
  | done a => exact fun φ h => h
  | step o next ih =>
    intro r
    exact (ih r).imp fun a ha φ h => ha φ (h r)

theorem interp_can (p : Prog Op Res α) (f : (o : Op) → σ → Res o × σ) (s : σ) :
    p.Can (p.interp f s).1 :=
  fun _ h => interp_gives h f s

/-! Fallible programs: -/

theorem uses_run_pure (a : α) : (pure a : ExceptT ε (Prog Op Res) α).run.Uses S := trivial

theorem uses_run_throw (e : ε) : (throw e : ExceptT ε (Prog Op Res) α).run.Uses S := trivial

/-! Programs whose answers are known: -/

section Behaves

variable {A : (o : Op) → Res o → Prop} {b b' : Prop} {ψ : β → Prop}

theorem Behaves.mono (h : p.Behaves S A φ b) (hb : b' → b) : p.Behaves S A φ b' := by
  induction p generalizing b b' with
  | done a => exact fun hb' => h (hb hb')
  | step o next ih => exact ⟨h.1, fun r => ih r (h.2 r) fun hr => ⟨hb hr.1, hr.2⟩⟩

theorem Behaves.imp {S' : Op → Prop} (h : p.Behaves S A φ b) (hS : ∀ o, S o → S' o) :
    p.Behaves S' A φ b := by
  induction p generalizing b with
  | done a => exact h
  | step o next ih => exact ⟨hS o h.1, fun r => ih r (h.2 r)⟩

theorem Behaves.uses (h : p.Behaves S A φ b) : p.Uses S := by
  induction p generalizing b with
  | done a => trivial
  | step o next ih => exact ⟨h.1, fun r => ih r (h.2 r)⟩

theorem Behaves.interp (h : p.Behaves S A φ b) (hb : b) (hf : ∀ o s, A o (f o s).1) (s : σ) :
    φ (p.interp f s).1 := by
  induction p generalizing b s with
  | done a => exact h hb
  | step o next ih => exact ih _ (h.2 _) ⟨hb, hf o s⟩ _

theorem behaves_of_uses (h : p.Uses S) : p.Behaves S A (fun _ => True) b := by
  induction p generalizing b with
  | done a => exact fun _ => trivial
  | step o next ih => exact ⟨h.1, fun r => ih r (h.2 r)⟩

theorem behaves_absurd (h : p.Uses S) (hb : ¬ b) : p.Behaves S A φ b := by
  induction p generalizing b with
  | done a => exact fun h => absurd h hb
  | step o next ih => exact ⟨h.1, fun r => ih r (h.2 r) fun h => hb h.1⟩

theorem behaves_bind (hp : p.Behaves S A φ b) (hk : ∀ a, (k a).Behaves S A ψ (b ∧ φ a)) :
    (p >>= k).Behaves S A ψ b := by
  induction p generalizing b with
  | done a => exact (hk a).mono fun hb => ⟨hb, hp hb⟩
  | step o next ih =>
    exact ⟨hp.1, fun r => ih r (hp.2 r) fun a => (hk a).mono fun h => ⟨h.1.1, h.2⟩⟩

/-- A fallible program that behaves, and gives a value then. -/
def Succeeds (S : Op → Prop) (A : (o : Op) → Res o → Prop) (b : Prop)
    (p : ExceptT ε (Prog Op Res) α) : Prop :=
  p.run.Behaves S A (fun r => ∃ a, r = .ok a) b

theorem Succeeds.pure (a : α) : Succeeds S A b (pure a : ExceptT ε (Prog Op Res) α) :=
  fun _ => ⟨a, rfl⟩

theorem Succeeds.throw {e : ε} (hb : ¬ b) : Succeeds S A b (throw e : ExceptT ε (Prog Op Res) α) :=
  fun h => absurd h hb

variable {k : α → ExceptT ε (Prog Op Res) β}

theorem Succeeds.bind {p : ExceptT ε (Prog Op Res) α} (hp : Succeeds S A b p)
    (hk : ∀ a, Succeeds S A b (k a)) : Succeeds S A b (p >>= k) := by
  refine behaves_bind hp fun r => ?_
  match r with
  | .ok a => exact (hk a).mono fun h => h.1
  | .error e =>
    rintro ⟨_, _, h⟩
    cases h

theorem Succeeds.after (hp : p.Behaves S A φ b) (hk : ∀ a, Succeeds S A (b ∧ φ a) (k a)) :
    Succeeds S A b (ExceptT.lift p >>= k) := by
  unfold Succeeds
  rw [run_lift_bind]
  exact behaves_bind hp hk

theorem Succeeds.skip (hp : p.Uses S) (hk : ∀ a, Succeeds S A b (k a)) :
    Succeeds S A b (ExceptT.lift p >>= k) :=
  .after (behaves_of_uses hp) fun a => (hk a).mono fun h => h.1

end Behaves

end Prog

/-- What operations do, and what the environment may do between them. -/
structure World (σ Op : Type) (Res : Op → Type) where
  env : σ → σ → Prop
  exec : (o : Op) → σ → Res o → σ → Prop

namespace World

variable {σ Op : Type} {Res : Op → Type} {α β ε : Type}

/-- `Runs p s a t`: from `s`, with environment steps anywhere between its operations, the
program ends with `a` in `t`. -/
inductive Runs (w : World σ Op Res) {α : Type} : Prog Op Res α → σ → α → σ → Prop where
  | done (a : α) (s : σ) : Runs w (.done a) s a s
  | env {p : Prog Op Res α} {s s' t : σ} {a : α} : w.env s s' → Runs w p s' a t → Runs w p s a t
  | step {o : Op} {next : Res o → Prog Op Res α} {s s' t : σ} {r : Res o} {a : α} :
      w.exec o s r s' → Runs w (next r) s' a t → Runs w (.step o next) s a t

/-- An assertion every environment step keeps. -/
def Stable (w : World σ Op Res) (P : σ → Prop) : Prop := ∀ ⦃s t⦄, P s → w.env s t → P t

/-- Every run from a state with `P` ends in a state with `Q`. -/
def Triple (w : World σ Op Res) (P : σ → Prop) (p : Prog Op Res α) (Q : α → σ → Prop) : Prop :=
  ∀ ⦃s a t⦄, P s → w.Runs p s a t → Q a t

variable {p : Prog Op Res α} {a : α} {S : Op → Prop} {I : σ → Prop} {o : Op} {w : World σ Op Res}
  {P P' : σ → Prop} {Q Q' : α → σ → Prop} {R : β → σ → Prop}

section Triple

theorem Stable.exists {P : ι → σ → Prop} (h : ∀ i, w.Stable (P i)) : w.Stable fun s => ∃ i, P i s :=
  fun _ _ hs he => hs.imp fun i hi => h i hi he

theorem Stable.and {P P' : σ → Prop} (h : w.Stable P) (h' : w.Stable P') :
    w.Stable fun s => P s ∧ P' s :=
  fun _ _ hs he => ⟨h hs.1 he, h' hs.2 he⟩

variable {k : α → Prog Op Res β} {s : σ} {φ : α → Prop}

/-- A run of a sequence is a run of its parts. -/
theorem Runs.of_bind {t : σ} {b : β} (h : w.Runs (p >>= k) s b t) :
    ∃ a u, w.Runs p s a u ∧ w.Runs (k a) u b t := by
  generalize hq : p >>= k = q at h
  induction h generalizing p with
  | done b s =>
    cases p with
    | done a =>
      change k a = _ at hq
      exact ⟨a, s, .done a s, by rw [hq]; exact .done b s⟩
    | step o next => cases hq
  | env he _ ih =>
    obtain ⟨a, u, hp, hk⟩ := ih hq
    exact ⟨a, u, .env he hp, hk⟩
  | step ho hrest ih =>
    cases p with
    | done a =>
      change k a = _ at hq
      exact ⟨a, _, .done a _, by rw [hq]; exact .step ho hrest⟩
    | step o next =>
      cases hq
      obtain ⟨a, u, hp, hk⟩ := ih rfl
      exact ⟨a, u, .step ho hp, hk⟩

theorem Triple.pure (hP : w.Stable P) (h : ∀ s, P s → Q a s) :
    w.Triple P (pure a : Prog Op Res α) Q := by
  intro s b t hs hrun
  generalize hp : (Pure.pure a : Prog Op Res α) = p at hrun
  induction hrun with
  | done b s =>
    cases hp
    exact h s hs
  | env he _ ih => exact ih (hP hs he) hp
  | step => cases hp

theorem Triple.perform {Q : Res o → σ → Prop} (hP : w.Stable P)
    (h : ∀ s r t, P s → w.exec o s r t → Q r t) (hQ : ∀ r, w.Stable (Q r)) :
    w.Triple P (Prog.perform o) Q := by
  intro s b t hs hrun
  generalize hp : (.perform o : Prog Op Res (Res o)) = p at hrun
  induction hrun with
  | done b s => cases hp
  | env he _ ih => exact ih (hP hs he) hp
  | step ho hrest _ =>
    cases hp
    exact Triple.pure (hQ _) (fun _ hq => hq) (h _ _ _ hs ho) hrest

theorem Triple.bind (hp : w.Triple P p Q) (hk : ∀ a, w.Triple (Q a) (k a) R) :
    w.Triple P (p >>= k) R := by
  intro s b t hs hrun
  obtain ⟨a, u, hrun, hrest⟩ := hrun.of_bind
  exact hk a (hp hs hrun) hrest

theorem Triple.conseq (h : w.Triple P p Q) (hP : ∀ s, P' s → P s) (hQ : ∀ a s, Q a s → Q' a s) :
    w.Triple P' p Q' :=
  fun _ _ _ hs hrun => hQ _ _ (h (hP _ hs) hrun)

theorem Triple.pre (h : w.Triple P p Q) (hP : ∀ s, P' s → P s) : w.Triple P' p Q :=
  h.conseq hP fun _ _ h => h

/-- The others may step once more after the program has ended. -/
theorem Runs.trail {t u : σ} (h : w.Runs p s a u) (he : w.env u t) : w.Runs p s a t := by
  induction h with
  | done a s => exact .env he (.done a t)
  | env he' _ ih => exact .env he' (ih he)
  | step ho _ ih => exact .step ho (ih he)

theorem Triple.post (h : w.Triple P p Q) (hQ : ∀ a s, Q a s → Q' a s) : w.Triple P p Q' :=
  h.conseq (fun _ h => h) hQ

/-- What is known at the end of a program is implied by what the environment keeps. -/
theorem Triple.settled (h : w.Triple P p Q) :
    ∃ Q', (∀ a, w.Stable (Q' a)) ∧ w.Triple P p Q' ∧ ∀ a s, Q' a s → Q a s := by
  refine ⟨fun a t => ∃ s, P s ∧ w.Runs p s a t, ?_, fun s a t hs hrun => ⟨s, hs, hrun⟩, ?_⟩
  · intro a t t' ⟨s, hs, hrun⟩ he
    exact ⟨s, hs, hrun.trail he⟩
  · intro a t ⟨s, hs, hrun⟩
    exact h hs hrun

theorem Triple.map {f : α → β} (h : w.Triple P p fun a => R (f a)) :
    w.Triple P (p >>= fun a => Pure.pure (f a)) R := by
  obtain ⟨Q', hstable, hp', himp⟩ := h.settled
  exact hp'.bind fun a => .pure (hstable a) (himp a)

theorem Triple.ends (hp : w.Triple P p fun r s => r = a ∧ P' s) (hk : w.Triple P' (k a) R) :
    w.Triple P (p >>= k) R := by
  intro s b t hs hrun
  obtain ⟨r, u, hrun, hrest⟩ := hrun.of_bind
  obtain ⟨rfl, hu⟩ := hp hs hrun
  exact hk hu hrest

/-- What the precondition says about no state at all may be used in the proof. -/
theorem Triple.assume {φ : Prop} (hφ : ∀ s, P s → φ) (h : φ → w.Triple P p Q) : w.Triple P p Q :=
  fun _ _ _ hs hrun => h (hφ _ hs) hs hrun

theorem Triple.of_and {φ : Prop} (h : φ → w.Triple P p Q) : w.Triple (fun s => φ ∧ P s) p Q :=
  fun _ _ _ hs hrun => h hs.1 hs.2 hrun

theorem Triple.of_exists {P : ι → σ → Prop} (h : ∀ i, w.Triple (P i) p Q) :
    w.Triple (fun s => ∃ i, P i s) p Q := by
  intro s a t hs hrun
  obtain ⟨i, hi⟩ := hs
  exact h i hi hrun

theorem stable_const {φ : Prop} : w.Stable fun _ => φ := fun _ _ h _ => h

theorem Triple.ret (h : ∀ s, Q a s) : w.Triple P (Pure.pure a : Prog Op Res α) Q :=
  (Triple.pure (stable_const) fun s _ => h s).conseq (fun _ _ => trivial) fun _ _ h => h

theorem Triple.skip (hk : ∀ a, w.Triple (fun _ => True) (k a) R) : w.Triple P (p >>= k) R :=
  .bind (fun _ _ _ _ _ => trivial) hk

theorem Triple.known (hp : w.Triple P p fun a _ => φ a)
    (hk : ∀ a, φ a → w.Triple (fun _ => True) (k a) R) : w.Triple P (p >>= k) R := by
  intro s b t hs hrun
  obtain ⟨a, u, hrun, hrest⟩ := hrun.of_bind
  exact hk a (hp hs hrun) trivial hrest

/-- A program whose operations all keep an invariant keeps it. -/
theorem Triple.of_uses (hp : p.Uses S) (hI : w.Stable I)
    (hop : ∀ o s r t, S o → I s → w.exec o s r t → I t) : w.Triple I p fun _ => I := by
  intro s a t hs hrun
  induction hrun with
  | done a s => exact hs
  | env he _ ih => exact ih hp (hI hs he)
  | step ho _ ih => exact ih (hp.2 _) (hop _ _ _ _ hp.1 hs ho)

theorem Triple.of_gives (hp : p.Gives φ) : w.Triple P p fun a _ => φ a := by
  intro s a t hs hrun
  clear hs
  induction hrun with
  | done a s => exact hp
  | env he _ ih => exact ih hp
  | step ho _ ih => exact ih (hp _)

/-- The world in which operations answer anything. -/
def any : World Unit Op Res := ⟨fun _ _ => True, fun _ _ _ _ => True⟩

theorem gives_of_any (h : any.Triple (fun _ => True) p fun a _ => φ a) : p.Gives φ := by
  induction p with
  | done a => exact h trivial (.done a ())
  | step o next ih =>
    intro r
    apply ih
    intro s a t _ hrun
    exact h trivial (.step (s := s) trivial hrun)

theorem Triple.gives (hp : p.Gives φ) (h : w.Triple P p Q) : w.Triple P p fun a s => φ a ∧ Q a s :=
  fun _ _ _ hs hrun => ⟨Triple.of_gives hp hs hrun, h hs hrun⟩

theorem Triple.and (h : w.Triple P p Q) (h' : w.Triple P' p Q') :
    w.Triple (fun s => P s ∧ P' s) p fun a s => Q a s ∧ Q' a s :=
  fun _ _ _ hs hrun => ⟨h hs.1 hrun, h' hs.2 hrun⟩

/-- A world with fewer steps has no other runs. -/
theorem Runs.mono {v : World σ Op Res} (henv : ∀ s t, v.env s t → w.env s t)
    (hexec : ∀ o s r t, v.exec o s r t → w.exec o s r t) {t : σ} (hrun : v.Runs p s a t) :
    w.Runs p s a t := by
  induction hrun with
  | done a s => exact .done a s
  | env he _ ih => exact .env (henv _ _ he) ih
  | step ho _ ih => exact .step (hexec _ _ _ _ ho) ih

theorem Runs.bind {t u : σ} {b : β} (hp : w.Runs p s a u) (hk : w.Runs (k a) u b t) :
    w.Runs (p >>= k) s b t := by
  induction hp with
  | done a s => exact hk
  | env he _ ih => exact .env he (ih hk)
  | step ho _ ih => exact .step ho (ih hk)

theorem Runs.envs {t u : σ} (he : Relation.ReflTransGen w.env s u) (hp : w.Runs p u a t) :
    w.Runs p s a t := by
  induction he using Relation.ReflTransGen.head_induction_on with
  | refl => exact hp
  | head hstep _ ih => exact .env hstep ih

/-- A program has the run in which the environment does what `f` wants before each of its
operations, and `f` answers the operation. -/
theorem runs_interp {f : (o : Op) → σ → Res o × σ}
    (h : ∀ o s, S o → I s → ∃ u, Relation.ReflTransGen w.env s u ∧
      w.exec o u (f o s).1 (f o s).2 ∧ I (f o s).2)
    (hp : p.Uses S) (hs : I s) :
    w.Runs p s (p.interp f s).1 (p.interp f s).2 ∧ I (p.interp f s).2 := by
  induction p generalizing s with
  | done a => exact ⟨.done a s, hs⟩
  | step o next ih =>
    obtain ⟨u, henv, hexec, hnext⟩ := h o s hp.1 hs
    obtain ⟨hrun, hend⟩ := ih _ (hp.2 _) hnext
    exact ⟨.envs henv (.step hexec hrun), hend⟩

/-- A program alone has the run in which every operation is answered by `f`. -/
theorem runs_follows {f : (o : Op) → σ → Res o × σ} {S : Op → σ → Prop}
    (h : ∀ o s, S o s → w.exec o s (f o s).1 (f o s).2) (p : Prog Op Res α) (hp : p.Follows f S s) :
    w.Runs p s (p.interp f s).1 (p.interp f s).2 := by
  induction p generalizing s with
  | done a => exact .done a s
  | step o next ih => exact .step (h o s hp.1) (ih _ hp.2)

end Triple

/-- A condition on a result: `Q` of a value, `E` of an error. -/
def Outcome (Q : α → σ → Prop) (E : ε → σ → Prop) : Except ε α → σ → Prop
  | .ok a, s => Q a s
  | .error e, s => E e s

/-- Every run ends in a state with `Q` of its value or with `E` of its error. -/
def Tries (w : World σ Op Res) (P : σ → Prop) (p : ExceptT ε (Prog Op Res) α)
    (Q : α → σ → Prop) (E : ε → σ → Prop) : Prop :=
  w.Triple P p.run (Outcome Q E)

variable {q : ExceptT ε (Prog Op Res) α} {k : α → ExceptT ε (Prog Op Res) β}
  {E E' : ε → σ → Prop}

theorem Stable.outcome (hQ : ∀ a, w.Stable (Q a)) (hE : ∀ e, w.Stable (E e)) (r : Except ε α) :
    w.Stable (Outcome Q E r) := by
  cases r with
  | ok a => exact hQ a
  | error e => exact hE e

theorem Tries.mk {p : Prog Op Res (Except ε α)} {R : Except ε α → σ → Prop}
    (h : w.Triple P p R) (hQ : ∀ a s, R (.ok a) s → Q a s) (hE : ∀ e s, R (.error e) s → E e s) :
    w.Tries P (ExceptT.mk p) Q E := by
  intro s r t hs hrun
  have hr := h hs hrun
  cases r with
  | ok a => exact hQ a t hr
  | error e => exact hE e t hr

theorem Tries.perform (e : Res o → Except ε α) (hP : w.Stable P) (hQ : ∀ a, w.Stable (Q a))
    (hE : ∀ e, w.Stable (E e)) (h : ∀ s r t, P s → w.exec o s r t → Outcome Q E (e r) t) :
    w.Tries P (ExceptT.mk (.step o fun r => .done (e r))) Q E :=
  .bind
    (.perform hP h fun _ => .outcome hQ hE _) fun _ =>
      .pure (.outcome hQ hE _) fun _ h => h

theorem Tries.pure (hP : w.Stable P) (h : ∀ s, P s → Q a s) :
    w.Tries P (pure a : ExceptT ε (Prog Op Res) α) Q E :=
  Triple.pure hP h

theorem Tries.throw {e : ε} (hP : w.Stable P) (h : ∀ s, P s → E e s) :
    w.Tries P (throw e : ExceptT ε (Prog Op Res) α) Q E :=
  Triple.pure hP h

theorem Tries.bind (hp : w.Tries P q Q E)
    (hk : ∀ a, w.Tries (Q a) (k a) R E) : w.Tries P (q >>= k) R E := by
  obtain ⟨Q', hstable, hp', himp⟩ := Triple.settled hp
  refine Triple.bind hp' fun r => ?_
  match r with
  | .ok a => exact .pre (hk a) (himp (.ok a))
  | .error e => exact .pure (hstable _) (himp (.error e))

theorem Tries.after (hp : w.Triple P p Q) (hk : ∀ a, w.Tries (Q a) (k a) R E) :
    w.Tries P (ExceptT.lift p >>= k) R E := by
  unfold Tries
  rw [Prog.run_lift_bind]
  exact .bind hp hk

theorem Tries.of_uses (hp : q.run.Uses S) (hI : w.Stable I)
    (hop : ∀ o s r t, S o → I s → w.exec o s r t → I t) : w.Tries I q (fun _ => I) fun _ => I :=
  .mk (.of_uses hp hI hop) (fun _ _ h => h) fun _ _ h => h

theorem Tries.conseq (h : w.Tries P q Q E)
    (hP : ∀ s, P' s → P s) (hQ : ∀ a s, Q a s → Q' a s) (hE : ∀ e s, E e s → E' e s) :
    w.Tries P' q Q' E' :=
  .mk (.conseq h hP fun _ _ h => h) hQ hE

/-- The triple of the values alone: a run that fails may end anywhere. -/
def Yields (w : World σ Op Res) (P : σ → Prop) (p : ExceptT ε (Prog Op Res) α)
    (Q : α → σ → Prop) : Prop :=
  w.Tries P p Q fun _ _ => True

theorem Yields.any (p : ExceptT ε (Prog Op Res) α) : w.Yields P p fun _ _ => True := by
  intro s r t _ _
  cases r <;> trivial

theorem Yields.perform (e : Res o → Except ε α) (hP : w.Stable P) (hQ : ∀ a, w.Stable (Q a))
    (h : ∀ s r a t, P s → w.exec o s r t → e r = .ok a → Q a t) :
    w.Yields P (ExceptT.mk (.step o fun r => .done (e r))) Q := by
  refine Tries.perform e hP hQ (fun _ => stable_const) fun s r t hs ho => ?_
  cases hr : e r with
  | ok a => exact h s r a t hs ho hr
  | error e => trivial

theorem Yields.pure (hP : w.Stable P) (h : ∀ s, P s → Q a s) :
    w.Yields P (pure a : ExceptT ε (Prog Op Res) α) Q :=
  Tries.pure hP h

theorem Yields.throw (e : ε) : w.Yields P (throw e : ExceptT ε (Prog Op Res) α) Q :=
  .ret fun _ => trivial

theorem Yields.bind (hp : w.Yields P q Q)
    (hk : ∀ a, w.Yields (Q a) (k a) R) : w.Yields P (q >>= k) R :=
  Tries.bind hp hk

theorem Yields.after (hp : w.Triple P p Q) (hk : ∀ a, w.Yields (Q a) (k a) R) :
    w.Yields P (ExceptT.lift p >>= k) R :=
  Tries.after hp hk

theorem Yields.caught {k : Except ε α → ExceptT ε (Prog Op Res) β}
    (hp : w.Yields P q Q) (hok : ∀ a, w.Yields (Q a) (k (.ok a)) R)
    (herror : ∀ e, w.Yields (fun _ => True) (k (.error e)) R) :
    w.Yields P (ExceptT.lift q.run >>= k) R := by
  refine .after hp fun r => ?_
  cases r with
  | ok a => exact hok a
  | error e => exact herror e

theorem Yields.lift (h : w.Triple P p Q) :
    w.Yields P (ExceptT.lift p : ExceptT ε (Prog Op Res) α) Q :=
  .map h

theorem Yields.conseq (h : w.Yields P q Q)
    (hP : ∀ s, P' s → P s) (hQ : ∀ a s, Q a s → Q' a s) : w.Yields P' q Q' :=
  Tries.conseq h hP hQ fun _ _ h => h

theorem Yields.pre (h : w.Yields P q Q) (hP : ∀ s, P' s → P s) : w.Yields P' q Q :=
  Triple.pre h hP

theorem Yields.of_and {φ : Prop} (h : φ → w.Yields P q Q) : w.Yields (fun s => φ ∧ P s) q Q :=
  Triple.of_and h

theorem Yields.post (h : w.Yields P q Q) (hQ : ∀ a s, Q a s → Q' a s) : w.Yields P q Q' :=
  h.conseq (fun _ h => h) hQ

theorem Yields.assume {φ : Prop} (hφ : ∀ s, P s → φ) (h : φ → w.Yields P q Q) : w.Yields P q Q :=
  Triple.assume hφ h

theorem Yields.and (h : w.Yields P q Q) (h' : w.Yields P' q Q') :
    w.Yields (fun s => P s ∧ P' s) q fun a s => Q a s ∧ Q' a s :=
  .mk (.and h h') (fun _ _ h => h) fun _ _ _ => trivial

end World

end Tarit.Lib
