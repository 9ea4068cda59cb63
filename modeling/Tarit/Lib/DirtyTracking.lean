import Mathlib.Logic.Function.Basic

/-!
# Copies of a memory that is still being written

A `Tracking` reads a memory out of a state and says which blocks are recorded as
written. A copier that runs beside the writers can only know that a byte of its copy is
right unless the block is recorded: `Sees`. `Behind` says this of a whole copy, except for
the cells that are known to be `late`. Writers that record what they change keep both
(`Honest`); collecting the record into a set makes its blocks late (`Collects`); storing
a byte that was seen makes one cell less late. A copy with no late cell of a memory with
no recorded block is exact.
-/
namespace Tarit.Lib

/-- A memory of cells in blocks, and the blocks recorded as written. -/
structure Tracking (σ ι κ V : Type) where
  view : σ → ι → V
  block : ι → κ
  recorded : σ → κ → Prop

namespace Tracking

variable {σ ι κ V : Type} (T : Tracking σ ι κ V)

/-- Cell `i` holds `v`, or its block is recorded. -/
def Sees (s : σ) (i : ι) (v : V) : Prop := T.view s i = v ∨ T.recorded s (T.block i)

/-- Every cell of `img` that is not late is right or recorded. -/
def Behind (s : σ) (img : ι → V) (late : ι → Prop) : Prop := ∀ i, late i ∨ T.Sees s i (img i)

/-- A step that forgets no record and records what it changes. -/
structure Honest (s t : σ) : Prop where
  keeps : ∀ b, T.recorded s b → T.recorded t b
  records : ∀ i, T.view t i = T.view s i ∨ T.recorded t (T.block i)

/-- A step that changes no cell and hands every record it clears to `D`. -/
structure Collects (s t : σ) (D : κ → Prop) : Prop where
  hands : ∀ b, T.recorded s b → T.recorded t b ∨ D b
  view : ∀ i, T.view t i = T.view s i

variable {T} {s t u : σ} {img : ι → V} {late late' : ι → Prop} {i : ι} {v : V}

theorem Sees.honest (h : T.Sees s i v) (hst : T.Honest s t) : T.Sees t i v := by
  rcases h with hv | hr
  · rcases hst.records i with he | hr
    · exact .inl (he.trans hv)
    · exact .inr hr
  · exact .inr (hst.keeps _ hr)

theorem Behind.honest (h : T.Behind s img late) (hst : T.Honest s t) : T.Behind t img late :=
  fun i => (h i).imp id fun hs => hs.honest hst

theorem Behind.mono (h : T.Behind s img late) (hl : ∀ i, late i → late' i) :
    T.Behind s img late' :=
  fun i => (h i).imp (hl i) id

theorem Behind.collect {D : κ → Prop} (h : T.Behind s img late) (hst : T.Collects s t D) :
    T.Behind t img fun i => late i ∨ D (T.block i) := by
  intro i
  rcases h i with hl | hv | hr
  · exact .inl (.inl hl)
  · exact .inr (.inl ((hst.view i).trans hv))
  rcases hst.hands _ hr with hr | hd
  · exact .inr (.inr hr)
  · exact .inl (.inr hd)

theorem Behind.put [DecidableEq ι] (h : T.Behind s img late) (hv : T.Sees s i v) :
    T.Behind s (Function.update img i v) fun j => late j ∧ j ≠ i := by
  intro j
  by_cases hj : j = i
  · subst hj
    exact .inr (by rwa [Function.update_self])
  · rw [Function.update_of_ne hj]
    exact (h j).imp (fun hl => ⟨hl, hj⟩) id

theorem Behind.exact (h : T.Behind s img late) (hl : ¬ late i)
    (hr : ¬ T.recorded s (T.block i)) : T.view s i = img i := by
  rcases h i with h | hv | h
  · exact absurd h hl
  · exact hv
  · exact absurd h hr

end Tracking

end Tarit.Lib
