import Tarit.Lib.Bytes

/-!
# Layers of positioned writes

Two ways to stack writes on a base. `overlay` applies them in order, so the last write
to an element wins. A cover walk visits newer layers first and lets a write through
unless the block around the element is already covered; a write marks its block only
when it fills it. `survivor` says which write such a walk leaves behind, element by
element.
-/
namespace Tarit.Lib

open List

section Overlay

variable {α : Type}

/-- What the write of `p.2` at `p.1` puts at `i`. -/
def patchAt (p : Nat × List α) (i : Nat) : Option α :=
  if p.1 ≤ i then p.2[i - p.1]? else none

variable {p : Nat × List α}

theorem patchAt_eq_none_iff {i : Nat} : patchAt p i = none ↔ i < p.1 ∨ p.1 + p.2.length ≤ i := by
  unfold patchAt
  split
  · rw [getElem?_eq_none_iff]
    omega
  · simp
    omega

theorem range_of_patchAt {i : Nat} {v : α} (h : patchAt p i = some v) :
    p.1 ≤ i ∧ i < p.1 + p.2.length := by
  by_contra hout
  have hnone : patchAt p i = none := patchAt_eq_none_iff.mpr (by omega)
  rw [hnone] at h
  cases h

theorem patchAt_append (pos i : Nat) (a b : List α) :
    patchAt (pos, a ++ b) i = (patchAt (pos, a) i).or (patchAt (pos + a.length, b) i) := by
  simp only [patchAt]
  by_cases hlo : pos ≤ i
  swap
  · rw [if_neg hlo, if_neg hlo, if_neg (by omega)]
    rfl
  by_cases hhi : i - pos < a.length
  · have hget : a[i - pos]? = some a[i - pos] := getElem?_eq_getElem hhi
    rw [if_pos hlo, if_pos hlo, getElem?_append_left hhi, hget]
    rfl
  · have hnone : a[i - pos]? = none := getElem?_eq_none (by omega)
    have hsub : i - pos - a.length = i - (pos + a.length) := by omega
    rw [if_pos hlo, if_pos hlo, if_pos (by omega), getElem?_append_right (by omega), hnone,
      hsub]
    rfl

def overlay (mem : List α) (ps : List (Nat × List α)) : List α :=
  ps.foldl (fun m p => copyAt m p.1 p.2) mem

theorem getElem?_copyAt_patch {mem : List α} (h : p.1 + p.2.length ≤ mem.length) (i : Nat) :
    (copyAt mem p.1 p.2)[i]? = (patchAt p i).or mem[i]? := by
  rw [getElem?_copyAt h, patchAt]
  by_cases hlo : p.1 ≤ i
  · by_cases hhi : i < p.1 + p.2.length
    · have hget : p.2[i - p.1]? = some (p.2[i - p.1]) := getElem?_eq_getElem (by omega)
      rw [if_pos ⟨hlo, hhi⟩, if_pos hlo, hget]
      rfl
    · have hnone : p.2[i - p.1]? = none := getElem?_eq_none (by omega)
      rw [if_neg (by omega), if_pos hlo, hnone]
      rfl
  · rw [if_neg (by omega), if_neg hlo]
    rfl

/-- Applied in order, the last write to an element wins. -/
theorem getElem?_overlay {ps : List (Nat × List α)} {mem : List α}
    (h : ∀ p ∈ ps, p.1 + p.2.length ≤ mem.length) (i : Nat) :
    (overlay mem ps)[i]? = (ps.filterMap (patchAt · i)).getLast?.or mem[i]? := by
  induction ps generalizing mem with
  | nil => rfl
  | cons p ps ih =>
    have hp := h p (by simp)
    have hrest : ∀ q ∈ ps, q.1 + q.2.length ≤ (copyAt mem p.1 p.2).length := by
      intro q hq
      rw [copyAt_length hp]
      exact h q (by simp [hq])
    rw [overlay, foldl_cons, ← overlay, ih hrest, getElem?_copyAt_patch hp]
    cases hw : patchAt p i with
    | none => simp [hw]
    | some v =>
      cases ht : (ps.filterMap (patchAt · i)).getLast? <;> simp [hw, getLast?_cons, ht]

end Overlay

section CoverWalk

variable {α : Type}

/-- How a write meets the block around an element: off the block grid, filling the
block, or on the grid but ending before the block does. -/
inductive Reach where
  | loose
  | whole
  | short
  deriving DecidableEq

/-- One write of the walk, at one element: the element's value and whether its block
is covered. Writes off the grid do not look at the cover. -/
def coverStep : Option α × Bool → Reach × α → Option α × Bool
  | (_, covered), (.loose, w) => (some w, covered)
  | (v, true), (_, _) => (v, true)
  | (_, false), (.whole, w) => (some w, true)
  | (_, false), (.short, w) => (some w, false)

/-- The write a walk leaves behind. Behind the first write that fills the block only
writes off the grid still land, the last of them for good; if no write fills the
block they all land. -/
def survivor (ws : List (Reach × α)) : Option α :=
  match ws.dropWhile (fun w => w.1 ≠ .whole) with
  | [] => ws.getLast?.map Prod.snd
  | w :: later => some ((later.filter (fun w => w.1 = .loose)).getLast?.getD w).2

variable {ws : List (Reach × α)}

theorem foldl_coverStep_covered (v : Option α) :
    ws.foldl coverStep (v, true) =
      (((ws.filter (fun w => w.1 = .loose)).getLast?.map Prod.snd).or v, true) := by
  induction ws generalizing v with
  | nil => rfl
  | cons w ws ih =>
    obtain ⟨r, x⟩ := w
    cases r with
    | loose =>
      rw [foldl_cons, coverStep, ih]
      cases hl : (ws.filter (fun w => w.1 = .loose)).getLast? <;> simp [getLast?_cons, hl]
    | whole | short => simpa [coverStep] using ih v

theorem survivor_cons_of_ne_whole {w : Reach × α} (hw : w.1 ≠ .whole) :
    survivor (w :: ws) = (survivor ws).or (some w.2) := by
  unfold survivor
  rw [dropWhile_cons_of_pos (by simpa using hw)]
  cases ws.dropWhile (fun w => w.1 ≠ .whole) with
  | nil => cases hl : ws.getLast? <;> simp [getLast?_cons, hl]
  | cons x later => simp

theorem survivor_eq_none_iff {ws : List (Reach × α)} : survivor ws = none ↔ ws = [] := by
  constructor
  · intro h
    unfold survivor at h
    split at h
    · simpa using h
    · cases h
  · rintro rfl
    rfl

/-- A walk over an uncovered element ends with the surviving write, or with what was
there if nothing wrote it. -/
theorem foldl_coverStep (v : Option α) :
    ws.foldl coverStep (v, false) = ((survivor ws).or v, ws.any (fun w => w.1 = .whole)) := by
  induction ws generalizing v with
  | nil => rfl
  | cons w ws ih =>
    obtain ⟨r, x⟩ := w
    cases r with
    | loose | short =>
      rw [foldl_cons, coverStep, ih, survivor_cons_of_ne_whole (by simp)]
      cases survivor ws <;> simp
    | whole =>
      rw [foldl_cons, coverStep, foldl_coverStep_covered]
      unfold survivor
      rw [dropWhile_cons_of_neg (by simp)]
      cases hl : (ws.filter (fun w => w.1 = .loose)).getLast? <;> simp only [hl] <;> simp

/-- When every write fills its block the first one of the walk survives. -/
theorem survivor_of_all_whole {ws : List (Reach × α)} (h : ∀ w ∈ ws, w.1 = .whole) :
    survivor ws = ws.head?.map Prod.snd := by
  cases ws with
  | nil => rfl
  | cons w ws =>
    have hw := h w (by simp)
    have hnone : ws.filter (fun w => w.1 = .loose) = [] := by
      rw [filter_eq_nil_iff]
      intro x hx
      simp [h x (by simp [hx])]
    unfold survivor
    rw [dropWhile_cons_of_neg (by simp [hw])]
    simp [hnone]

/-- With at most one write per layer, the newest write is the last one of the
oldest-first order and the first one of the walk. -/
theorem getLast?_reverse_flatten {β : Type} {layers : List (List β)}
    (h : ∀ l ∈ layers, l.length ≤ 1) :
    layers.reverse.flatten.getLast? = layers.flatten.head? := by
  have hrev : layers.map reverse = layers := by
    conv => rhs; rw [← map_id layers]
    apply map_congr_left
    intro l hl
    match l, h l hl with
    | [], _ => rfl
    | [_], _ => rfl
  rw [← getLast?_reverse, reverse_flatten, hrev]

end CoverWalk

end Tarit.Lib
