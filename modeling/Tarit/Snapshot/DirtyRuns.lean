import Tarit.Snapshot.Format
import Mathlib.Data.Finset.Sort
import Mathlib.Data.List.Range

/-!
# Dirty pages as runs

`dirtyPageRuns` sorts the dirty pages that lie inside RAM and coalesces neighbours into
runs of bounded length. Its runs list exactly those pages in order, and there are as
many runs as dirty pages that start one: pages whose stretch of dirty predecessors has
a length divisible by the longest run.
-/
namespace Tarit.Snapshot

open List

/-- The page frame numbers of `DirtyBitmap`. -/
abbrev DirtyBitmap := Finset Nat

/-- Sorted dirty pages whose first byte lies inside RAM. -/
def dirtyPfns (dirty : DirtyBitmap) (mem_len : Nat) : List Nat :=
  (dirty.filter fun pfn => (checkedMul pfn DIFF_PAGE_BYTES).any (· < mem_len)).sort

/-- Join one page to the last run, or start a run with it. The last run stands first. -/
def pushRun (runs : List (Nat × Nat)) (pfn : Nat) : List (Nat × Nat) :=
  match runs with
  | (start, pages) :: rest =>
    if start / DIFF_PAGE_BYTES + pages = pfn ∧ pages < MAX_DIFF_RUN_PAGES then
      (start, pages + 1) :: rest
    else (pfn * DIFF_PAGE_BYTES, 1) :: (start, pages) :: rest
  | [] => [(pfn * DIFF_PAGE_BYTES, 1)]

/-- Coalesce dirty pages into sorted runs of packed offset and page count. -/
def dirtyPageRuns (dirty : DirtyBitmap) (mem_len : Nat) : List (Nat × Nat) :=
  ((dirtyPfns dirty mem_len).foldl pushRun []).reverse

/-- Pages of RAM, a partial last page counted. -/
def pageCount (mem_len : Nat) : Nat := (mem_len + (DIFF_PAGE_BYTES - 1)) / DIFF_PAGE_BYTES

def runPages (r : Nat × Nat) : List Nat := range' (r.1 / DIFF_PAGE_BYTES) r.2

/-- How many dirty pages lie directly before page `p`. -/
def stretchBefore (dirty : DirtyBitmap) : Nat → Nat
  | 0 => 0
  | p + 1 => if p ∈ dirty then stretchBefore dirty p + 1 else 0

/-- A page no run can be extended by: it is clean before it, or the run is full. -/
def startsRun (dirty : DirtyBitmap) (p : Nat) : Prop :=
  p ∈ dirty ∧ stretchBefore dirty p % MAX_DIFF_RUN_PAGES = 0

instance (dirty : DirtyBitmap) (p : Nat) : Decidable (startsRun dirty p) :=
  inferInstanceAs (Decidable (_ ∧ _))

/-- How many runs the dirty pages inside RAM need. -/
def runStarts (dirty : DirtyBitmap) (mem_len : Nat) : Nat :=
  ((range (pageCount mem_len)).filter (startsRun dirty ·)).length

variable {p mem_len P : Nat} {dirty : DirtyBitmap} {acc : List (Nat × Nat)}

theorem lt_pageCount : p < pageCount mem_len ↔ p * DIFF_PAGE_BYTES < mem_len := by
  unfold pageCount DIFF_PAGE_BYTES
  omega

theorem insideRam_iff (hm : mem_len < u64Size) :
    (checkedMul p DIFF_PAGE_BYTES).any (· < mem_len) = true ↔ p * DIFF_PAGE_BYTES < mem_len := by
  unfold checkedMul
  split
  · simp
  · simp
    omega

theorem dirtyPfns_eq (hm : mem_len < u64Size) :
    dirtyPfns dirty mem_len = (range (pageCount mem_len)).filter (· ∈ dirty) := by
  have hmem : ∀ p, p ∈ dirtyPfns dirty mem_len ↔
      p ∈ (range (pageCount mem_len)).filter (· ∈ dirty) := by
    intro p
    simp only [dirtyPfns, Finset.mem_sort, Finset.mem_filter, mem_filter, mem_range,
      lt_pageCount, decide_eq_true_eq, insideRam_iff hm]
    exact and_comm
  have hs1 : (dirtyPfns dirty mem_len).Pairwise (· < ·) := (Finset.sortedLT_sort _).pairwise
  have hs2 : ((range (pageCount mem_len)).filter (· ∈ dirty)).Pairwise (· < ·) :=
    pairwise_lt_range.filter _
  have hperm : (dirtyPfns dirty mem_len).Perm
      ((range (pageCount mem_len)).filter (· ∈ dirty)) :=
    (perm_ext_iff_of_nodup (hs1.imp fun h => Nat.ne_of_lt h)
      (hs2.imp fun h => Nat.ne_of_lt h)).mpr hmem
  exact hperm.eq_of_pairwise (fun a b _ _ h1 h2 => absurd h1 (Nat.lt_asymm h2)) hs1 hs2

/-- The runs pushed for the pages below `P`, the last run first. -/
structure RunsInv (dirty : DirtyBitmap) (P : Nat) (acc : List (Nat × Nat)) : Prop where
  pages : acc.reverse.flatMap runPages = (range P).filter (· ∈ dirty)
  shape : ∀ r ∈ acc, r.1 % DIFF_PAGE_BYTES = 0 ∧ 0 < r.2 ∧ r.2 ≤ MAX_DIFF_RUN_PAGES
  count : acc.length = ((range P).filter (startsRun dirty ·)).length
  none : acc = [] → stretchBefore dirty P = 0
  last : ∀ start n rest, acc = (start, n) :: rest →
    start / DIFF_PAGE_BYTES + n ≤ P ∧
      (start / DIFF_PAGE_BYTES + n = P →
        stretchBefore dirty P % MAX_DIFF_RUN_PAGES = n % MAX_DIFF_RUN_PAGES) ∧
      (start / DIFF_PAGE_BYTES + n < P → stretchBefore dirty P = 0)

theorem filter_range_succ_of_neg {q : Nat → Bool} (h : q P = false) :
    (range (P + 1)).filter q = (range P).filter q := by
  simp [range_succ, filter_append, h]

theorem filter_range_succ_of_pos {q : Nat → Bool} (h : q P = true) :
    (range (P + 1)).filter q = (range P).filter q ++ [P] := by
  simp [range_succ, filter_append, h]

theorem RunsInv.clean (h : RunsInv dirty P acc) (hP : P ∉ dirty) : RunsInv dirty (P + 1) acc := by
  have hstretch : stretchBefore dirty (P + 1) = 0 := by simp [stretchBefore, hP]
  refine ⟨?_, h.shape, ?_, fun _ => hstretch, ?_⟩
  · rw [filter_range_succ_of_neg (by simpa using hP), h.pages]
  · rw [filter_range_succ_of_neg (by simp [startsRun, hP]), h.count]
  · intro start n rest hacc
    obtain ⟨hle, _, _⟩ := h.last start n rest hacc
    exact ⟨by omega, fun he => by omega, fun _ => hstretch⟩

theorem RunsInv.newRun (h : RunsInv dirty P acc) (hP : P ∈ dirty)
    (hs : stretchBefore dirty P % MAX_DIFF_RUN_PAGES = 0) :
    RunsInv dirty (P + 1) ((P * DIFF_PAGE_BYTES, 1) :: acc) := by
  have hpos : 0 < DIFF_PAGE_BYTES := by decide
  have hdiv : P * DIFF_PAGE_BYTES / DIFF_PAGE_BYTES = P := Nat.mul_div_cancel _ hpos
  have hstretch : stretchBefore dirty (P + 1) = stretchBefore dirty P + 1 := by
    simp [stretchBefore, hP]
  refine ⟨?_, ?_, ?_, by simp, ?_⟩
  · rw [filter_range_succ_of_pos (by simpa using hP), reverse_cons, flatMap_append,
      h.pages]
    simp [runPages, hdiv]
  · exact forall_mem_cons.mpr
      ⟨⟨Nat.mul_mod_left _ _, Nat.one_pos, (by decide : 1 ≤ MAX_DIFF_RUN_PAGES)⟩, h.shape⟩
  · rw [filter_range_succ_of_pos (by simp [startsRun, hP, hs])]
    simp [h.count]
  · intro start n rest hacc
    obtain ⟨⟨rfl, rfl⟩, _⟩ := hacc
    rw [hdiv, hstretch]
    refine ⟨le_refl _, fun _ => ?_, fun hlt => by omega⟩
    rw [Nat.add_mod, hs, Nat.zero_add, Nat.mod_mod]

theorem RunsInv.extend {start n : Nat} {rest : List (Nat × Nat)}
    (h : RunsInv dirty P ((start, n) :: rest)) (hP : P ∈ dirty)
    (hend : start / DIFF_PAGE_BYTES + n = P) (hn : n < MAX_DIFF_RUN_PAGES) :
    RunsInv dirty (P + 1) ((start, n + 1) :: rest) := by
  obtain ⟨⟨hmod, hpos, _⟩, hshape⟩ := forall_mem_cons.mp h.shape
  obtain ⟨_, hst, _⟩ := h.last start n rest rfl
  have hcount := hst hend
  rw [Nat.mod_eq_of_lt hn] at hcount
  have hstretch : stretchBefore dirty (P + 1) = stretchBefore dirty P + 1 := by
    simp [stretchBefore, hP]
  have hpages := h.pages
  rw [reverse_cons, flatMap_append] at hpages
  refine ⟨?_, ?_, ?_, by simp, ?_⟩
  · rw [filter_range_succ_of_pos (by simpa using hP), ← hpages, reverse_cons,
      flatMap_append]
    simp [runPages, range'_concat, hend]
  · exact forall_mem_cons.mpr ⟨⟨hmod, by dsimp only; omega, by dsimp only; omega⟩, hshape⟩
  · rw [filter_range_succ_of_neg (by simp [startsRun, hcount]; omega), ← h.count]
    simp
  · intro s m r hacc
    obtain ⟨⟨rfl, rfl⟩, _⟩ := hacc
    rw [hstretch]
    refine ⟨by omega, fun _ => ?_, fun hlt => by omega⟩
    rw [Nat.add_mod, hcount, Nat.add_mod n 1, Nat.mod_eq_of_lt hn]

/-- A dirty page starts a run or makes the last one longer. -/
theorem RunsInv.push (h : RunsInv dirty P acc) (hP : P ∈ dirty) :
    RunsInv dirty (P + 1) (pushRun acc P) := by
  match acc, h with
  | [], h => exact h.newRun hP (by rw [h.none rfl]; rfl)
  | (start, n) :: rest, h =>
    by_cases hjoin : start / DIFF_PAGE_BYTES + n = P ∧ n < MAX_DIFF_RUN_PAGES
    · rw [pushRun, if_pos hjoin]
      exact h.extend hP hjoin.1 hjoin.2
    rw [pushRun, if_neg hjoin]
    obtain ⟨hle, heq, hlt⟩ := h.last start n rest rfl
    have hn := (h.shape (start, n) (by simp)).2.2
    refine h.newRun hP ?_
    by_cases he : start / DIFF_PAGE_BYTES + n = P
    · have hfull : n = MAX_DIFF_RUN_PAGES := by omega
      rw [heq he, hfull, Nat.mod_self]
    · rw [hlt (by omega)]
      rfl

theorem runsInv_foldl (P : Nat) :
    RunsInv dirty P (((range P).filter (· ∈ dirty)).foldl pushRun []) := by
  induction P with
  | zero => exact ⟨rfl, by simp, rfl, fun _ => rfl, by simp⟩
  | succ P ih =>
    by_cases hP : P ∈ dirty
    · rw [filter_range_succ_of_pos (by simpa using hP), foldl_append]
      exact ih.push hP
    · rw [filter_range_succ_of_neg (by simpa using hP)]
      exact ih.clean hP

section Runs

variable {dirty : DirtyBitmap} {mem_len : Nat} (hm : mem_len < u64Size)

include hm

/-- The runs of a whole scan, by induction over the pages. -/
theorem dirtyPageRuns_inv (dirty : DirtyBitmap) :
    RunsInv dirty (pageCount mem_len) (dirtyPageRuns dirty mem_len).reverse := by
  rw [dirtyPageRuns, reverse_reverse, dirtyPfns_eq hm]
  exact runsInv_foldl _

/-- The runs list the dirty pages of RAM in order. -/
theorem dirtyPageRuns_pages :
    (dirtyPageRuns dirty mem_len).flatMap runPages =
      (range (pageCount mem_len)).filter (· ∈ dirty) := by
  have h := (dirtyPageRuns_inv hm dirty).pages
  rwa [reverse_reverse] at h

theorem dirtyPageRuns_length :
    (dirtyPageRuns dirty mem_len).length = runStarts dirty mem_len := by
  have h := (dirtyPageRuns_inv hm dirty).count
  rwa [length_reverse] at h

theorem dirtyPageRuns_apart :
    (dirtyPageRuns dirty mem_len).Pairwise fun a b => a.1 + a.2 * DIFF_PAGE_BYTES ≤ b.1 := by
  have hsorted : ((dirtyPageRuns dirty mem_len).flatMap runPages).Pairwise (· < ·) := by
    rw [dirtyPageRuns_pages hm]
    exact pairwise_lt_range.filter _
  rw [pairwise_flatMap] at hsorted
  have hshape := (dirtyPageRuns_inv hm dirty).shape
  refine hsorted.2.imp_of_mem ?_
  intro a b ha hb hlt
  obtain ⟨ha1, ha2, _⟩ := hshape a (by simpa using ha)
  obtain ⟨hb1, hb2, _⟩ := hshape b (by simpa using hb)
  have hab := hlt (a.1 / DIFF_PAGE_BYTES + (a.2 - 1))
    (mem_range'_1.mpr ⟨by omega, by omega⟩) (b.1 / DIFF_PAGE_BYTES)
    (mem_range'_1.mpr ⟨le_refl _, by omega⟩)
  simp only [DIFF_PAGE_BYTES] at *
  omega

theorem mem_dirtyPageRuns (dirty : DirtyBitmap) :
    (∃ r ∈ dirtyPageRuns dirty mem_len, r.1 / DIFF_PAGE_BYTES ≤ p ∧
        p < r.1 / DIFF_PAGE_BYTES + r.2) ↔ p ∈ dirty ∧ p * DIFF_PAGE_BYTES < mem_len := by
  have hmem : p ∈ (dirtyPageRuns dirty mem_len).flatMap runPages ↔
      p ∈ dirty ∧ p * DIFF_PAGE_BYTES < mem_len := by
    rw [dirtyPageRuns_pages hm]
    simp only [mem_filter, mem_range, lt_pageCount, decide_eq_true_eq]
    exact and_comm
  rw [← hmem, mem_flatMap]
  simp only [runPages, mem_range'_1]

theorem dirtyPageRuns_shape :
    ∀ r ∈ dirtyPageRuns dirty mem_len,
      r.1 % DIFF_PAGE_BYTES = 0 ∧ 0 < r.2 ∧ r.2 ≤ MAX_DIFF_RUN_PAGES := by
  intro r hr
  exact (dirtyPageRuns_inv hm dirty).shape r (by simpa using hr)

end Runs

/-- If `b` starts where `a` ends, the two together are longer than a run may be. -/
def Unmergeable (a b : Nat × Nat) : Prop :=
  a.1 + a.2 * DIFF_PAGE_BYTES = b.1 → MAX_DIFF_RUN_PAGES < a.2 + b.2

theorem pushRun_unmergeable (h : acc.IsChain fun b a => Unmergeable a b) (pfn : Nat) :
    (pushRun acc pfn).IsChain fun b a => Unmergeable a b := by
  unfold pushRun
  split
  swap
  · exact .singleton _
  rename_i start pages rest
  split
  · cases rest with
    | nil => exact .singleton _
    | cons a rest =>
      obtain ⟨hhead, hrest⟩ := isChain_cons_cons.mp h
      exact isChain_cons_cons.mpr ⟨fun hend => Nat.lt_succ_of_lt (hhead hend), hrest⟩
  · next hjoin =>
    refine isChain_cons_cons.mpr ⟨fun hend => ?_, h⟩
    simp only [DIFF_PAGE_BYTES] at hend hjoin ⊢
    omega

theorem foldl_unmergeable (pfns : List Nat) (h : acc.IsChain fun b a => Unmergeable a b) :
    (pfns.foldl pushRun acc).IsChain fun b a => Unmergeable a b := by
  induction pfns generalizing acc with
  | nil => exact h
  | cons pfn pfns ih => exact ih (pushRun_unmergeable h pfn)

/-- The runs are apart and in order, none is empty or longer than the cap, they cover exactly the
dirty pages that start inside RAM, and no two neighbours fit into one run. -/
theorem dirtyPageRuns_exact (dirty : DirtyBitmap) (mem_len : UInt64) :
    let runs := dirtyPageRuns dirty mem_len.toNat
    (runs.Pairwise fun a b => a.1 + a.2 * DIFF_PAGE_BYTES ≤ b.1) ∧
      (∀ r ∈ runs, r.1 % DIFF_PAGE_BYTES = 0 ∧ 0 < r.2 ∧ r.2 ≤ MAX_DIFF_RUN_PAGES) ∧
      (∀ p, (∃ r ∈ runs, r.1 / DIFF_PAGE_BYTES ≤ p ∧ p < r.1 / DIFF_PAGE_BYTES + r.2) ↔
        p ∈ dirty ∧ p * DIFF_PAGE_BYTES < mem_len.toNat) ∧ runs.IsChain Unmergeable := by
  have hm : mem_len.toNat < u64Size := mem_len.toNat_lt
  have hchain := foldl_unmergeable (dirtyPfns dirty mem_len.toNat) .nil
  exact ⟨dirtyPageRuns_apart hm, dirtyPageRuns_shape hm, fun _ => mem_dirtyPageRuns hm dirty,
    isChain_reverse.mpr hchain⟩

/-- Every other page, `n` of them. -/
def alternatePages (n : Nat) : DirtyBitmap := (Finset.range (2 * n)).filter (· % 2 = 0)

theorem stretchBefore_alternatePages {n : Nat} (hp : p % 2 = 0) :
    stretchBefore (alternatePages n) p = 0 := by
  cases p with
  | zero => rfl
  | succ p =>
    have hodd : p ∉ alternatePages n := by
      simp only [alternatePages, Finset.mem_filter]
      omega
    rw [stretchBefore, if_neg hodd]

/-- Pages that do not touch need one run each. -/
theorem runStarts_alternatePages (n : Nat) :
    runStarts (alternatePages n) (2 * n * DIFF_PAGE_BYTES) = n := by
  have hcount : pageCount (2 * n * DIFF_PAGE_BYTES) = 2 * n := by
    unfold pageCount DIFF_PAGE_BYTES
    omega
  have hstart : ∀ p ∈ range (2 * n),
      decide (startsRun (alternatePages n) p) = decide (p % 2 = 0) := by
    intro p hp
    by_cases heven : p % 2 = 0
    · have hin : p ∈ alternatePages n := by
        simp only [alternatePages, Finset.mem_filter, Finset.mem_range]
        exact ⟨mem_range.mp hp, heven⟩
      simp [startsRun, hin, heven, stretchBefore_alternatePages heven]
    · simp [startsRun, alternatePages, heven]
  have heven : ∀ m, ((range (2 * m)).filter (fun p => p % 2 = 0)).length = m := by
    intro m
    induction m with
    | zero => rfl
    | succ m ih =>
      rw [show 2 * (m + 1) = 2 * m + 1 + 1 by omega, filter_range_succ_of_neg (by simp),
        filter_range_succ_of_pos (by simp), length_append, ih]
      rfl
  rw [runStarts, hcount, filter_congr hstart]
  exact heven n

end Tarit.Snapshot
