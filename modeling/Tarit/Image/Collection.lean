import Mathlib.Data.List.Infix

/-!
# The images the collector picks

`select_gc_candidates` takes the images that no record or warm pool uses, that are old enough,
and whose reference fits a pattern with stars. The matcher looks for the parts between the stars
from left to right, each at its leftmost place, and then compares the last part with the end of
the whole text.
-/
namespace Tarit.Image

open List

abbrev Text := List Char

/-- `str::find`: the leftmost place of `part`. -/
def find (part text : Text) : Option Nat := text.tails.findIdx? part.isPrefixOf

/-- The loop over the parts. What is left of the text, or none if a part is not found. -/
def matchParts (anchored : Bool) : List Text → Text → Option Text
  | [], rest => some rest
  | part :: parts, rest =>
    match find part rest with
    | none => none
    | some pos =>
      if anchored && pos != 0 then none else matchParts false parts (rest.drop (pos + part.length))

def wildcardMatch (pattern text : Text) : Bool :=
  if pattern = ['*'] then true
  else if '*' ∉ pattern then pattern == text
  else
    let parts := (pattern.splitOn '*').filter (!·.isEmpty)
    if parts.isEmpty then true
    else
      match matchParts (pattern.head? != some '*') parts text with
      | none => false
      | some _ =>
        if pattern.getLast? != some '*' then parts.getLast?.all (·.isSuffixOf text) else true

structure ImageRecord where
  name : Text
  tag : Text
  rootfs_path : Text
  created_at : Int

def ImageRecord.reference (image : ImageRecord) : Text := image.name ++ ':' :: image.tag

def selectGcCandidates (images : List ImageRecord) (protected_paths : List Text) (now min_age : Int)
    (pattern : Option Text) : List ImageRecord :=
  ((images.filter (·.rootfs_path ∉ protected_paths)).filter (min_age ≤ now - ·.created_at)).filter
    fun image => pattern.all (wildcardMatch · image.reference)

/-! ## The language of a pattern -/

/-- A star stands for any string, every other character for itself. -/
def Glob : Text → Text → Prop
  | [], text => text = []
  | c :: p, text =>
    if c = '*' then ∃ any after, text = any ++ after ∧ Glob p after
    else ∃ after, text = c :: after ∧ Glob p after

/-- The parts stand in the text one after the other, and nothing follows the last. -/
def Follow : List Text → Text → Prop
  | [], text => text = []
  | part :: parts, text => ∃ before after, text = before ++ (part ++ after) ∧ Follow parts after

/-- The first part starts the text. -/
def Joined : List Text → Text → Prop
  | [], _ => False
  | first :: parts, text => ∃ after, text = first ++ after ∧ Follow parts after

variable {part text rest : Text} {parts : List Text} {pos : Nat}

theorem glob_iff_joined (p text : Text) : Glob p text ↔ Joined (p.splitOn '*') text := by
  induction p generalizing text with
  | nil => simp [Glob, splitOn_nil, Joined, Follow]
  | cons c p ih =>
    rw [splitOn_cons_eq_if_modifyHead]
    cases hparts : p.splitOn '*' with
    | nil => exact (splitOn_ne_nil _ _ hparts).elim
    | cons first parts =>
      simp only [hparts, Joined] at ih
      by_cases hc : c = '*'
      · simp [Glob, ih, hc, Joined, Follow]
      · simp [Glob, ih, hc, Joined]

/-! ## The leftmost places -/

theorem eq_of_find (h : find part text = some pos) :
    text = text.take pos ++ (part ++ text.drop (pos + part.length)) := by
  obtain ⟨hlt, hstarts, -⟩ := findIdx?_eq_some_iff_getElem.mp h
  rw [getElem_tails, isPrefixOf_iff_prefix] at hstarts
  obtain ⟨after, hafter⟩ := hstarts
  rw [← drop_drop, ← hafter, drop_left, hafter, take_append_drop]

theorem find_le (part before after : Text) :
    ∃ pos ≤ before.length, find part (before ++ (part ++ after)) = some pos := by
  have hstarts : part.isPrefixOf (part ++ after) := isPrefixOf_iff_prefix.mpr (prefix_append ..)
  cases hfind : find part (before ++ (part ++ after)) with
  | none =>
    have hnone := findIdx?_eq_none_iff.mp hfind _ ((mem_tails _ _).mpr (suffix_append ..))
    rw [hstarts] at hnone
    cases hnone
  | some pos =>
    refine ⟨pos, not_lt.mp fun hlt => ?_, rfl⟩
    obtain ⟨hlen, -, hleast⟩ := findIdx?_eq_some_iff_getElem.mp hfind
    apply hleast before.length hlt
    rwa [getElem_tails, drop_left]

theorem follow_of_suffix (hne : parts ≠ []) (h : Follow parts rest) (hrest : rest <:+ text) :
    Follow parts text := by
  obtain ⟨skipped, rfl⟩ := hrest
  cases parts with
  | nil => exact absurd rfl hne
  | cons part parts =>
    obtain ⟨before, after, rfl, hafter⟩ := h
    exact ⟨skipped ++ before, after, (append_assoc ..).symm, hafter⟩

/-- The leftmost place of a part is as good as any other. -/
theorem follow_cons (hne : parts ≠ []) : Follow (part :: parts) text ↔
    ∃ pos, find part text = some pos ∧ Follow parts (text.drop (pos + part.length)) := by
  constructor
  · rintro ⟨before, after, rfl, hafter⟩
    obtain ⟨pos, hle, hpos⟩ := find_le part before after
    refine ⟨pos, hpos, follow_of_suffix hne hafter ?_⟩
    refine suffix_of_suffix_length_le ⟨before ++ part, append_assoc ..⟩ (drop_suffix ..) ?_
    simp only [length_drop, length_append]
    omega
  · intro ⟨pos, hpos, hparts⟩
    exact ⟨_, _, eq_of_find hpos, hparts⟩

/-- The last part may be compared with the end of the whole text. -/
theorem follow_iff {init : List Text} {last : Text} (hrest : rest <:+ text) :
    Follow (init ++ [last]) rest ↔
      (matchParts false (init ++ [last]) rest).isSome ∧ last <:+ text := by
  induction init generalizing rest with
  | nil =>
    constructor
    · rintro ⟨before, _, rfl, rfl⟩
      obtain ⟨pos, -, hpos⟩ := find_le last before []
      rw [append_nil] at hpos hrest
      exact ⟨by simp [matchParts, hpos], (suffix_append ..).trans hrest⟩
    · intro ⟨hfound, hlast⟩
      cases hpos : find last rest with
      | none => simp [matchParts, hpos] at hfound
      | some pos =>
        have hlen := congrArg length (eq_of_find hpos)
        simp only [length_append] at hlen
        obtain ⟨before, rfl⟩ := suffix_of_suffix_length_le hlast hrest (by omega)
        exact ⟨before, [], by rw [append_nil], rfl⟩
  | cons part init ih =>
    rw [cons_append, follow_cons (by simp)]
    cases hpos : find part rest with
    | none => simp [matchParts, hpos]
    | some pos =>
      have hdrop : rest.drop (pos + part.length) <:+ text := (drop_suffix ..).trans hrest
      simp [matchParts, hpos, ih hdrop]

theorem matchParts_filter :
    matchParts false (parts.filter (!·.isEmpty)) text = matchParts false parts text := by
  induction parts generalizing text with
  | nil => rfl
  | cons part parts ih =>
    cases part with
    | nil =>
      have hfind : find [] text = some 0 := by cases text <;> rfl
      simp [matchParts, hfind, ih]
    | cons c part => simp [matchParts, ih]

/-- The first part is looked for at the start of the text, or is empty. -/
theorem matchParts_first {first : Text} {anchored : Bool} (h : anchored = false ↔ first = [])
    (parts : List Text) (text : Text) :
    (matchParts anchored ((first :: parts).filter (!·.isEmpty)) text).isSome ↔
      ∃ after, text = first ++ after ∧ (matchParts false parts after).isSome := by
  cases first with
  | nil => simp [h.mpr rfl, matchParts_filter]
  | cons c first =>
    have hanchored : anchored = true := by simpa using h
    rw [filter_cons_of_pos (by rfl), hanchored]
    constructor
    · intro hsome
      cases hpos : find (c :: first) text with
      | none => simp [matchParts, hpos] at hsome
      | some pos =>
        have htext := eq_of_find hpos
        simp only [matchParts, hpos] at hsome
        cases pos with
        | zero => exact ⟨_, by simpa using htext, by simpa [matchParts_filter] using hsome⟩
        | succ pos => cases hsome
    · rintro ⟨after, rfl, hafter⟩
      obtain ⟨pos, hle, hpos⟩ := find_le (c :: first) [] after
      obtain rfl := Nat.le_zero.mp hle
      rw [nil_append] at hpos
      rw [matchParts, hpos]
      simpa [matchParts_filter] using hafter

theorem head_star_iff {pattern first : Text} (hne : pattern ≠ [])
    (h : pattern.splitOn '*' = first :: parts) :
    (pattern.head? != some '*') = false ↔ first = [] := by
  cases pattern with
  | nil => exact absurd rfl hne
  | cons c p =>
    rw [splitOn_cons_eq_if_modifyHead] at h
    by_cases hc : c = '*'
    · simp [hc] at h
      simp [hc, h.1]
    · obtain ⟨q, qs, hp⟩ := exists_cons_of_ne_nil (splitOn_ne_nil '*' p)
      simp [hp, hc] at h
      simp [hc, ← h.1]

theorem last_star_iff {last : Text} (hlast : '*' ∉ last) (parts : List Text) (before text : Text) :
    (if (before ++ '*' :: last).getLast? != some '*' then
      ((parts ++ [last]).filter (!·.isEmpty)).getLast?.all (·.isSuffixOf text) else true) = true ↔
      last <:+ text := by
  cases last with
  | nil => simp
  | cons c last => simpa using fun h => absurd (mem_of_getLast? h) hlast

theorem matched_iff {anchored suffix : Bool} {ends : Text → Bool} :
    (if parts.isEmpty then true else
      match matchParts anchored parts text with
      | none => false
      | some _ => if suffix then parts.getLast?.all ends else true) = true ↔
      (matchParts anchored parts text).isSome ∧
        (if suffix then parts.getLast?.all ends else true) = true := by
  cases parts with
  | nil => simp [matchParts]
  | cons part parts =>
    simp only [isEmpty_cons]
    cases matchParts anchored (part :: parts) text <;> simp

theorem wildcardMatch_iff (pattern text : Text) :
    wildcardMatch pattern text = true ↔ Glob pattern text := by
  unfold wildcardMatch
  split
  · next hstar => simp [hstar, Glob]
  rw [glob_iff_joined]
  split
  · next hnone =>
    simp only [splitOn_eq_singleton hnone, Joined, Follow, exists_eq_right, append_nil, beq_iff_eq]
    exact eq_comm
  rename_i hmem
  -- the last part is what follows the last star
  obtain ⟨last, before, hreverse, hlast⟩ :=
    eq_append_cons_of_mem (mem_reverse.mpr (not_not.mp hmem))
  obtain rfl : pattern = before.reverse ++ '*' :: last.reverse := by
    rw [← reverse_reverse pattern, hreverse]
    simp
  rw [← mem_reverse] at hlast
  obtain ⟨first, init, hfirst⟩ := exists_cons_of_ne_nil (splitOn_ne_nil '*' before.reverse)
  have hparts : (before.reverse ++ '*' :: last.reverse).splitOn '*' =
      first :: (init ++ [last.reverse]) := by
    rw [splitOn_append_cons_self, splitOn_eq_singleton hlast, hfirst, cons_append]
  rw [matched_iff, hparts, matchParts_first (head_star_iff (by simp) hparts), ← cons_append,
    last_star_iff hlast, ← exists_and_right]
  refine exists_congr fun after => ?_
  rw [and_assoc]
  exact and_congr_right fun h => (follow_iff (h ▸ suffix_append ..)).symm

/-- The collector picks exactly the images that nothing uses, that are old enough and whose
reference is in the language of the pattern. -/
theorem collected_images_fit_pattern :
    (∀ pattern text, wildcardMatch pattern text = true ↔ Glob pattern text) ∧
      ∀ images protected_paths now min_age pattern image,
        image ∈ selectGcCandidates images protected_paths now min_age pattern ↔
          image ∈ images ∧ image.rootfs_path ∉ protected_paths ∧
            min_age ≤ now - image.created_at ∧ ∀ p ∈ pattern, Glob p image.reference := by
  refine ⟨wildcardMatch_iff, fun images protected_paths now min_age pattern image => ?_⟩
  simp only [selectGcCandidates, mem_filter, decide_eq_true_eq, and_assoc, Option.all_eq_true,
    wildcardMatch_iff]
  rfl

end Tarit.Image
