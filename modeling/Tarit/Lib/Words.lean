import Mathlib.Data.List.Basic

/-!
# Splitting texts

The methods of `str` that the models use, on lists of characters: white space is Unicode's, and
the pieces of a split are the text in order.
-/
namespace Tarit.Lib

open List

/-- `char::is_whitespace`: the property `White_Space` of Unicode. -/
def isWhitespace (c : Char) : Bool :=
  (0x9 ≤ c.toNat && c.toNat ≤ 0xD) || (0x2000 ≤ c.toNat && c.toNat ≤ 0x200A) ||
    [0x20, 0x85, 0xA0, 0x1680, 0x2028, 0x2029, 0x202F, 0x205F, 0x3000].contains c.toNat

def splitWhitespace (text : List Char) : List (List Char) :=
  (text.splitOnP isWhitespace).filter fun word => !word.isEmpty

def trim (text : List Char) : List Char :=
  (((text.dropWhile isWhitespace).reverse).dropWhile isWhitespace).reverse

/-- `rsplit_once`: before and after the last occurrence. -/
def rsplitOnce (pattern : List Char) : List Char → Option (List Char × List Char)
  | [] => none
  | c :: text =>
    match rsplitOnce pattern text with
    | some (before, after) => some (c :: before, after)
    | none =>
      if pattern.isPrefixOf (c :: text) then some ([], (c :: text).drop pattern.length) else none

/-- `split_once`: before and after the first occurrence. -/
def splitOnce (c : Char) (text : List Char) : Option (List Char × List Char) :=
  match text.dropWhile (· ≠ c) with
  | [] => none
  | _ :: after => some (text.takeWhile (· ≠ c), after)

def hasInfix (pattern : List Char) : List Char → Bool
  | [] => pattern.isEmpty
  | c :: text => pattern.isPrefixOf (c :: text) || hasInfix pattern text

def allDigits (text : List Char) : Bool := text.all Char.isDigit

/-- `parse::<u32>()` and the like, of numbers below `bound`. -/
def parseUnsigned (bound : Nat) (text : List Char) : Option Nat :=
  let digits := match text with
    | '+' :: digits => digits
    | digits => digits
  if digits.isEmpty || !allDigits digits then none
  else some (Nat.ofDigitChars 10 digits 0) |>.filter (· < bound)

theorem rsplitOnce_cons {pattern text before after : List Char} {c : Char}
    (h : rsplitOnce pattern (c :: text) = some (before, after)) :
    before = [] ∨ ∃ before', before = c :: before' := by
  unfold rsplitOnce at h
  split at h
  · obtain ⟨rfl, _⟩ := Prod.mk.inj (Option.some.inj h)
    exact .inr ⟨_, rfl⟩
  · split at h
    · obtain ⟨rfl, _⟩ := Prod.mk.inj (Option.some.inj h)
      exact .inl rfl
    · cases h

/-- A text that starts with no white space has its first word at its start. -/
theorem splitWhitespace_cons {c : Char} (text : List Char) (hc : isWhitespace c = false) :
    ∃ word rest, splitWhitespace (c :: text) = (c :: word) :: rest := by
  unfold splitWhitespace
  rw [splitOnP_cons_eq_if_modifyHead, hc]
  obtain ⟨word, rest, hsplit⟩ := exists_cons_of_ne_nil (splitOnP_ne_nil isWhitespace text)
  rw [hsplit]
  exact ⟨word, rest.filter fun word => !word.isEmpty, rfl⟩

end Tarit.Lib
