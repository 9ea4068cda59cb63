import Mathlib.Data.List.TakeDrop
import Mathlib.Data.Nat.Notation

/-!
# JSON text

Strings as a JSON writer spells them, and a reader that takes a number off the front of a text.
-/
namespace Tarit.Lib.JsonText

open List

/-! ## Numbers -/

def readNat (text : List Char) : Option (Nat × List Char) :=
  if text.takeWhile Char.isDigit = [] then none
  else some (Nat.ofDigitChars 10 (text.takeWhile Char.isDigit) 0, text.dropWhile Char.isDigit)

/-- The text does not go on with a digit. -/
def Ends (rest : List Char) : Prop := ∀ c ∈ rest.head?, c.isDigit = false

theorem isDigit_of_mem_toDigits {n : Nat} : ∀ c ∈ Nat.toDigits 10 n, c.isDigit = true :=
  fun _ hc => Nat.isDigit_of_mem_toDigits (by decide) (by decide) hc

variable {rest : List Char}

theorem takeWhile_of_ends (h : Ends rest) : rest.takeWhile Char.isDigit = [] := by
  cases rest with
  | nil => rfl
  | cons c rest => exact takeWhile_cons_of_neg (by rw [h c rfl]; decide)

theorem dropWhile_of_ends (h : Ends rest) : rest.dropWhile Char.isDigit = rest := by
  cases rest with
  | nil => rfl
  | cons c rest => exact dropWhile_cons_of_neg (by rw [h c rfl]; decide)

theorem readNat_toDigits (n : Nat) (h : Ends rest) :
    readNat (Nat.toDigits 10 n ++ rest) = some (n, rest) := by
  have htake : (Nat.toDigits 10 n ++ rest).takeWhile Char.isDigit = Nat.toDigits 10 n := by
    rw [takeWhile_append_of_pos isDigit_of_mem_toDigits, takeWhile_of_ends h, append_nil]
  have hdrop : (Nat.toDigits 10 n ++ rest).dropWhile Char.isDigit = rest := by
    rw [dropWhile_append_of_pos isDigit_of_mem_toDigits, dropWhile_of_ends h]
  rw [readNat, htake, if_neg Nat.toDigits_ne_nil, hdrop,
    Nat.ofDigitChars_toDigits (by decide) (by decide)]

/-! ## Strings -/

def hexDigit (n : Nat) : Char := Nat.digitChar n

/-- One character between the quotes. -/
def escape (c : Char) : List Char :=
  if c = '"' then ['\\', '"']
  else if c = '\\' then ['\\', '\\']
  else if c = '\n' then ['\\', 'n']
  else if c = '\r' then ['\\', 'r']
  else if c = '\t' then ['\\', 't']
  else if c = '\x08' then ['\\', 'b']
  else if c = '\x0c' then ['\\', 'f']
  else if c.toNat < 32 then ['\\', 'u', '0', '0', hexDigit (c.toNat / 16), hexDigit (c.toNat % 16)]
  else [c]

def writeString (s : List Char) : List Char := s.flatMap escape

def unescape (c : Char) : Option Char :=
  if c = '"' ∨ c = '\\' ∨ c = '/' then some c
  else if c = 'n' then some '\n'
  else if c = 'r' then some '\r'
  else if c = 't' then some '\t'
  else if c = 'b' then some '\x08'
  else if c = 'f' then some '\x0c'
  else none

end Tarit.Lib.JsonText
