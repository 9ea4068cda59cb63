import Mathlib.Data.List.Basic
import Mathlib.Tactic.Ring

/-!
# Byte strings: fixed-width little-endian words, chunks and positioned copies

Nothing here mentions a file format. A word is written low byte first in a fixed
number of bytes; `copyAt` is a positioned overwrite inside an existing buffer, and
`chunks` cuts a buffer into pieces of one length with a shorter last piece.
-/
namespace Tarit.Lib

open List

abbrev Bytes := List UInt8

/-- The `width` low bytes of `n`, least significant first. -/
def toLeBytes : Nat → Nat → Bytes
  | 0, _ => []
  | width + 1, n => UInt8.ofNat n :: toLeBytes width (n / 256)

/-- The number a byte string spells, least significant byte first. -/
def fromLeBytes : Bytes → Nat
  | [] => 0
  | b :: bs => b.toNat + 256 * fromLeBytes bs

variable {width n : Nat}

@[simp] theorem toLeBytes_length : (toLeBytes width n).length = width := by
  induction width generalizing n with
  | zero => rfl
  | succ width ih => simp [toLeBytes, ih]

variable {n pos : Nat}

theorem fromLeBytes_toLeBytes {width : Nat} (hn : n < 256 ^ width) :
    fromLeBytes (toLeBytes width n) = n := by
  induction width generalizing n with
  | zero =>
    have h0 : n = 0 := by simpa using hn
    simp [toLeBytes, fromLeBytes, h0]
  | succ width ih =>
    have hq : n / 256 < 256 ^ width := by
      rw [Nat.div_lt_iff_lt_mul (by decide)]
      rwa [Nat.pow_succ] at hn
    rw [toLeBytes, fromLeBytes, ih hq]
    have hm : (UInt8.ofNat n).toNat = n % 256 := by simp
    rw [hm]
    exact Nat.mod_add_div n 256

section Copy

variable {α : Type}

/-- Overwrite `mem[at .. at + data.len()]` with `data`. -/
def copyAt (mem : List α) (pos : Nat) (data : List α) : List α :=
  mem.take pos ++ data ++ mem.drop (pos + data.length)

def slice (mem : List α) (start len : Nat) : List α := (mem.drop start).take len

variable {mem data : List α} {start len : Nat}

theorem copyAt_length (h : pos + data.length ≤ mem.length) :
    (copyAt mem pos data).length = mem.length := by
  simp only [copyAt, length_append, length_take, length_drop]
  omega

theorem copyAt_all (h : data.length = mem.length) : copyAt mem 0 data = data := by
  simp [copyAt, h]

theorem getElem?_copyAt (h : pos + data.length ≤ mem.length) (i : Nat) :
    (copyAt mem pos data)[i]? =
      if pos ≤ i ∧ i < pos + data.length then data[i - pos]? else mem[i]? := by
  have hl : (mem.take pos).length = pos := by rw [length_take]; omega
  unfold copyAt
  by_cases hlo : i < pos
  · rw [if_neg (by omega), append_assoc, getElem?_append_left (by omega),
      getElem?_take_of_lt hlo]
  by_cases hhi : i < pos + data.length
  · rw [if_pos ⟨by omega, hhi⟩, append_assoc, getElem?_append_right (by omega), hl,
      getElem?_append_left (by omega)]
  · rw [if_neg (by omega), getElem?_append_right (by simp; omega), getElem?_drop]
    congr 1
    simp only [length_append, hl]
    omega

theorem slice_length (h : start + len ≤ mem.length) : (slice mem start len).length = len := by
  simp only [slice, length_take, length_drop]
  omega

theorem getElem?_slice (i : Nat) :
    (slice mem start len)[i]? = if i < len then mem[start + i]? else none := by
  unfold slice
  by_cases h : i < len
  · rw [if_pos h, getElem?_take_of_lt h, getElem?_drop]
  · rw [if_neg h, getElem?_eq_none (by simp; omega)]

theorem slice_append_right (a b : List α) :
    slice (a ++ b) (a.length + start) len = slice b start len := by
  unfold slice
  rw [← drop_drop, drop_left]

theorem slice_mid {a b c : List α} (ha : a.length = start) (hb : b.length = len) :
    slice (a ++ (b ++ c)) start len = b := by
  subst ha hb
  unfold slice
  rw [drop_left, take_left]

theorem slice_add (m n : Nat) :
    slice mem start (m + n) = slice mem start m ++ slice mem (start + m) n := by
  unfold slice
  rw [take_add, drop_drop]

theorem slice_full (a : List α) : slice a 0 a.length = a := by
  simp [slice]

/-- Cut `data` into pieces of `size`; `fuel` bounds the number of pieces. -/
def chunksFrom (size : Nat) : Nat → List α → List (List α)
  | 0, _ => []
  | _ + 1, [] => []
  | fuel + 1, data => data.take size :: chunksFrom size fuel (data.drop size)

/-- `slice::chunks`: consecutive pieces of `size`, the last possibly shorter. -/
def chunks (size : Nat) (data : List α) : List (List α) := chunksFrom size data.length data

theorem slice_slice {delta : Nat} (h : delta + n ≤ len) :
    slice (slice mem start len) delta n = slice mem (start + delta) n := by
  apply ext_getElem?
  intro i
  rw [getElem?_slice, getElem?_slice, getElem?_slice]
  by_cases hi : i < n
  · rw [if_pos hi, if_pos hi, if_pos (by omega), Nat.add_assoc]
  · rw [if_neg hi, if_neg hi]

theorem chunks_flatMap {β : Type} {size : Nat} (hs : 0 < size) {f : β → List α} (l : List β)
    (hf : ∀ x ∈ l, (f x).length = size) : chunks size (l.flatMap f) = l.map f := by
  have hcut : ∀ fuel, (l.flatMap f).length ≤ fuel → chunksFrom size fuel
      (l.flatMap f) = l.map f := by
    induction l with
    | nil =>
      intro fuel _
      cases fuel <;> rfl
    | cons x l ih =>
      intro fuel hfuel
      have hx := hf x (by simp)
      rw [flatMap_cons, length_append] at hfuel
      obtain ⟨fuel, rfl⟩ := Nat.exists_eq_succ_of_ne_zero (by omega : fuel ≠ 0)
      obtain ⟨b, tail, hb⟩ : ∃ b tail, (x :: l).flatMap f = b :: tail := by
        cases hd : (x :: l).flatMap f with
        | nil =>
          have hlen := congrArg length hd
          rw [flatMap_cons, length_append] at hlen
          simp only [length_nil] at hlen
          omega
        | cons b tail => exact ⟨b, tail, rfl⟩
      rw [hb, Nat.succ_eq_add_one, chunksFrom, ← hb, flatMap_cons, map_cons,
        take_left' hx, drop_left' hx,
        ih (fun y hy => hf y (by simp [hy])) fuel (by omega)]
      simp
  exact hcut _ (le_refl _)

end Copy

/-- A read position in a byte string: what is left and how much was consumed. -/
structure Cursor where
  rest : Bytes
  pos : Nat

namespace Cursor

def seek (bytes : Bytes) (pos : Nat) : Cursor := ⟨bytes.drop pos, pos⟩

/-- Exactly `n` bytes and the cursor behind them, or nothing. -/
def read (c : Cursor) (n : Nat) : Option (Bytes × Cursor) :=
  if n ≤ c.rest.length then some (c.rest.take n, ⟨c.rest.drop n, c.pos + n⟩) else none

variable {a bytes : Bytes}

theorem read_eq_some {c d : Cursor} (h : c.read n = some (a, d)) :
    c.rest = a ++ d.rest ∧ a.length = n ∧ d.pos = c.pos + n := by
  obtain ⟨hn, ⟨⟩⟩ := Option.ite_none_right_eq_some.mp h
  exact ⟨(take_append_drop n c.rest).symm, length_take_of_le hn, rfl⟩

/-- A cursor of `bytes`: its remainder is what lies behind its position. -/
def Of (bytes : Bytes) (c : Cursor) : Prop := c.rest = bytes.drop c.pos ∧ c.pos ≤ bytes.length

theorem seek_of (h : pos ≤ bytes.length) : Of bytes (seek bytes pos) := ⟨rfl, h⟩

theorem read_seek (h : pos + n ≤ bytes.length) :
    (seek bytes pos).read n = some (slice bytes pos n, seek bytes (pos + n)) := by
  unfold read seek slice
  rw [if_pos (by rw [length_drop]; omega), drop_drop]

theorem read_of {c d : Cursor} (hc : Of bytes c) (h : c.read n = some (a, d)) :
    Of bytes d ∧ a = slice bytes c.pos n := by
  obtain ⟨happ, hlen, hpos⟩ := read_eq_some h
  have hdrop : bytes.drop c.pos = a ++ d.rest := hc.1 ▸ happ
  refine ⟨⟨?_, ?_⟩, ?_⟩
  · rw [hpos, ← drop_drop, hdrop, ← hlen, drop_left]
  · have hl := congrArg length hdrop
    rw [length_drop, length_append] at hl
    have := hc.2
    omega
  · rw [slice, hdrop, ← hlen, take_left]

end Cursor

end Tarit.Lib
