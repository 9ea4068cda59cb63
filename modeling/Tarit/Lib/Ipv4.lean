import Tarit.Lib.JsonText
import Mathlib.Algebra.Group.Nat.Defs
import Mathlib.Data.Fin.Basic

/-!
# IPv4 addresses and networks

Addresses, networks of a prefix length, and their texts: dotted decimal, with the length after a
slash unless it is 32.
-/
namespace Tarit.Lib

open JsonText

abbrev Ipv4Addr := Fin (2 ^ 32)

instance neZero_addrs : @NeZero Nat Zero.ofOfNat0 (2 ^ 32) := inferInstance

instance neZero_lens : @NeZero Nat Zero.ofOfNat0 33 := inferInstance

structure Ipv4Net where
  addr : Ipv4Addr
  len : Fin 33
  deriving DecidableEq

/-- The addresses of the network agree with its own on the first `len` bits. -/
def Ipv4Net.contains (n : Ipv4Net) (a : Ipv4Addr) : Bool :=
  a.val / 2 ^ (32 - n.len.val) == n.addr.val / 2 ^ (32 - n.len.val)

/-- The network with the bits of the host cleared. -/
def Ipv4Net.trunc (n : Ipv4Net) : Ipv4Net :=
  ⟨⟨n.addr.val / 2 ^ (32 - n.len.val) * 2 ^ (32 - n.len.val),
    Nat.lt_of_le_of_lt (Nat.div_mul_le_self ..) n.addr.isLt⟩, n.len⟩

variable {a : Ipv4Addr}

/-! ## Texts -/

def showAddr (a : Ipv4Addr) : List Char :=
  Nat.toDigits 10 (a.val / 16777216) ++ '.' :: (Nat.toDigits 10 (a.val / 65536 % 256) ++
    '.' :: (Nat.toDigits 10 (a.val / 256 % 256) ++ '.' :: Nat.toDigits 10 (a.val % 256)))

/-- A number below 256, and the text after it. -/
def readOctet (text : List Char) : Option (Nat × List Char) :=
  (readNat text).filter fun (n, _) => n < 256

def readDot : List Char → Option (List Char)
  | '.' :: rest => some rest
  | _ => none

def readAddr (text : List Char) : Option (Ipv4Addr × List Char) := do
  let (o₁, text) ← readOctet text
  let (o₂, text) ← readOctet (← readDot text)
  let (o₃, text) ← readOctet (← readDot text)
  let (o₄, text) ← readOctet (← readDot text)
  let n := ((o₁ * 256 + o₂) * 256 + o₃) * 256 + o₄
  if h : n < 2 ^ 32 then some (⟨n, h⟩, text) else none

theorem readOctet_toDigits {n : Nat} (hn : n < 256) {rest : List Char} (h : Ends rest) :
    readOctet (Nat.toDigits 10 n ++ rest) = some (n, rest) := by
  rw [readOctet, readNat_toDigits n h]
  exact Option.filter_some_pos (decide_eq_true hn)

theorem ends_dot (rest : List Char) : Ends ('.' :: rest) := by
  intro c hc
  cases hc
  rfl

theorem readAddr_showAddr (a : Ipv4Addr) {rest : List Char} (h : Ends rest) :
    readAddr (showAddr a ++ rest) = some (a, rest) := by
  have ha := a.isLt
  have h₁ : a.val / 16777216 < 256 := by omega
  have hmod : ∀ n : Nat, n % 256 < 256 := fun n => Nat.mod_lt _ (by decide)
  have hsum : ((a.val / 16777216 * 256 + a.val / 65536 % 256) * 256 + a.val / 256 % 256) * 256 +
      a.val % 256 = a.val := by omega
  unfold readAddr showAddr
  simp only [List.append_assoc, List.cons_append, readOctet_toDigits h₁ (ends_dot _),
    readOctet_toDigits (hmod _) (ends_dot _), readOctet_toDigits (hmod _) h, readDot,
    Option.bind_eq_bind, Option.bind_some, hsum, ha, dif_pos]

/-- The text of a network; one address alone has no length. -/
def showNet (n : Ipv4Net) : List Char :=
  if n.len = 32 then showAddr n.addr else showAddr n.addr ++ '/' :: Nat.toDigits 10 n.len.val

def readNet (text : List Char) : Option Ipv4Net :=
  match readAddr text with
  | some (a, []) => some ⟨a, 32⟩
  | some (a, '/' :: text) =>
    match readNat text with
    | some (len, []) => if h : len < 33 then some ⟨a, ⟨len, h⟩⟩ else none
    | _ => none
  | _ => none

theorem readNet_showAddr : readNet (showAddr a) = some ⟨a, 32⟩ := by
  have hnil : Ends [] := nofun
  have hread := readAddr_showAddr a hnil
  rw [List.append_nil] at hread
  rw [readNet, hread]

theorem readNet_showNet (n : Ipv4Net) : readNet (showNet n) = some n := by
  unfold showNet
  split
  · rename_i hlen
    rw [readNet_showAddr, ← hlen]
  have hslash : Ends ('/' :: Nat.toDigits 10 n.len.val) := by
    intro c hc
    cases hc
    rfl
  have hnil : Ends [] := nofun
  have hlen := readNat_toDigits n.len.val hnil
  rw [List.append_nil] at hlen
  rw [readNet, readAddr_showAddr n.addr hslash]
  simp only [hlen, n.len.isLt, dif_pos]

end Tarit.Lib
