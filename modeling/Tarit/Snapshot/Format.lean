import Tarit.Lib.Bytes
import Tarit.Lib.Fallible

/-!
# The snapshot container: constants, errors, lengths and the full header

`VMSN` is a full image, `VMSD` the interleaved incremental layout and `VMSA` the
page-aligned one. This module holds what their readers and writers share: the
limits, the 64-bit checked arithmetic, the page-aligned state length and the parse
of the 28 header bytes that follow the magic of a full snapshot.
-/
namespace Tarit.Snapshot

open Lib

/-- The variants of `VmmError` the snapshot paths return. -/
inductive VmmError where
  | invalidConfig (message : String)
  | memory (message : String)
  | snapshot (message : String)
  | device (message : String)
  | ioQuiescence (message : String) (vcpus_may_resume retryable : Bool)
  deriving DecidableEq

abbrev Result := Except VmmError

/-- A step that only checks: `Ok` exactly when its condition does not refuse. -/
def refuse (bad : Prop) [Decidable bad] (e : VmmError) : Result Unit :=
  if bad then .error e else .ok ()

variable {e : VmmError} {a b : Nat}

@[simp] theorem refuse_eq_ok {bad : Prop} [Decidable bad] {u : Unit} :
    refuse bad e = .ok u ↔ ¬ bad := by
  unfold refuse
  by_cases h : bad <;> simp [h]

theorem refuse_of_not {bad : Prop} [Decidable bad] (h : ¬ bad) :
    refuse bad e = .ok () := by simp [refuse, h]

def u64Size : Nat := 2 ^ 64

def checkedAdd (a b : Nat) : Option Nat := if a + b < u64Size then some (a + b) else none

def checkedMul (a b : Nat) : Option Nat := if a * b < u64Size then some (a * b) else none

def okOr {α : Type} (x : Option α) (e : VmmError) : Result α :=
  match x with
  | some a => .ok a
  | none => .error e

@[simp] theorem okOr_eq_ok {α : Type} {x : Option α} {a : α} : okOr x e = .ok a ↔ x = some a := by
  cases x <;> simp [okOr]

@[simp] theorem okOr_some {α : Type} (a : α) : okOr (some a) e = .ok a := rfl

theorem checkedAdd_of_lt (h : a + b < u64Size) : checkedAdd a b = some (a + b) := if_pos h

theorem checkedAdd_eq_some {c : Nat} : checkedAdd a b = some c ↔ a + b < u64Size ∧ a + b = c := by
  unfold checkedAdd
  by_cases h : a + b < u64Size <;> simp [h]

theorem checkedMul_eq_some {c : Nat} : checkedMul a b = some c ↔ a * b < u64Size ∧ a * b = c := by
  unfold checkedMul
  by_cases h : a * b < u64Size <;> simp [h]

theorem checkedMul_of_lt (h : a * b < u64Size) : checkedMul a b = some (a * b) := if_pos h

def nextMultipleOf (n m : Nat) : Nat := (n + (m - 1)) / m * m

def MIB : Nat := 1024 * 1024
def MIN_MEMORY_MIB : Nat := 1
def MAX_MEMORY_MIB : Nat := 65536
def MAX_MEMORY_BYTES : Nat := MAX_MEMORY_MIB * MIB

def FULL_SNAPSHOT_HEADER_LEN : Nat := 32
def FULL_SNAPSHOT_REST_HEADER_LEN : Nat := 28
def LEGACY_SNAPSHOT_VERSION : Nat := 1
def SNAPSHOT_VERSION : Nat := 2
def MAX_SNAPSHOT_STATE_BYTES : Nat := 64 * 1024 * 1024
def MAX_DIFF_PARENT_PATH_BYTES : Nat := 4096
def MAX_DIFF_PAGE_BYTES : Nat := 1024 * 1024
def MAX_DIFF_PAGES : Nat := 2 ^ 20
def MAX_DIFF_CHAIN_DEPTH : Nat := 1024
def DIFF_PAGE_BYTES : Nat := 4096
def DIFF_RUN_ENTRY_BYTES : Nat := 12
def MAX_DIFF_RUN_PAGES : Nat := 2 ^ 18
def MAP_MIN_RUN_PAGES : Nat := 16
def MAX_EAGER_DIFF_BYTES : Nat := 256 * 1024 * 1024

/-- `b"VMSN"`, `b"VMSD"` and `b"VMSA"`. -/
def FULL_MAGIC : Bytes := [0x56, 0x4D, 0x53, 0x4E]
def DIFF_MAGIC : Bytes := [0x56, 0x4D, 0x53, 0x44]
def ALIGNED_DIFF_MAGIC : Bytes := [0x56, 0x4D, 0x53, 0x41]

/-- Lower-case hexadecimal digits, as `{:x}` prints them. -/
def hex (n : Nat) : String := String.ofList (Nat.toDigits 16 n)

/-- `{:#010x}`: `0x` and eight digits. -/
def hexCrc (n : Nat) : String :=
  let digits := Nat.toDigits 16 n
  "0x" ++ String.ofList (List.replicate (8 - digits.length) '0' ++ digits)

/-- Guest RAM sizes `MemoryConfig::size_bytes` accepts. -/
def sizeBytes (size_mib : Nat) : Result Nat := do
  let bytes ← okOr (checkedMul size_mib MIB) (.invalidConfig "memory size overflows bytes")
  refuse (¬ (MIN_MEMORY_MIB ≤ size_mib ∧ size_mib ≤ MAX_MEMORY_MIB))
    (.invalidConfig
      s!"memory.size_mib must be in {MIN_MEMORY_MIB}..={MAX_MEMORY_MIB}, got {size_mib}")
  return bytes

/-- Stored state length, zero padding included, that starts the RAM image of a
full snapshot on a page boundary. -/
def pageAlignedStateLen (state_len : Nat) : Option Nat := do
  let unaligned ← checkedAdd FULL_SNAPSHOT_HEADER_LEN state_len
  let rounded ← checkedAdd unaligned (4096 - 1)
  some (rounded / 4096 * 4096 - FULL_SNAPSHOT_HEADER_LEN)

structure FullSnapshotLayout where
  state_offset : Nat
  state_len : Nat
  mem_offset : Nat
  mem_len : Nat
  deriving DecidableEq

def fullSnapshotLayoutForLengths (state_len mem_len : Nat) : Option FullSnapshotLayout := do
  let mem_offset ← checkedAdd FULL_SNAPSHOT_HEADER_LEN state_len
  let _ ← checkedAdd mem_offset mem_len
  some { state_offset := FULL_SNAPSHOT_HEADER_LEN, state_len, mem_offset, mem_len }

def validateSnapshotLengths (state_len mem_len : Nat) (path : String) : Result Unit := do
  refuse (state_len > MAX_SNAPSHOT_STATE_BYTES)
    (.snapshot s!"state blob too large in {path}: {state_len} bytes")
  refuse (¬ (MIB ≤ mem_len ∧ mem_len ≤ MAX_MEMORY_BYTES))
    (.snapshot s!"memory image size out of range in {path}: {mem_len} bytes")
  refuse (mem_len % MIB ≠ 0)
    (.snapshot s!"memory image size is not MiB-aligned in {path}: {mem_len} bytes")

structure FullSnapshotHeader where
  version : Nat
  flags : Nat
  layout : FullSnapshotLayout
  state_crc : Nat
  mem_crc : Nat
  deriving DecidableEq

def field (hdr : Bytes) (start len : Nat) : Nat := fromLeBytes (slice hdr start len)

/-- Parse the 28 header bytes behind the magic of a full snapshot. -/
def parseFullSnapshotHeader (hdr : Bytes) (file_len : Nat) (path : String) :
    Result FullSnapshotHeader := do
  let version := field hdr 0 2
  refuse (¬ (version = LEGACY_SNAPSHOT_VERSION ∨ version = SNAPSHOT_VERSION))
    (.snapshot s!"unsupported VMSN version {version} in {path}")
  let flags := field hdr 2 2
  -- `flags & !1 != 0`: any bit above the lowest.
  refuse (flags / 2 ≠ 0) (.snapshot s!"unsupported VMSN flags 0x{hex flags} in {path}")
  let state_len := field hdr 4 8
  let state_crc := field hdr 12 4
  let mem_len := field hdr 16 8
  let mem_crc := field hdr 24 4
  validateSnapshotLengths state_len mem_len path
  let layout ← okOr (fullSnapshotLayoutForLengths state_len mem_len)
    (.snapshot s!"full snapshot length overflow in {path}")
  let expected_len ← okOr (checkedAdd layout.mem_offset layout.mem_len)
    (.snapshot s!"full snapshot length overflow in {path}")
  refuse (file_len < expected_len)
    (.snapshot s!"truncated full snapshot: need {expected_len} bytes, got {file_len}")
  refuse (file_len > expected_len)
    (.snapshot s!"full snapshot has trailing data: expected {expected_len} bytes, got {file_len}")
  return { version, flags, layout, state_crc, mem_crc }

def ensureFileHasBytes (file_len offset len : Nat) (what path : String) : Result Unit := do
  let stop ← okOr (checkedAdd offset len) (.snapshot s!"{what} length overflow in {path}")
  refuse (stop > file_len)
    (.snapshot s!"truncated {what} in {path}: need {stop} bytes, got {file_len}")

def validateDiffPageRange (gpa len mem_bytes : Nat) : Result Unit := do
  let stop ← okOr (checkedAdd gpa len) (.snapshot "diff page range overflow")
  refuse (stop > mem_bytes)
    (.snapshot
      s!"diff page outside base guest memory: 0x{hex gpa}..0x{hex stop} > 0x{hex mem_bytes}")

def validateDiffPayloadBudget (total_so_far next_len : Nat) : Result Nat := do
  let total ← okOr (checkedAdd total_so_far next_len) (.snapshot "diff payload length overflow")
  refuse (total > MAX_EAGER_DIFF_BYTES)
    (.snapshot s!"diff payload too large: {total} bytes > {MAX_EAGER_DIFF_BYTES}")
  return total

end Tarit.Snapshot
