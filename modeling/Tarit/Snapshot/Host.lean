import Tarit.Snapshot.Format

/-!
# The host file system as the snapshot reader sees it

Opening, canonicalizing and stat are the host's: they are fields of `Host`. What the
code does with their answers is defined here: the tip and its directory, the lookup
of a diff's parent, and the checksum library the files are verified with.
-/
namespace Tarit.Snapshot

open Lib

/-- An open file: its kind, its identity, its bytes and the attribute recording that
its RAM or page data already matched a checksum. -/
structure File where
  regular : Bool
  dev : Nat
  ino : Nat
  mtime : Nat
  mtime_nsec : Nat
  bytes : Bytes
  ram_verified : Option String
  deriving DecidableEq

def File.len (f : File) : Nat := f.bytes.length

/-- The checksum library. A hasher stands for the bytes fed to it, `combine` for the
concatenation of both, and `finalize` of a hasher is the checksum of those bytes. -/
structure Crc32 (Hasher : Type) where
  hash : Bytes → UInt32
  new : Hasher
  update : Hasher → Bytes → Hasher
  combine : Hasher → Hasher → Hasher
  finalize : Hasher → UInt32
  /-- The bytes a hasher has been fed. -/
  Fed : Hasher → Bytes → Prop
  new_fed : Fed new []
  update_fed : ∀ {h a}, Fed h a → ∀ b, Fed (update h b) (a ++ b)
  combine_fed : ∀ {h a k b}, Fed h a → Fed k b → Fed (combine h k) (a ++ b)
  finalize_fed : ∀ {h a}, Fed h a → finalize h = hash a

/-- One bit of the reflected CRC-32 register. -/
def crcBit (c : UInt32) : UInt32 := if c % 2 = 1 then (c / 2) ^^^ 0xEDB88320 else c / 2

def crcByte (c : UInt32) (b : UInt8) : UInt32 :=
  (List.replicate 8 ()).foldl (fun c _ => crcBit c) (c ^^^ b.toUInt32)

/-- CRC-32 as the checksum library computes it. -/
def crc32Ieee (bytes : Bytes) : UInt32 := bytes.foldl crcByte 0xFFFFFFFF ^^^ 0xFFFFFFFF

/-- The checksum library with its hashers kept as the bytes they were fed. -/
def Crc32.ieee : Crc32 Bytes where
  hash := crc32Ieee
  new := []
  update h b := h ++ b
  combine h k := h ++ k
  finalize := crc32Ieee
  Fed h a := h = a
  new_fed := rfl
  update_fed h b := by rw [h]
  combine_fed h k := by rw [h, k]
  finalize_fed h := by rw [h]

/-- The published check value of CRC-32, over the digits 1 to 9. -/
example : crc32Ieee [49, 50, 51, 52, 53, 54, 55, 56, 57] = 0xCBF43926 := by decide +kernel

/-- The answers of the host the snapshot reader depends on. -/
structure Host where
  /-- `open` without following links, or why it failed. -/
  openFile : String → Except String File
  /-- `symlink_metadata(..).file_type().is_file()`, or why the stat failed. -/
  isFile : String → Except String Bool
  canonicalize : String → Except String String
  pathExists : String → Bool
  /-- `mmap` of a file range: the bytes of a successful mapping are the file's. -/
  mmap : File → (offset len : Nat) → Except String Unit
  /-- `File::try_clone`. -/
  tryClone : File → Except String Unit

/-- A host whose descriptors can be duplicated and which maps every page-aligned,
non-empty range inside a file. -/
structure Host.Maps (host : Host) : Prop where
  mmap : ∀ file offset len, offset % 4096 = 0 → 0 < len → offset + len ≤ file.len →
    host.mmap file offset len = .ok ()
  tryClone : ∀ file, host.tryClone file = .ok ()

/-- A host answer reported as the code's own error. -/
def mapErr {α : Type} (x : Except String α) (e : String → VmmError) : Result α :=
  match x with
  | .ok a => .ok a
  | .error m => .error (e m)

@[simp] theorem mapErr_eq_ok {α : Type} {x : Except String α} {e : String → VmmError} {a : α} :
    mapErr x e = .ok a ↔ x = .ok a := by
  cases x <;> simp [mapErr]

/-- The pieces of a path between slashes. -/
def splitSlash : List Char → List (List Char)
  | [] => [[]]
  | c :: cs =>
    if c = '/' then [] :: splitSlash cs
    else
      match splitSlash cs with
      | [] => [[c]]
      | piece :: pieces => (c :: piece) :: pieces

/-- Components of a path: empty and `.` parts disappear. -/
def components (path : String) : List (List Char) :=
  (splitSlash path.toList).filter fun part => part ≠ [] ∧ part ≠ ['.']

def isAbsolute (path : String) : Bool := path.toList.head? = some '/'

def joinPath (root path : String) : String :=
  if isAbsolute path then path
  else if root.toList.getLast? = some '/' then root ++ path
  else root ++ "/" ++ path

/-- `Path::file_name`: the last component, unless it is `..`. -/
def fileName (path : String) : Option String :=
  match (components path).getLast? with
  | some part => if part = ['.', '.'] then none else some (String.ofList part)
  | none => none

/-- `Path::starts_with`, component by component. -/
def pathStartsWith (path root : String) : Bool :=
  (isAbsolute path == isAbsolute root) && (components root).isPrefixOf (components path)

/-- `Path::parent` of a canonical path. -/
def parentDir (path : String) : Option String :=
  match (components path).reverse with
  | [] => none
  | _ :: rest => some (String.ofList ('/' :: List.intercalate ['/'] rest.reverse))

/-- `str::from_utf8` and `str::as_bytes`. -/
def fromUtf8 (bytes : Bytes) : Option String := String.fromUTF8? ⟨bytes.toArray⟩

def asBytes (s : String) : Bytes := s.toUTF8.data.toList

theorem fromUtf8_asBytes (s : String) : fromUtf8 (asBytes s) = some s := by
  have hb : (⟨s.toUTF8.data.toList.toArray⟩ : ByteArray) = s.toUTF8 := by simp
  unfold fromUtf8 asBytes
  rw [hb]
  unfold String.fromUTF8?
  rw [String.toUTF8_eq_toByteArray, dif_pos s.isValidUTF8]
  rfl

section Lookup

variable (host : Host)

def openSnapshotInput (path : String) : Result File :=
  match host.openFile path with
  | .error e => .error (.snapshot s!"open {path}: {e}")
  | .ok file =>
    if file.regular then .ok file
    else .error (.snapshot s!"snapshot is not a regular file: {path}")

/-- The canonical tip of a chain and the directory its parents must stay in. -/
def canonicalSnapshotTip (path : String) : Result (String × String) := do
  match host.isFile path with
  | .error e => throw (.snapshot s!"stat snapshot {path}: {e}")
  | .ok false =>
    throw (.snapshot s!"snapshot tip must be a regular non-symlink file: {path}")
  | .ok true =>
    match host.canonicalize path with
    | .error e => throw (.snapshot s!"canonicalize {path}: {e}")
    | .ok tip =>
      let root ← okOr (parentDir tip) (.snapshot s!"snapshot has no parent dir: {path}")
      return (tip, root)

/-- Where a diff's recorded parent is looked up: as recorded, or, if that no longer
exists, under the same name beside the tip. -/
def parentCandidate (parent snapshot_root : String) : String :=
  let candidate := if isAbsolute parent then parent else joinPath snapshot_root parent
  if host.pathExists candidate then candidate
  else
    match (fileName parent).map (joinPath snapshot_root) with
    | some beside => if host.pathExists beside then beside else candidate
    | none => candidate

def resolveSnapshotParent (parent snapshot_root : String) : Result String := do
  refuse (parent = "") (.snapshot "empty diff parent path")
  let candidate := parentCandidate host parent snapshot_root
  match host.isFile candidate with
  | .error e =>
    throw (.snapshot
      s!"stat diff parent {candidate}: {e}; keep every snapshot of a chain in one directory under the names the VMM gave them")
  | .ok false =>
    throw (.snapshot s!"diff parent must be a regular non-symlink file: {candidate}")
  | .ok true =>
    match host.canonicalize candidate with
    | .error e => throw (.snapshot s!"canonicalize diff parent {candidate}: {e}")
    | .ok canonical =>
      refuse (pathStartsWith canonical snapshot_root = false)
        (.snapshot s!"diff parent escapes snapshot root: {canonical}")
      return canonical

end Lookup

/-- A host that holds the given files, maps them and knows no links. -/
def Host.ofFiles (files : List (String × File)) : Host where
  openFile path := match files.lookup path with
    | some file => .ok file
    | none => .error "No such file or directory (os error 2)"
  isFile path := match files.lookup path with
    | some file => .ok file.regular
    | none => .error "No such file or directory (os error 2)"
  canonicalize path := .ok path
  pathExists path := (files.lookup path).isSome
  mmap _ _ _ := .ok ()
  tryClone _ := .ok ()

end Tarit.Snapshot
