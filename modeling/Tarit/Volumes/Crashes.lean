import Tarit.Fleet.Records
import Tarit.Lib.SparseFile

/-!
# Crashes of the local volume providers

An immutable object and a block volume are files that are built in place, under their final name,
by a few file operations. A crash leaves the file as a part of these operations made it; the same
call made again finds it and checks that it is the finished one.
-/
namespace Tarit.Volumes.Local

open Lib Fleet List

/-! ## Files -/

structure File where
  regular : Bool
  owned : Bool
  nlink : ℕ
  mode : ℕ
  data : Bytes
  deriving DecidableEq

/-- The file operations of the calls. `write_all` may stop after any byte. -/
inductive FileOp where
  | createNew (mode : ℕ)
  | write (byte : UInt8)
  | setLen (size : ℕ)
  | syncAll
  | setPermissions (mode : ℕ)
  | syncDirectory

def FileOp.apply (file : Option File) : FileOp → Option File
  | createNew mode => some ⟨true, true, 1, mode, []⟩
  | write byte => file.map fun f => { f with data := f.data ++ [byte] }
  | setLen size => file.map fun f => { f with data := Lib.setLen f.data size }
  | setPermissions mode => file.map fun f => { f with mode }
  | syncAll | syncDirectory => file

def perform (ops : List FileOp) (file : Option File) : Option File := ops.foldl FileOp.apply file

inductive VolumeError where
  | Invalid (text : String)
  | NotFound | Conflict | UnsafeObject | IdentityMismatch
  deriving DecidableEq

/-- Not a plain file of this user with one name, or one with some of the bits of `mask`. -/
def File.insecureFor (f : File) (mask : ℕ) : Bool :=
  !f.regular || !f.owned || f.nlink ≠ 1 || f.mode &&& mask ≠ 0

/-! ## Immutable objects -/

structure ImmutableObject (D : Type) where
  digest : D
  size_bytes : ℕ
  deriving DecidableEq

/-- The object provider, with the digest it uses. -/
structure LocalImmutableObjectProvider (D : Type) where
  max_object_bytes : ℕ
  fromBytes : Bytes → D

def objectTooLarge : VolumeError := .Invalid "immutable object exceeds configured maximum"

section Objects

variable {D : Type} [DecidableEq D] (provider : LocalImmutableObjectProvider D)

def getVerified (object : ImmutableObject D) (file : Option File) : Except VolumeError Bytes :=
  if object.size_bytes > provider.max_object_bytes then .error objectTooLarge
  else
    match file with
    | none => .error .NotFound
    | some f =>
      if f.insecureFor 0o377 || f.data.length ≠ object.size_bytes then .error .UnsafeObject
      else
        let bytes := f.data.take (object.size_bytes + 1)
        if bytes.length ≠ object.size_bytes || provider.fromBytes bytes ≠ object.digest then
          .error .IdentityMismatch
        else .ok bytes

def putOps (bytes : Bytes) : List FileOp :=
  .createNew 0o600 :: (bytes.map .write ++ [.syncAll, .setPermissions 0o400, .syncDirectory])

def putIfAbsent (bytes : Bytes) (file : Option File) :
    Except VolumeError (ImmutableObject D) × Option File :=
  if bytes.length > provider.max_object_bytes then (.error objectTooLarge, file)
  else
    let object : ImmutableObject D := ⟨provider.fromBytes bytes, bytes.length⟩
    match file with
    | some _ => ((getVerified provider object file).map fun _ => object, file)
    | none => (.ok object, perform (putOps bytes) file)

end Objects

/-! ## Block volumes -/

structure ProviderVolume where
  volume_id : Uuid
  size_bytes : ℕ
  host_id : String
  deriving DecidableEq

structure LocalBlockProvider where
  max_size_bytes : ℕ
  host_id : String

def MIN_BLOCK_VOLUME_BYTES : ℕ := 1024 * 1024

def validateOwnedFile (f : File) (expected_size : ℕ) : Except VolumeError Unit :=
  if f.insecureFor 0o177 then .error .UnsafeObject
  else if f.data.length ≠ expected_size then .error .Conflict
  else .ok ()

def createOps (size_bytes : ℕ) : List FileOp :=
  [.createNew 0o600, .setLen size_bytes, .syncAll, .syncDirectory]

def LocalBlockProvider.create (provider : LocalBlockProvider) (volume_id : Uuid) (size_bytes : ℕ)
    (file : Option File) : Except VolumeError ProviderVolume × Option File :=
  let max_size_bytes := provider.max_size_bytes
  if size_bytes < MIN_BLOCK_VOLUME_BYTES ∨ max_size_bytes < size_bytes then
    (.error (.Invalid
      s!"block volume size must be between {MIN_BLOCK_VOLUME_BYTES} and {max_size_bytes} bytes"),
      file)
  else
    let volume : ProviderVolume := ⟨volume_id, size_bytes, provider.host_id⟩
    match file with
    | some f =>
      match validateOwnedFile f size_bytes with
      | .ok _ => (.ok volume, file)
      | .error .UnsafeObject => (.error .UnsafeObject, file)
      | .error _ => (.error .Conflict, file)
    | none =>
      let created := perform (createOps size_bytes) file
      match created with
      | some f => ((validateOwnedFile f size_bytes).map fun _ => volume, created)
      | none => (.error .NotFound, created)

/-! ## What a crash leaves -/

theorem perform_append (ops ops' : List FileOp) (file : Option File) :
    perform (ops ++ ops') file = perform ops' (perform ops file) := foldl_append

theorem perform_writes (bytes : Bytes) (f : File) :
    perform (bytes.map .write) (some f) = some { f with data := f.data ++ bytes } := by
  induction bytes generalizing f with
  | nil =>
    rw [append_nil]
    rfl
  | cons byte bytes ih =>
    show perform (bytes.map .write) (some { f with data := f.data ++ [byte] }) = _
    rw [ih, append_assoc]
    rfl

theorem perform_putOps_take (bytes : Bytes) (n : ℕ) :
    perform ((putOps bytes).take (n + 1)) none =
      some ⟨true, true, 1, if bytes.length + 2 ≤ n then 0o400 else 0o600, bytes.take n⟩ := by
  have htake : (putOps bytes).take (n + 1) = .createNew 0o600 :: ((bytes.take n).map .write ++
      [.syncAll, .setPermissions 0o400, .syncDirectory].take (n - bytes.length)) := by
    rw [putOps, take_succ_cons, take_append, length_map, map_take]
  rw [htake]
  show perform (_ ++ _) (some ⟨true, true, 1, 0o600, []⟩) = _
  rw [perform_append, perform_writes, nil_append]
  -- only the permissions change what is found after the writes
  match hrest : n - bytes.length with
  | 0 | 1 =>
    rw [if_neg (by omega)]
    rfl
  | 2 =>
    rw [if_pos (by omega)]
    rfl
  | _ + 3 =>
    rw [if_pos (by omega), take_of_length_le (by simp)]
    rfl

/-- A file made by the calls is unsafe by its permissions alone. -/
theorem insecureFor_own (mode : ℕ) (data : Bytes) (mask : ℕ) :
    (⟨true, true, 1, mode, data⟩ : File).insecureFor mask = decide (mode &&& mask ≠ 0) := by
  simp [File.insecureFor]

section Objects

variable {D : Type} [DecidableEq D] (provider : LocalImmutableObjectProvider D) (bytes : Bytes)

/-- The call succeeds on the file, and the object then reads back. -/
def PutSucceeds (file : Option File) : Prop :=
  ∃ object file', putIfAbsent provider bytes file = (.ok object, file') ∧
    getVerified provider object file' = .ok bytes

theorem getVerified_finished (h : bytes.length ≤ provider.max_object_bytes) :
    getVerified provider ⟨provider.fromBytes bytes, bytes.length⟩
      (some ⟨true, true, 1, 0o400, bytes⟩) = .ok bytes := by
  simp [getVerified, insecureFor_own, not_lt.mpr h, take_of_length_le]

theorem getVerified_unfinished (digest : D) {size : ℕ} (data : Bytes)
    (h : size ≤ provider.max_object_bytes) :
    getVerified provider ⟨digest, size⟩ (some ⟨true, true, 1, 0o600, data⟩) =
      .error .UnsafeObject := by
  simp [getVerified, insecureFor_own, not_lt.mpr h]

theorem putSucceeds_iff (n : ℕ) :
    PutSucceeds provider bytes (perform ((putOps bytes).take n) none) ↔
    bytes.length ≤ provider.max_object_bytes ∧ (n = 0 ∨ bytes.length + 3 ≤ n) := by
  unfold PutSucceeds putIfAbsent
  by_cases hmax : bytes.length ≤ provider.max_object_bytes
  case neg => simp [hmax, Nat.lt_of_not_le hmax]
  have hverified := getVerified_finished provider bytes hmax
  rw [if_neg (Nat.not_lt.mpr hmax)]
  cases n with
  | zero =>
    have hall := perform_putOps_take bytes (bytes.length + 3)
    rw [take_of_length_le (by simp [putOps]), if_pos (by omega),
      take_of_length_le (by omega)] at hall
    refine iff_of_true ⟨_, _, rfl, ?_⟩ ⟨hmax, .inl rfl⟩
    rw [take_zero]
    show getVerified provider _ (perform (putOps bytes) none) = _
    rw [hall, hverified]
  | succ n =>
    rw [perform_putOps_take]
    by_cases hn : bytes.length + 2 ≤ n
    · rw [if_pos hn, take_of_length_le (by omega)]
      simp only [hverified]
      exact iff_of_true ⟨_, _, rfl, hverified⟩ ⟨hmax, .inr (by omega)⟩
    · rw [if_neg hn]
      simp only [getVerified_unfinished provider _ _ hmax]
      refine iff_of_false ?_ (by omega)
      intro ⟨_, _, hok, _⟩
      cases hok

end Objects

section Volumes

variable (provider : LocalBlockProvider) (volume_id : Uuid) (size_bytes : ℕ)

/-- The call succeeds on the file, and the volume then has the size. -/
def CreateSucceeds (file : Option File) : Prop :=
  ∃ volume f, provider.create volume_id size_bytes file = (.ok volume, some f) ∧
    f.data.length = size_bytes

theorem validateOwnedFile_own (data : Bytes) :
    validateOwnedFile ⟨true, true, 1, 0o600, data⟩ size_bytes =
      if data.length ≠ size_bytes then .error .Conflict else .ok () := by
  rw [validateOwnedFile, insecureFor_own]
  rfl

theorem perform_createOps_take (n : ℕ) : perform ((createOps size_bytes).take (n + 1)) none =
    some ⟨true, true, 1, 0o600, if n = 0 then [] else setLen [] size_bytes⟩ := by
  match n with
  | 0 | 1 | 2 => rfl
  | n + 3 =>
    rw [take_of_length_le (by simp [createOps])]
    rfl

theorem createSucceeds_iff (n : ℕ) :
    CreateSucceeds provider volume_id size_bytes (perform ((createOps size_bytes).take n) none) ↔
      (MIN_BLOCK_VOLUME_BYTES ≤ size_bytes ∧ size_bytes ≤ provider.max_size_bytes) ∧ n ≠ 1 := by
  unfold CreateSucceeds LocalBlockProvider.create
  by_cases hsize : MIN_BLOCK_VOLUME_BYTES ≤ size_bytes ∧ size_bytes ≤ provider.max_size_bytes
  case neg =>
    have hrefused : size_bytes < MIN_BLOCK_VOLUME_BYTES ∨ provider.max_size_bytes < size_bytes := by
      omega
    simp [hrefused, hsize]
  have hpos : 0 ≠ size_bytes := by
    rw [MIN_BLOCK_VOLUME_BYTES] at hsize
    omega
  rw [if_neg (by omega)]
  match n with
  | 0 =>
    have hmade := perform_createOps_take size_bytes 3
    rw [take_of_length_le (by simp [createOps])] at hmade
    have hnone : perform [] none = none := rfl
    rw [take_zero, hnone]
    simp only [hmade, validateOwnedFile_own]
    simp [hsize, setLen_length, Except.map]
  | n + 1 =>
    rw [perform_createOps_take]
    simp only [validateOwnedFile_own]
    by_cases hn : n = 0
    · simp [hn, hpos]
    · simp [hn, hsize, setLen_length]

end Volumes

/-- The id is free again, or the call is done, just if the crash comes before the file is created
or after it has got its last permissions or its length. -/
theorem repeated_call_succeeds_iff {D : Type} [DecidableEq D]
    (objects : LocalImmutableObjectProvider D) (bytes : Bytes) (blocks : LocalBlockProvider)
    (volume_id : Uuid) (size_bytes n : ℕ) :
    (PutSucceeds objects bytes (perform ((putOps bytes).take n) none) ↔
      bytes.length ≤ objects.max_object_bytes ∧ (n = 0 ∨ bytes.length + 3 ≤ n)) ∧
    (CreateSucceeds blocks volume_id size_bytes (perform ((createOps size_bytes).take n) none) ↔
      (MIN_BLOCK_VOLUME_BYTES ≤ size_bytes ∧ size_bytes ≤ blocks.max_size_bytes) ∧ n ≠ 1) :=
  ⟨putSucceeds_iff objects bytes n, createSucceeds_iff blocks volume_id size_bytes n⟩

/-- A whole object that only lacks its permissions, and a volume without its length: every later
call fails. -/
theorem cut_calls_fail_forever :
    (∀ k, (putIfAbsent ⟨4, id⟩ [7] ((fun file => (putIfAbsent ⟨4, id⟩ [7] file).2)^[k]
      (perform ((putOps [7]).take 3) none))).1 = .error .UnsafeObject) ∧
    ∀ k, ((⟨2097152, "host"⟩ : LocalBlockProvider).create 1 1048576
      ((fun file => ((⟨2097152, "host"⟩ : LocalBlockProvider).create 1 1048576 file).2)^[k]
        (perform ((createOps 1048576).take 1) none))).1 = .error .Conflict := by
  constructor
  · intro k
    rw [Function.iterate_fixed (by decide)]
    decide
  · intro k
    rw [Function.iterate_fixed (by decide)]
    decide

end Tarit.Volumes.Local
