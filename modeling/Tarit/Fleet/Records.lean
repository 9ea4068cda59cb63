import Mathlib.Algebra.Group.Nat.Defs
import Tarit.Lib.Transactions

/-!
# Records of the control plane and the tables of the fleet database

The record types of `tarit-types`, and the tables of PostgreSQL that hold them: hosts, VMs,
artifacts with their reference counts, branches, hibernations, the artifacts that running
VMs are restored from, volumes and their attachments, and quota reservations. A row is
stored under its primary key. CHECK and UNIQUE constraints other than the primary keys are
left out: they can only make a statement fail, and any statement may fail.
-/
namespace Tarit.Fleet

open Lib

abbrev Uuid := Fin (2 ^ 128)

instance neZero_uuids : @NeZero Nat Zero.ofOfNat0 (2 ^ 128) := inferInstance

/-- Nanoseconds since the epoch. -/
abbrev Timestamp := Int

/-- Hyphenated lower-case hexadecimal. -/
def displayUuid (id : Uuid) : String :=
  let digits := Nat.toDigits 16 id.val
  let hex := List.replicate (32 - digits.length) '0' ++ digits
  String.ofList (hex.take 8 ++ '-' :: (hex.drop 8).take 4 ++ '-' :: (hex.drop 12).take 4 ++
    '-' :: (hex.drop 16).take 4 ++ '-' :: hex.drop 20)

def hexDigit (c : Char) : Option Nat :=
  if c.isDigit then some (c.toNat - 48)
  else if 97 ≤ c.toNat && c.toNat ≤ 102 then some (c.toNat - 87)
  else if 65 ≤ c.toNat && c.toNat ≤ 70 then some (c.toNat - 55)
  else none

/-- `Uuid::parse_str`, of the hyphenated and the simple form. -/
def parseUuid (text : List Char) : Option Uuid :=
  let groups := text.splitOn '-'
  if groups.map List.length = [8, 4, 4, 4, 12] || groups.map List.length = [32] then
    (groups.flatten.foldlM (fun n c => (hexDigit c).map (16 * n + ·)) 0).map (Fin.ofNat _)
  else none

/-! ## Records -/

inductive VmStatus where
  | Creating | Running | Paused | Suspended | Hibernated | Stopped | Error
  deriving DecidableEq

inductive VmStartupPath where
  | Cold | Warm | SnapshotRestore
  deriving DecidableEq

structure VmRuntimeLayout where
  overlay_path : Option String
  jail_path : Option String
  artifact_paths : List String
  deriving DecidableEq

structure VmRecord where
  id : Uuid
  host_id : String
  owner_key : Option String
  api_key_id : Option String
  status : VmStatus
  revision : UInt64
  startup_path : Option VmStartupPath
  memory_mib : UInt64
  vcpus : UInt8
  kernel_path : String
  rootfs_path : Option String
  rootfs_read_only : Bool
  cmdline : String
  runtime_layout : Option VmRuntimeLayout
  socket_path : Option String
  pid : Option UInt32
  created_at : Timestamp
  updated_at : Timestamp
  deriving DecidableEq

inductive ArtifactKind where
  | VmSnapshot | Memory | Disk | Kernel | Rootfs | Agent
  deriving DecidableEq

inductive ArtifactStatus where
  | Staging | Available | Deleting | Corrupt
  deriving DecidableEq

inductive ArtifactReplicationState where
  | Pending | Ready | Degraded
  deriving DecidableEq

structure ArtifactRecord where
  artifact_id : Uuid
  owner_key : String
  host_id : String
  storage_locator : String
  kind : ArtifactKind
  status : ArtifactStatus
  content_digest : String
  size_bytes : UInt64
  immutable_image_digest : String
  agent_digest : String
  boot_manifest_digest : String
  parent_artifact_id : Option Uuid
  source_vm_id : Option Uuid
  creation_revision : UInt64
  integrity_manifest_digest : String
  chunk_size_bytes : UInt64
  chunk_count : UInt64
  replication_state : ArtifactReplicationState
  /-- Never negative: it is decremented only where it is positive. -/
  reference_count : Nat
  created_at : Timestamp
  updated_at : Timestamp
  deriving DecidableEq

structure BranchRecord where
  branch_id : Uuid
  owner_key : String
  name : String
  head_artifact_id : Uuid
  source_vm_id : Option Uuid
  source_branch_id : Option Uuid
  revision : UInt64
  created_at : Timestamp
  updated_at : Timestamp
  deriving DecidableEq

structure EgressPolicyRecord where
  vm_id : Uuid
  owner_key : String
  revision : UInt64
  allowlist : List String
  allow_existing : Bool
  created_at : Timestamp
  updated_at : Timestamp
  deriving DecidableEq

structure FleetHibernationRecord where
  vm_id : Uuid
  owner_key : String
  artifact_id : Uuid
  egress_policy : EgressPolicyRecord
  created_at : Timestamp
  updated_at : Timestamp
  deriving DecidableEq

inductive VolumeStorageClass where
  | Block | Filesystem | Object
  deriving DecidableEq

inductive VolumeStatus where
  | Creating | Available | Deleting | Error
  deriving DecidableEq

structure VolumeCapabilities where
  read_only_many : Bool
  read_write_once : Bool
  read_write_many : Bool
  snapshots : Bool
  clones : Bool
  deriving DecidableEq

structure VolumeRecord where
  id : Uuid
  owner_key : String
  name : String
  provider : String
  storage_class : VolumeStorageClass
  size_bytes : UInt64
  status : VolumeStatus
  capabilities : VolumeCapabilities
  host_id : Option String
  region : Option String
  zone : Option String
  generation : UInt64
  revision : UInt64
  last_error : Option String
  created_at : Timestamp
  updated_at : Timestamp
  deriving DecidableEq

inductive VolumeAttachmentMode where
  | ReadOnly | ReadWrite
  deriving DecidableEq

structure VmVolumeAttachmentRecord where
  vm_id : Uuid
  volume_id : Uuid
  device_index : UInt8
  owner_key : String
  mode : VolumeAttachmentMode
  volume_generation : UInt64
  created_at : Timestamp
  deriving DecidableEq

/-! ## Tables -/

structure HostRow where
  boot_session_id : Option Uuid
  healthy : Bool
  last_heartbeat : Timestamp
  deriving DecidableEq

/-- The columns of `fleet_vms`: process handles stay on the node. -/
structure VmRow where
  host_id : String
  owner_key : Option String
  api_key_id : Option String
  status : VmStatus
  revision : UInt64
  startup_path : Option VmStartupPath
  memory_mib : UInt64
  vcpus : UInt8
  kernel_path : String
  rootfs_path : Option String
  rootfs_read_only : Bool
  cmdline : String
  created_at : Timestamp
  updated_at : Timestamp
  generation : Nat
  deriving DecidableEq

structure HibernationRow where
  owner_key : String
  artifact_id : Uuid
  policy_revision : UInt64
  allowlist : List String
  allow_existing : Bool
  policy_created_at : Timestamp
  policy_updated_at : Timestamp
  created_at : Timestamp
  updated_at : Timestamp
  deriving DecidableEq

structure VmArtifactRefRow where
  owner_key : String
  artifact_id : Uuid
  vm_created_at : Timestamp
  created_at : Timestamp
  updated_at : Timestamp
  deriving DecidableEq

structure ReservationRow where
  owner_key : String
  expires_at : Timestamp
  deriving DecidableEq

inductive FleetKey where
  | host (host_id : String)
  | vm (id : Uuid)
  | artifact (artifact_id : Uuid)
  | branch (branch_id : Uuid)
  | hibernation (vm_id : Uuid)
  | vmArtifactRef (vm_id : Uuid)
  | volume (id : Uuid)
  | attachment (vm_id volume_id : Uuid)
  | reservation (id : Uuid)
  deriving DecidableEq

abbrev FleetRow : FleetKey → Type
  | .host _ => HostRow
  | .vm _ => VmRow
  | .artifact _ => ArtifactRecord
  | .branch _ => BranchRecord
  | .hibernation _ => HibernationRow
  | .vmArtifactRef _ => VmArtifactRefRow
  | .volume _ => VolumeRecord
  | .attachment _ _ => VmVolumeAttachmentRecord
  | .reservation _ => ReservationRow

/-- The foreign keys of the schema. Those on an artifact restrict its deletion; deleting a
VM deletes its hibernation and its attachments; deleting a branch clears `source_branch_id`
of the branches made from it. -/
def fleetSchema : Schema FleetRow where
  parents
    | .artifact _, row => (row.parent_artifact_id.map FleetKey.artifact).toList
    | .branch _, row =>
      .artifact row.head_artifact_id :: (row.source_branch_id.map FleetKey.branch).toList
    | .hibernation vm_id, row => [.vm vm_id, .artifact row.artifact_id]
    | .vmArtifactRef _, row => [.artifact row.artifact_id]
    | .attachment vm_id volume_id, _ => [.vm vm_id, .volume volume_id]
    | _, _ => []
  onDelete
    | .vm id, .hibernation vm_id, _ => if vm_id = id then some none else none
    | .vm id, .attachment vm_id _, _ => if vm_id = id then some none else none
    | .branch id, .branch _, row =>
      if row.source_branch_id = some id then some (some { row with source_branch_id := none })
      else none
    | _, _, _ => none
  restricts
    | .artifact id, .artifact _, row => row.parent_artifact_id == some id
    | .artifact id, .branch _, row => row.head_artifact_id == id
    | .artifact id, .hibernation _, row => row.artifact_id == id
    | .artifact id, .vmArtifactRef _, row => row.artifact_id == id
    | .volume id, .attachment _ volume_id, _ => volume_id == id
    | _, _, _ => false

inductive FleetError where
  /-- An error of the server or the connection. -/
  | Postgres
  | Config (message : String)
  | NotFound
  | Conflict (message : String)
  deriving DecidableEq

/-- A transaction of the fleet: an error rolls it back. -/
abbrev Fleet (α : Type) := ExceptT FleetError (Prog (Stmt FleetRow) Stmt.Answer) α

def query (st : Stmt FleetRow) : Fleet st.Answer := ExceptT.lift (Prog.perform st)

/-- `return Err(error)` unless `b`. -/
def ensure (b : Bool) (error : FleetError) : Fleet Unit := if b then pure () else throw error

/-- `u64_to_sql_i64`, which keeps the value or fails. -/
def u64ToSqlI64 (value : UInt64) : Fleet Unit :=
  ensure (value.toNat < 2 ^ 63) (.Config "share token version is too large")

/-- PostgreSQL keeps microseconds. -/
def normalizeTimestampForPostgres (timestamp : Timestamp) : Timestamp := timestamp / 1000 * 1000

def normalizeVmTimestampsForPostgres (vm : VmRecord) : VmRecord :=
  { vm with
    created_at := normalizeTimestampForPostgres vm.created_at
    updated_at := normalizeTimestampForPostgres vm.updated_at }

def normalizeBranchTimestampsForPostgres (branch : BranchRecord) : BranchRecord :=
  { branch with
    created_at := normalizeTimestampForPostgres branch.created_at
    updated_at := normalizeTimestampForPostgres branch.updated_at }

end Tarit.Fleet
