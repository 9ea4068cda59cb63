import Mathlib.Data.List.Sort
import Tarit.Fleet.Records

/-!
# The transactions of the fleet store

The calls of `PostgresFleet` that write VM ownership, artifact references and volumes, each
a program of its SQL statements. `now` is the time of the server or of the node at the call.
The error of a failed statement is not a value here: any transaction may be rolled back at
any point.
-/
namespace Tarit.Fleet

open Lib

/-! ## Hosts and VMs -/

def upsertHost (host_id : String) (host : HostRow) : Fleet Unit := do
  let _ ← query (.upsert (.host host_id) host (fun _ => true) fun _ => host)

/-- The row that `upsert_vm` inserts. -/
def vmRow (vm : VmRecord) : VmRow where
  host_id := vm.host_id
  owner_key := vm.owner_key
  api_key_id := vm.api_key_id
  status := vm.status
  revision := vm.revision
  startup_path := vm.startup_path
  memory_mib := vm.memory_mib
  vcpus := vm.vcpus
  kernel_path := vm.kernel_path
  rootfs_path := vm.rootfs_path
  rootfs_read_only := vm.rootfs_read_only
  cmdline := vm.cmdline
  created_at := vm.created_at
  updated_at := vm.updated_at
  generation := 1

/-- The WHERE clause of its `ON CONFLICT DO UPDATE`. -/
def acceptsVm (vm : VmRecord) (row : VmRow) : Bool :=
  row.host_id == vm.host_id && row.created_at == vm.created_at && row.revision < vm.revision

/-- The SET clause: `host_id` and `created_at` stay. -/
def updatedVm (vm : VmRecord) (row : VmRow) : VmRow :=
  { vmRow vm with
    host_id := row.host_id
    created_at := row.created_at
    generation := row.generation + 1 }

/-- The record of a row: process handles are never reconstructed from the global index. -/
def vmOfRow (id : Uuid) (row : VmRow) : VmRecord where
  id := id
  host_id := row.host_id
  owner_key := row.owner_key
  api_key_id := row.api_key_id
  status := row.status
  revision := row.revision
  startup_path := row.startup_path
  memory_mib := row.memory_mib
  vcpus := row.vcpus
  kernel_path := row.kernel_path
  rootfs_path := row.rootfs_path
  rootfs_read_only := row.rootfs_read_only
  cmdline := row.cmdline
  runtime_layout := none
  socket_path := none
  pid := none
  created_at := row.created_at
  updated_at := row.updated_at

def rowToVm (id : Uuid) (row : VmRow) : Fleet VmRecord := do
  -- the BIGINT column holds the bits of the u64
  ensure (row.memory_mib.toNat < 2 ^ 63) (.Config "negative VM memory in fleet row")
  pure (vmOfRow id row)

/-- What `upsert_vm` answers when the row was not written. -/
def staleUpsert (vm : VmRecord) : Option VmRow → Fleet Nat
  | none => throw .NotFound
  | some existing => do
    let existing_vm ← rowToVm vm.id existing
    ensure (existing_vm.host_id == vm.host_id && existing_vm.created_at == vm.created_at)
      (.Conflict ("VM " ++ displayUuid vm.id ++ " is owned by another resource incarnation"))
    let expected := { vm with runtime_layout := none, socket_path := none, pid := none }
    ensure (!(existing_vm.revision == vm.revision && existing_vm != expected))
      (.Conflict ("VM " ++ displayUuid vm.id ++ " has two different records at revision " ++
        toString vm.revision))
    pure existing.generation

def dropReservation (vm : VmRecord) : Fleet Unit :=
  match vm.owner_key with
  | none => pure ()
  | some owner_key => do
    let _ ← query (.delete (.reservation vm.id) (fun row => row.owner_key == owner_key)
      fun _ _ => false)

def upsertVm (vm : VmRecord) : Fleet Nat := do
  let vm := normalizeVmTimestampsForPostgres vm
  ensure (vm.revision.toNat < 2 ^ 63) (.Config "VM revision exceeds PostgreSQL BIGINT")
  match ← query (.upsert (.vm vm.id) (vmRow vm) (acceptsVm vm) (updatedVm vm)) with
  | some row => do
    dropReservation vm
    pure row.generation
  | none => do
    let existing ← query (.select (.vm vm.id))
    staleUpsert vm existing

def HostRow.live (stale_before : Timestamp) (host : HostRow) : Bool :=
  host.healthy && stale_before ≤ host.last_heartbeat

def checkedSucc (revision : UInt64) (message : String) : Fleet UInt64 :=
  if revision.toNat + 1 < 2 ^ 64 then pure (revision + 1) else throw (.Conflict message)

structure HibernationClaim where
  owner_key : String
  id : Uuid
  target_host_id : String
  target_boot_session_id : Uuid
  stale_before : Timestamp

def movedVm (claim : HibernationClaim) (revision : UInt64) (now : Timestamp) (row : VmRow) :
    VmRow :=
  { row with
    host_id := claim.target_host_id
    revision
    updated_at := normalizeTimestampForPostgres now
    generation := row.generation + 1 }

def moveVm (claim : HibernationClaim) (vm : VmRecord) (now : Timestamp) : Fleet VmRecord := do
  let prior ← query (.select (.host vm.host_id))
  ensure (!(prior.any (HostRow.live claim.stale_before)))
    (.Conflict "hibernated VM owner is still healthy")
  let revision ← checkedSucc vm.revision "VM revision overflow"
  u64ToSqlI64 revision
  let changed ← query (.update (.vm claim.id) (fun row => row.status == .Hibernated)
    (movedVm claim revision now))
  ensure changed.isSome (.Conflict "hibernated VM ownership changed")
  pure { vm with host_id := claim.target_host_id, revision, updated_at := now }

def claimHibernatedVm (claim : HibernationClaim) (now : Timestamp) : Fleet VmRecord := do
  match ← query (.selectForUpdate (.vm claim.id) fun _ => true) with
  | none => throw .NotFound
  | some row => do
    let vm ← rowToVm claim.id row
    ensure (vm.owner_key == some claim.owner_key) .NotFound
    ensure (vm.status == .Hibernated)
      (.Conflict ("VM " ++ displayUuid claim.id ++ " is not hibernated"))
    let target ← query (.select (.host claim.target_host_id))
    ensure (target.any fun host => host.boot_session_id == some claim.target_boot_session_id &&
        host.live claim.stale_before)
      (.Conflict "target host boot session is not healthy and current")
    if vm.host_id = claim.target_host_id then pure vm else moveVm claim vm now

/-! ## Artifact references -/

def referenced (updated_at : Timestamp) (artifact : ArtifactRecord) : ArtifactRecord :=
  { artifact with reference_count := artifact.reference_count + 1, updated_at }

def unreferenced (updated_at : Timestamp) (artifact : ArtifactRecord) : ArtifactRecord :=
  { artifact with reference_count := artifact.reference_count - 1, updated_at }

/-- Acquire a reference to an artifact of the tenant for which `ready` holds. -/
def acquireArtifact (artifact_id : Uuid) (owner_key : String) (ready : ArtifactRecord → Bool)
    (updated_at : Timestamp) : Fleet Unit := do
  let acquired ← query (.update (.artifact artifact_id)
    (fun artifact => artifact.owner_key == owner_key && ready artifact) (referenced updated_at))
  ensure acquired.isSome .NotFound

def releaseArtifact (artifact_id : Uuid) (owner_key : String) (updated_at : Timestamp)
    (message : String) : Fleet Unit := do
  let released ← query (.update (.artifact artifact_id)
    (fun artifact => artifact.owner_key == owner_key && 0 < artifact.reference_count)
    (unreferenced updated_at))
  ensure released.isSome (.Conflict message)

def available (artifact : ArtifactRecord) : Bool := artifact.status == .Available

def availableAndReady (artifact : ArtifactRecord) : Bool :=
  artifact.status == .Available && artifact.replication_state == .Ready

/-- Delete the artifact if nothing refers to it, and then its parent. The loop runs at most
`rounds` times before the connection fails. -/
def deleteUnreferencedArtifactChainTx (owner_key : String) (now : Timestamp) :
    (rounds : Nat) → (candidate : Uuid) → Fleet Unit
  | 0, _ => throw .Postgres
  | rounds + 1, current_id => do
    match ← query (.selectForUpdate (.artifact current_id) fun artifact =>
        artifact.owner_key == owner_key) with
    | none => pure ()
    | some artifact =>
      if artifact.reference_count = 0 then do
        let _ ← query (.delete (.artifact current_id) (fun artifact =>
          artifact.owner_key == owner_key && artifact.reference_count == 0) fun _ _ => false)
        match artifact.parent_artifact_id with
        | none => pure ()
        | some parent_id => do
          releaseArtifact parent_id owner_key now "parent artifact has no reference to release"
          deleteUnreferencedArtifactChainTx owner_key now rounds parent_id
      else pure ()

def releaseVmArtifactRefTx (vm : VmRecord) (now : Timestamp) (rounds : Nat) : Fleet Unit := do
  match ← query (.selectForUpdate (.vmArtifactRef vm.id) fun _ => true) with
  | none => pure ()
  | some row => do
    ensure (vm.owner_key == some row.owner_key && vm.created_at == row.vm_created_at)
      (.Conflict "refusing stale VM artifact reference release")
    let _ ← query (.delete (.vmArtifactRef vm.id) (fun current =>
      current.owner_key == row.owner_key && current.vm_created_at == row.vm_created_at)
        fun _ _ => false)
    releaseArtifact row.artifact_id row.owner_key now "VM artifact reference count is missing"
    deleteUnreferencedArtifactChainTx row.owner_key now rounds row.artifact_id

def acquireVmArtifactRef (vm : VmRecord) (artifact_id : Uuid) (now : Timestamp) : Fleet Unit := do
  let vm := normalizeVmTimestampsForPostgres vm
  match vm.owner_key with
  | none => throw (.Conflict "artifact-backed VM requires a tenant owner")
  | some owner_key => do
    match ← query (.selectForUpdate (.vmArtifactRef vm.id) fun _ => true) with
    | some row =>
      ensure (row.owner_key == owner_key && row.artifact_id == artifact_id &&
          row.vm_created_at == vm.created_at)
        (.Conflict "VM artifact reference belongs to another incarnation")
    | none => do
      acquireArtifact artifact_id owner_key available now
      query (.insert (.vmArtifactRef vm.id)
        { owner_key, artifact_id, vm_created_at := vm.created_at
          created_at := now, updated_at := now })

def releaseVmArtifactRef (vm : VmRecord) (now : Timestamp) (rounds : Nat) : Fleet Unit :=
  releaseVmArtifactRefTx (normalizeVmTimestampsForPostgres vm) now rounds

def hibernationRow (record : FleetHibernationRecord) : HibernationRow where
  owner_key := record.owner_key
  artifact_id := record.artifact_id
  policy_revision := record.egress_policy.revision
  allowlist := record.egress_policy.allowlist
  allow_existing := record.egress_policy.allow_existing
  policy_created_at := record.egress_policy.created_at
  policy_updated_at := record.egress_policy.updated_at
  created_at := record.created_at
  updated_at := record.updated_at

/-- Acquire the artifact unless the hibernation refers to it already. -/
def acquireHibernated (record : FleetHibernationRecord) (previous : Option Uuid) : Fleet Unit :=
  if previous = some record.artifact_id then pure ()
  else acquireArtifact record.artifact_id record.owner_key (fun artifact =>
    artifact.source_vm_id == some record.vm_id && availableAndReady artifact) record.updated_at

def releasePrevious (record : FleetHibernationRecord) : Option Uuid → Fleet Unit
  | none => pure ()
  | some previous =>
    if previous = record.artifact_id then pure ()
    else releaseArtifact previous record.owner_key record.updated_at
      "prior hibernation artifact reference is missing"

def upsertHibernation (record : FleetHibernationRecord) : Fleet Unit := do
  ensure (record.egress_policy.vm_id == record.vm_id &&
      record.egress_policy.owner_key == record.owner_key && record.egress_policy.revision != 0)
    (.Conflict "hibernation egress policy identity or revision is invalid")
  let existing ← query (.selectForUpdate (.hibernation record.vm_id) fun row =>
    row.owner_key == record.owner_key)
  let previous_artifact := existing.map HibernationRow.artifact_id
  acquireHibernated record previous_artifact
  u64ToSqlI64 record.egress_policy.revision
  let changed ← query (.upsert (.hibernation record.vm_id) (hibernationRow record)
    (fun row => row.owner_key == record.owner_key) fun row =>
      { hibernationRow record with owner_key := row.owner_key, created_at := row.created_at })
  ensure changed.isSome (.Conflict "hibernation belongs to another tenant")
  releasePrevious record previous_artifact

def updateHibernationEgress (owner_key : String) (vm_id : Uuid) (expected_revision : UInt64)
    (policy : EgressPolicyRecord) : Fleet Unit := do
  let next ← checkedSucc expected_revision "egress policy revision overflow"
  ensure (policy.vm_id == vm_id && policy.owner_key == owner_key && policy.revision == next)
    (.Conflict "replacement egress policy identity or revision is invalid")
  u64ToSqlI64 expected_revision
  u64ToSqlI64 policy.revision
  let changed ← query (.update (.hibernation vm_id) (fun row =>
    row.owner_key == owner_key && row.policy_revision == expected_revision) fun row =>
      { row with
        policy_revision := policy.revision, allowlist := policy.allowlist
        allow_existing := policy.allow_existing, policy_updated_at := policy.updated_at
        updated_at := policy.updated_at })
  ensure changed.isSome (.Conflict "hibernation egress revision changed")

def deleteHibernation (owner_key : String) (vm_id : Uuid) (now : Timestamp) (rounds : Nat) :
    Fleet Unit := do
  match ← query (.delete (.hibernation vm_id) (fun row => row.owner_key == owner_key)
      fun _ _ => false) with
  | none => throw .NotFound
  | some row => do
    releaseArtifact row.artifact_id owner_key now "hibernation artifact reference is missing"
    deleteUnreferencedArtifactChainTx owner_key now rounds row.artifact_id

/-- The hibernation that a deleted VM leaves behind. -/
def releaseHibernation (now : Timestamp) (rounds : Nat) : Option HibernationRow → Fleet Unit
  | none => pure ()
  | some row => do
    releaseArtifact row.artifact_id row.owner_key now "hibernation artifact reference is missing"
    deleteUnreferencedArtifactChainTx row.owner_key now rounds row.artifact_id

def deleteVm (vm : VmRecord) (now : Timestamp) (rounds : Nat) : Fleet Unit := do
  let vm := normalizeVmTimestampsForPostgres vm
  let current ← query (.selectForUpdate (.vm vm.id) fun _ => true)
  ensure (current.all fun row => row.host_id == vm.host_id && row.created_at == vm.created_at)
    (.Conflict ("refusing stale ownership delete for VM " ++ displayUuid vm.id))
  releaseVmArtifactRefTx vm now rounds
  let hibernation ← query (.delete (.hibernation vm.id) (fun _ => true) fun _ _ => false)
  releaseHibernation now rounds hibernation
  let _ ← query (.delete (.vm vm.id) (fun row => row.created_at == vm.created_at) fun _ _ => false)

/-! ## Artifacts and branches -/

def sameImmutableArtifact (left right : ArtifactRecord) : Bool :=
  left.artifact_id == right.artifact_id && left.owner_key == right.owner_key &&
  left.host_id == right.host_id && left.storage_locator == right.storage_locator &&
  left.kind == right.kind && left.content_digest == right.content_digest &&
  left.size_bytes == right.size_bytes &&
  left.immutable_image_digest == right.immutable_image_digest &&
  left.agent_digest == right.agent_digest &&
  left.boot_manifest_digest == right.boot_manifest_digest &&
  left.parent_artifact_id == right.parent_artifact_id &&
  left.source_vm_id == right.source_vm_id &&
  left.creation_revision == right.creation_revision &&
  left.integrity_manifest_digest == right.integrity_manifest_digest &&
  left.chunk_size_bytes == right.chunk_size_bytes && left.chunk_count == right.chunk_count

/-- The replication state of a new artifact. `single` is whether one replica in one failure
domain is enough. -/
def initialReplicationState (artifact : ArtifactRecord) (single : Bool) (now : Timestamp) :
    Fleet ArtifactReplicationState :=
  match artifact.status, single with
  | .Available, true => do
    let host ← query (.select (.host artifact.host_id))
    pure (if host.any (HostRow.live (now - 15000000000)) then .Ready else .Degraded)
  | .Available, false => pure .Degraded
  | _, _ => pure .Pending

def acquireParent (artifact : ArtifactRecord) : Fleet Unit :=
  match artifact.parent_artifact_id with
  | none => pure ()
  | some parent => acquireArtifact parent artifact.owner_key availableAndReady artifact.updated_at

def insertArtifact (artifact : ArtifactRecord) (single : Bool) (now : Timestamp) :
    Fleet Unit := do
  ensure (artifact.reference_count == 0) (.Conflict "new artifact reference_count must be zero")
  let existing ← query (.select (.artifact artifact.artifact_id))
  match existing.filter fun row => row.owner_key == artifact.owner_key with
  | some existing =>
    ensure (sameImmutableArtifact existing artifact)
      (.Conflict "artifact id already exists with different content")
  | none => do
    acquireParent artifact
    u64ToSqlI64 artifact.size_bytes
    u64ToSqlI64 artifact.creation_revision
    u64ToSqlI64 artifact.chunk_size_bytes
    u64ToSqlI64 artifact.chunk_count
    let replication_state ← initialReplicationState artifact single now
    query (.insert (.artifact artifact.artifact_id) { artifact with replication_state })

/-- What replica reports and health refreshes do to an artifact. -/
def setReplicationState (artifact_id : Uuid) (owner_key : String)
    (replication_state : ArtifactReplicationState) (updated_at : Timestamp) : Fleet Unit := do
  let _ ← query (.update (.artifact artifact_id) (fun artifact => artifact.owner_key == owner_key)
    fun artifact => { artifact with replication_state, updated_at })

def releaseParent (owner_key : String) (now : Timestamp) : Option Uuid → Fleet Unit
  | none => pure ()
  | some parent_id =>
    releaseArtifact parent_id owner_key now "parent artifact has no reference to release"

def deleteArtifactIfUnreferenced (owner_key : String) (artifact_id : Uuid) (now : Timestamp) :
    Fleet ArtifactRecord := do
  match ← query (.selectForUpdate (.artifact artifact_id) fun artifact =>
      artifact.owner_key == owner_key) with
  | none => throw .NotFound
  | some artifact => do
    ensure (artifact.reference_count == 0)
      (.Conflict ("artifact has " ++ toString artifact.reference_count ++ " references"))
    let _ ← query (.delete (.artifact artifact_id) (fun artifact =>
      artifact.owner_key == owner_key && artifact.reference_count == 0) fun _ _ => false)
    releaseParent owner_key now artifact.parent_artifact_id
    pure artifact

/-- A row that `insert_branch` requires to exist. -/
def ensureSource (k : FleetKey) (owned : FleetRow k → Bool) : Fleet Unit := do
  let row ← query (.select k)
  ensure (Option.any owned row) .NotFound

def ensureSourceBranch (branch : BranchRecord) : Fleet Unit :=
  match branch.source_branch_id with
  | none => pure ()
  | some source_branch =>
    ensureSource (.branch source_branch) fun row => row.owner_key == branch.owner_key

def ensureSourceVm (branch : BranchRecord) : Fleet Unit :=
  match branch.source_vm_id with
  | none => pure ()
  | some source_vm =>
    ensureSource (.vm source_vm) fun row => row.owner_key == some branch.owner_key

def insertBranch (branch : BranchRecord) : Fleet BranchRecord := do
  let branch := normalizeBranchTimestampsForPostgres branch
  let existing ← query (.select (.branch branch.branch_id))
  match existing.filter fun row => row.owner_key == branch.owner_key with
  | some existing => do
    ensure (existing.name == branch.name &&
        existing.head_artifact_id == branch.head_artifact_id &&
        existing.source_vm_id == branch.source_vm_id &&
        existing.source_branch_id == branch.source_branch_id)
      (.Conflict "branch id already exists with different content")
    pure existing
  | none => do
    ensureSourceBranch branch
    ensureSourceVm branch
    acquireArtifact branch.head_artifact_id branch.owner_key availableAndReady branch.updated_at
    u64ToSqlI64 branch.revision
    query (.insert (.branch branch.branch_id) branch)
    pure branch

def acquireHead (owner_key : String) (current new_head : Uuid) (updated_at : Timestamp) :
    Fleet Unit :=
  if current = new_head then pure ()
  else acquireArtifact new_head owner_key availableAndReady updated_at

def releaseHead (owner_key : String) (current new_head : Uuid) (updated_at : Timestamp) :
    Fleet Unit :=
  if current = new_head then pure ()
  else releaseArtifact current owner_key updated_at "old branch head has no reference to release"

def updateBranchHead (owner_key : String) (branch_id : Uuid) (expected_revision : UInt64)
    (new_head : Uuid) (updated_at : Timestamp) : Fleet Unit := do
  match ← query (.selectForUpdate (.branch branch_id) fun row => row.owner_key == owner_key) with
  | none => throw .NotFound
  | some current => do
    ensure (current.revision == expected_revision)
      (.Conflict ("branch revision is " ++ toString current.revision ++ ", expected " ++
        toString expected_revision))
    acquireHead owner_key current.head_artifact_id new_head updated_at
    let revision ← checkedSucc expected_revision "branch revision overflow"
    u64ToSqlI64 expected_revision
    u64ToSqlI64 revision
    let _ ← query (.update (.branch branch_id) (fun row =>
      row.owner_key == owner_key && row.revision == expected_revision) fun row =>
        { row with head_artifact_id := new_head, revision, updated_at })
    releaseHead owner_key current.head_artifact_id new_head updated_at

def deleteBranch (owner_key : String) (branch_id : Uuid) (now : Timestamp) (rounds : Nat) :
    Fleet BranchRecord := do
  match ← query (.selectForUpdate (.branch branch_id) fun row => row.owner_key == owner_key) with
  | none => throw .NotFound
  | some branch => do
    let _ ← query (.delete (.branch branch_id) (fun row => row.owner_key == owner_key)
      fun _ _ => false)
    releaseArtifact branch.head_artifact_id owner_key now "branch head has no reference to release"
    deleteUnreferencedArtifactChainTx owner_key now rounds branch.head_artifact_id
    pure branch

/-! ## Volumes -/

def sameImmutableVolume (left right : VolumeRecord) : Bool :=
  left.id == right.id && left.owner_key == right.owner_key && left.name == right.name &&
  left.provider == right.provider && left.storage_class == right.storage_class &&
  left.size_bytes == right.size_bytes && left.capabilities == right.capabilities &&
  left.host_id == right.host_id && left.region == right.region && left.zone == right.zone &&
  left.generation == right.generation

def named (owner_key name : String) : (k : FleetKey) → FleetRow k → Bool
  | .volume _, volume => volume.owner_key == owner_key && volume.name == name
  | _, _ => false

/-- The volume `id`, or a volume of the tenant with the name. -/
def identified (volume : VolumeRecord) : (k : FleetKey) → FleetRow k → Bool
  | .volume id, row =>
    id == volume.id || row.owner_key == volume.owner_key && row.name == volume.name
  | _, _ => false

/-- `insert_volume` where the row was not inserted. -/
def existingVolume (volume : VolumeRecord) : Option ((k : FleetKey) × FleetRow k) →
    Fleet VolumeRecord
  | some ⟨.volume _, existing⟩ =>
    if sameImmutableVolume existing volume then pure existing
    else throw (.Conflict "volume id or name already exists with different immutable properties")
  | _ => throw .NotFound

def insertVolume (volume : VolumeRecord) : Fleet VolumeRecord := do
  ensure (volume.owner_key != "" && volume.name != "" && volume.provider != "" &&
      volume.generation != 0 && volume.revision != 0)
    (.Conflict "volume identity, provider, generation, and revision are required")
  u64ToSqlI64 volume.size_bytes
  u64ToSqlI64 volume.generation
  u64ToSqlI64 volume.revision
  let inserted ← query (.insertIfNone (.volume volume.id) volume
    (named volume.owner_key volume.name))
  match inserted with
  | true => pure volume
  | false => do
    let existing ← query (.find (identified volume))
    existingVolume volume existing

/-- A change of state by its provider. Every caller makes a volume available or reports an
error; deletion goes through `begin_volume_delete`. -/
structure VolumeTransition where
  expected_status : VolumeStatus
  expected_revision : UInt64
  status : VolumeStatus
  last_error : Option String
  updated_at : Timestamp
  settles : status ≠ .Deleting

def transitionVolume (owner_key : String) (id : Uuid) (transition : VolumeTransition) :
    Fleet VolumeRecord := do
  let revision ← checkedSucc transition.expected_revision "volume revision exhausted"
  u64ToSqlI64 transition.expected_revision
  u64ToSqlI64 revision
  match ← query (.update (.volume id) (fun volume => volume.owner_key == owner_key &&
      volume.status == transition.expected_status &&
      volume.revision == transition.expected_revision) fun volume =>
        { volume with
          status := transition.status, revision, last_error := transition.last_error
          updated_at := transition.updated_at }) with
  | some volume => pure volume
  | none => do
    ensureSource (.volume id) fun volume => volume.owner_key == owner_key
    throw (.Conflict "stale volume transition")

def attachedTo (volume_id : Uuid) : (k : FleetKey) → FleetRow k → Bool
  | .attachment _ volume, _ => volume == volume_id
  | _, _ => false

def beginVolumeDelete (owner_key : String) (id : Uuid) (expected_status : VolumeStatus)
    (expected_revision : UInt64) (updated_at : Timestamp) : Fleet VolumeRecord := do
  match ← query (.selectForUpdate (.volume id) fun volume => volume.owner_key == owner_key) with
  | none => throw .NotFound
  | some volume => do
    ensure (volume.status == expected_status) (.Conflict "stale volume deletion claim")
    u64ToSqlI64 expected_revision
    ensure (volume.revision == expected_revision) (.Conflict "stale volume deletion claim")
    let attached ← query (.find (attachedTo id))
    ensure attached.isNone (.Conflict "volume is attached to a VM")
    let revision ← checkedSucc expected_revision "volume revision exhausted"
    u64ToSqlI64 revision
    match ← query (.update (.volume id) (fun volume => volume.owner_key == owner_key) fun volume =>
        { volume with status := .Deleting, revision, last_error := none, updated_at }) with
    | none => throw .Postgres
    | some volume => pure volume

def deleteVolumeMetadata (owner_key : String) (id : Uuid) (expected_revision : UInt64) :
    Fleet Unit := do
  u64ToSqlI64 expected_revision
  match ← query (.delete (.volume id) (fun volume => volume.owner_key == owner_key &&
      volume.status == .Deleting && volume.revision == expected_revision) (attachedTo id)) with
  | some _ => pure ()
  | none => do
    ensureSource (.volume id) fun volume => volume.owner_key == owner_key
    throw (.Conflict "stale or attached volume deletion")

/-- The attachments of the volume that a new one in `mode` excludes. -/
def excludedBy (volume_id : Uuid) (mode : VolumeAttachmentMode) : (k : FleetKey) → FleetRow k → Bool
  | .attachment _ volume, row =>
    volume == volume_id && (mode == .ReadWrite || row.mode == .ReadWrite)
  | _, _ => false

def lacksMode (mode : VolumeAttachmentMode) (capabilities : VolumeCapabilities) : Bool :=
  match mode with
  | .ReadOnly => !capabilities.read_only_many
  | .ReadWrite => !capabilities.read_write_once && !capabilities.read_write_many

def sameAttachment (existing attachment : VmVolumeAttachmentRecord) : Bool :=
  existing.device_index == attachment.device_index &&
  existing.owner_key == attachment.owner_key && existing.mode == attachment.mode &&
  existing.volume_generation == attachment.volume_generation

/-- The exclusive access of a read-write attachment, unless the volume is read-write-many. -/
def ensureExclusive (volume : VolumeRecord) (attachment : VmVolumeAttachmentRecord) :
    Fleet Unit :=
  if volume.capabilities.read_write_many then pure ()
  else do
    let conflicting ← query (.find (excludedBy attachment.volume_id attachment.mode))
    ensure conflicting.isNone (.Conflict "read-write volume attachment is exclusive")

def bindVolume (count : Nat) (attachment : VmVolumeAttachmentRecord) : Fleet Unit := do
  ensure (attachment.owner_key != "" && attachment.volume_generation != 0 &&
      attachment.device_index.toNat < count)
    (.Conflict "invalid VM volume attachment identity")
  match ← query (.selectForUpdate (.volume attachment.volume_id) fun _ => true) with
  | none => throw .NotFound
  | some volume => do
    ensure (volume.owner_key == attachment.owner_key && volume.status == .Available)
      (.Conflict
        "volume is unavailable, belongs to another tenant, or lacks the requested access mode")
    u64ToSqlI64 attachment.volume_generation
    ensure (volume.generation == attachment.volume_generation &&
        !lacksMode attachment.mode volume.capabilities)
      (.Conflict
        "volume is unavailable, belongs to another tenant, or lacks the requested access mode")
    match ← query (.select (.attachment attachment.vm_id attachment.volume_id)) with
    | some existing =>
      ensure (sameAttachment existing attachment)
        (.Conflict "VM volume attachment replay changed immutable properties")
    | none => do
      ensureExclusive volume attachment
      query (.insert (.attachment attachment.vm_id attachment.volume_id) attachment)

def bindVolumes (count : Nat) : List VmVolumeAttachmentRecord → Fleet Unit
  | [] => pure ()
  | attachment :: rest => do
    bindVolume count attachment
    bindVolumes count rest

def bindVmVolumes (attachments : List VmVolumeAttachmentRecord) : Fleet Unit := do
  ensure (attachments.length ≤ 15) (.Conflict "a VM supports at most 15 persistent data volumes")
  match attachments with
  | [] => pure ()
  | first :: _ => do
    ensure (attachments.all fun attachment =>
        attachment.vm_id == first.vm_id && attachment.owner_key == first.owner_key)
      (.Conflict "one bind transaction must target one VM and tenant")
    match ← query (.selectForUpdate (.vm first.vm_id) fun _ => true) with
    | none => throw .NotFound
    | some vm => do
      ensure (vm.owner_key == some first.owner_key) (.Conflict "VM belongs to another tenant")
      bindVolumes attachments.length
        (attachments.insertionSort fun left right => left.volume_id ≤ right.volume_id)

def unbindVmVolumes (owner_key : String) (vm_id : Uuid) : Fleet Unit :=
  query (.deleteWhere fun
    | .attachment vm _, row => vm == vm_id && row.owner_key == owner_key
    | _, _ => false)

/-! ## The calls -/

inductive FleetCall where
  | upsertHost (host_id : String) (host : HostRow)
  | upsertVm (vm : VmRecord)
  | claimHibernatedVm (claim : HibernationClaim) (now : Timestamp)
  | deleteVm (vm : VmRecord) (now : Timestamp) (rounds : Nat)
  | upsertHibernation (record : FleetHibernationRecord)
  | updateHibernationEgress (owner_key : String) (vm_id : Uuid) (expected_revision : UInt64)
      (policy : EgressPolicyRecord)
  | deleteHibernation (owner_key : String) (vm_id : Uuid) (now : Timestamp) (rounds : Nat)
  | acquireVmArtifactRef (vm : VmRecord) (artifact_id : Uuid) (now : Timestamp)
  | releaseVmArtifactRef (vm : VmRecord) (now : Timestamp) (rounds : Nat)
  | insertArtifact (artifact : ArtifactRecord) (single : Bool) (now : Timestamp)
  | setReplicationState (artifact_id : Uuid) (owner_key : String)
      (state : ArtifactReplicationState) (updated_at : Timestamp)
  | deleteArtifactIfUnreferenced (owner_key : String) (artifact_id : Uuid) (now : Timestamp)
  | insertBranch (branch : BranchRecord)
  | updateBranchHead (owner_key : String) (branch_id : Uuid) (expected_revision : UInt64)
      (new_head : Uuid) (updated_at : Timestamp)
  | deleteBranch (owner_key : String) (branch_id : Uuid) (now : Timestamp) (rounds : Nat)
  | insertVolume (volume : VolumeRecord)
  | transitionVolume (owner_key : String) (id : Uuid) (transition : VolumeTransition)
  | beginVolumeDelete (owner_key : String) (id : Uuid) (expected_status : VolumeStatus)
      (expected_revision : UInt64) (updated_at : Timestamp)
  | deleteVolumeMetadata (owner_key : String) (id : Uuid) (expected_revision : UInt64)
  | bindVmVolumes (attachments : List VmVolumeAttachmentRecord)
  | unbindVmVolumes (owner_key : String) (vm_id : Uuid)

namespace FleetCall

abbrev Reply : FleetCall → Type
  | upsertVm _ => Nat
  | claimHibernatedVm _ _ => VmRecord
  | deleteArtifactIfUnreferenced _ _ _ => ArtifactRecord
  | insertBranch _ => BranchRecord
  | deleteBranch _ _ _ _ => BranchRecord
  | insertVolume _ => VolumeRecord
  | transitionVolume _ _ _ => VolumeRecord
  | beginVolumeDelete _ _ _ _ _ => VolumeRecord
  | _ => Unit

def prog : (c : FleetCall) → Fleet c.Reply
  | upsertHost host_id host => Fleet.upsertHost host_id host
  | upsertVm vm => Fleet.upsertVm vm
  | claimHibernatedVm claim now => Fleet.claimHibernatedVm claim now
  | deleteVm vm now rounds => Fleet.deleteVm vm now rounds
  | upsertHibernation record => Fleet.upsertHibernation record
  | updateHibernationEgress owner_key vm_id expected_revision policy =>
    Fleet.updateHibernationEgress owner_key vm_id expected_revision policy
  | deleteHibernation owner_key vm_id now rounds =>
    Fleet.deleteHibernation owner_key vm_id now rounds
  | acquireVmArtifactRef vm artifact_id now => Fleet.acquireVmArtifactRef vm artifact_id now
  | releaseVmArtifactRef vm now rounds => Fleet.releaseVmArtifactRef vm now rounds
  | insertArtifact artifact single now => Fleet.insertArtifact artifact single now
  | setReplicationState artifact_id owner_key state updated_at =>
    Fleet.setReplicationState artifact_id owner_key state updated_at
  | deleteArtifactIfUnreferenced owner_key artifact_id now =>
    Fleet.deleteArtifactIfUnreferenced owner_key artifact_id now
  | insertBranch branch => Fleet.insertBranch branch
  | updateBranchHead owner_key branch_id expected_revision new_head updated_at =>
    Fleet.updateBranchHead owner_key branch_id expected_revision new_head updated_at
  | deleteBranch owner_key branch_id now rounds => Fleet.deleteBranch owner_key branch_id now rounds
  | insertVolume volume => Fleet.insertVolume volume
  | transitionVolume owner_key id transition => Fleet.transitionVolume owner_key id transition
  | beginVolumeDelete owner_key id expected_status expected_revision updated_at =>
    Fleet.beginVolumeDelete owner_key id expected_status expected_revision updated_at
  | deleteVolumeMetadata owner_key id expected_revision =>
    Fleet.deleteVolumeMetadata owner_key id expected_revision
  | bindVmVolumes attachments => Fleet.bindVmVolumes attachments
  | unbindVmVolumes owner_key vm_id => Fleet.unbindVmVolumes owner_key vm_id

end FleetCall

/-- The fleet store, restricted to interleavings whose statements meet `ok`. -/
def fleetService (ok : FleetCall → Session FleetRow → Stmt FleetRow → Prop) :
    Service FleetRow FleetCall.Reply FleetError where
  schema := fleetSchema
  prog := FleetCall.prog
  ok := ok

end Tarit.Fleet
