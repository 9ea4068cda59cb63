import Tarit.Fleet.References
import Tarit.Store.Volumes

/-!
# Artifacts and branches of the local store

The artifacts, their replicas and the branches in the SQLite store of a node. Each call is one
transaction, of which one runs at a time. As in the fleet, a row weighs the count it carries less
the reference it makes; here the weights are tallied over the rows of the tables, a statement
changes the tally by what it does to one row, and a transaction commits only where the tally is
what it was. VMs and snapshots are changed by other calls, in any way.
-/
namespace Tarit.Store

open Lib Fleet List Option
open Fallible (Holds Leads)

/-! ## Tables -/

inductive ArtifactReplicaStatus where
  | Staging | Available | Corrupt | Deleting
  deriving DecidableEq

structure ArtifactReplicaRecord where
  artifact_id : Uuid
  owner_key : String
  host_id : String
  failure_domain : String
  storage_locator : String
  status : ArtifactReplicaStatus
  content_digest : String
  size_bytes : UInt64
  integrity_manifest_digest : String
  verified_at : Option Timestamp
  created_at : Timestamp
  updated_at : Timestamp
  deriving DecidableEq

def replicaKey (replica : ArtifactReplicaRecord) : Uuid × String :=
  (replica.artifact_id, replica.host_id)

/-- The columns of `snapshots` that the deletion of a replica looks at. -/
structure SnapshotRow where
  path : String
  snapshot_id : Uuid
  owner_key : Option String
  deriving DecidableEq

structure Catalog where
  vms : Table VmRecord.id
  snapshots : Table SnapshotRow.path
  artifacts : Table ArtifactRecord.artifact_id
  replicas : Table replicaKey
  branches : Table BranchRecord.branch_id

abbrev CatalogStore (α : Type) := Fallible Catalog StoreError α

/-- A statement, which does not refuse. -/
def statement {α : Type} (f : Catalog → α × Catalog) : CatalogStore α :=
  Fallible.step .Sqlite fun t => .ok (f t)

def lookup {α : Type} (f : Catalog → α) : CatalogStore α := Fallible.read .Sqlite f

def demand (b : Bool) (error : StoreError) : CatalogStore Unit := Fallible.ensure b error

def foundOr {α : Type} (error : StoreError) : Option α → CatalogStore α
  | none => throw error
  | some a => pure a

def sqlI64 (value : UInt64) : CatalogStore Unit := demand (value.toNat < 2 ^ 63) .Sqlite

/-! ## Artifacts -/

/-- `UPDATE artifacts`, with the number of rows it changes. -/
def updateArtifacts (cond : ArtifactRecord → Bool) (set : ArtifactRecord → ArtifactRecord)
    (hset : ∀ artifact, (set artifact).artifact_id = artifact.artifact_id) (t : Catalog) :
    Nat × Catalog :=
  ((t.artifacts.rows.filter cond).length, { t with artifacts := t.artifacts.update cond set hset })

def isArtifact (artifact_id : Uuid) (owner_key : String) (row : ArtifactRecord) : Bool :=
  row.artifact_id == artifact_id && row.owner_key == owner_key

def acquireReference (artifact_id : Uuid) (owner_key : String) (updated_at : Timestamp) :
    CatalogStore Unit := do
  let changed ← statement (updateArtifacts (fun row =>
      isArtifact artifact_id owner_key row && row.status == .Available &&
      row.replication_state == .Ready) (fun row =>
        { row with reference_count := row.reference_count + 1, updated_at := updated_at })
    fun _ => rfl)
  demand (changed != 0) .NotFound

/-- An artifact loses a reference; `message` says that it has none. -/
def releaseReference (artifact_id : Uuid) (owner_key : String) (updated_at : Timestamp)
    (message : String) : CatalogStore Unit := do
  let released ← statement (updateArtifacts (fun row =>
      isArtifact artifact_id owner_key row && decide (0 < row.reference_count)) (fun row =>
        { row with reference_count := row.reference_count - 1, updated_at := updated_at })
    fun _ => rfl)
  demand (released == 1) (.Conflict message)

def selectArtifact (artifact_id : Uuid) (owner_key : String) :
    CatalogStore (Option ArtifactRecord) :=
  lookup fun t => (t.artifacts.find? artifact_id).filter fun row => row.owner_key == owner_key

/-- `INSERT INTO artifacts`: the id and the locator are unique, the parent exists, and the
revision and the chunks are positive. -/
def insertArtifactRow (artifact : ArtifactRecord) : CatalogStore Unit :=
  Fallible.step .Sqlite fun t =>
    if (t.artifacts.find? artifact.artifact_id).isSome ||
        (t.artifacts.rows.any fun row => row.storage_locator == artifact.storage_locator) ||
        (artifact.parent_artifact_id.any fun parent_id => (t.artifacts.find? parent_id).isNone) ||
        artifact.creation_revision == 0 || artifact.chunk_size_bytes == 0 ||
        artifact.chunk_count == 0 then
      .error (.Conflict "artifact already exists")
    else .ok ((), { t with artifacts := t.artifacts.insert { artifact with reference_count := 0 } })

/-- `INSERT INTO artifact_replicas`: the artifact and host are unique, as is the locator, and the
artifact exists. -/
def insertReplicaRow (replica : ArtifactReplicaRecord) : CatalogStore Unit :=
  Fallible.step .Sqlite fun t =>
    if (t.replicas.find? (replicaKey replica)).isSome ||
        (t.replicas.rows.any fun row => row.storage_locator == replica.storage_locator) ||
        (t.artifacts.find? replica.artifact_id).isNone then .error .Sqlite
    else .ok ((), { t with replicas := t.replicas.insert replica })

def replicaStatus : ArtifactStatus → ArtifactReplicaStatus
  | .Available => .Available
  | .Corrupt => .Corrupt
  | .Deleting => .Deleting
  | .Staging => .Staging

/-- The replica on the host of a new artifact, which is its failure domain. -/
def firstReplica (artifact : ArtifactRecord) : ArtifactReplicaRecord where
  artifact_id := artifact.artifact_id
  owner_key := artifact.owner_key
  host_id := artifact.host_id
  failure_domain := artifact.host_id
  storage_locator := artifact.storage_locator
  status := replicaStatus artifact.status
  content_digest := artifact.content_digest
  size_bytes := artifact.size_bytes
  integrity_manifest_digest := artifact.integrity_manifest_digest
  verified_at := if replicaStatus artifact.status =
    .Available then some artifact.updated_at else none
  created_at := artifact.created_at
  updated_at := artifact.updated_at

def acquireParent (artifact : ArtifactRecord) : CatalogStore Unit :=
  match artifact.parent_artifact_id with
  | none => pure ()
  | some parent_id => acquireReference parent_id artifact.owner_key artifact.updated_at

/-- A replay returns without a commit. -/
def insertArtifact (artifact : ArtifactRecord) : CatalogStore Unit := do
  demand (artifact.reference_count == 0) (.Conflict "new artifact reference_count must be zero")
  let existing ← selectArtifact artifact.artifact_id artifact.owner_key
  match existing with
  | some existing =>
    demand (sameImmutableArtifact existing artifact)
      (.Conflict "artifact id already exists with different content")
  | none =>
    Fallible.transaction .Sqlite do
      acquireParent artifact
      sqlI64 artifact.size_bytes
      sqlI64 artifact.creation_revision
      sqlI64 artifact.chunk_size_bytes
      sqlI64 artifact.chunk_count
      insertArtifactRow artifact
      insertReplicaRow (firstReplica artifact)

/-- `DELETE FROM artifacts … AND reference_count = 0`, with the number of rows it deletes: their
replicas go with them, and a parent or the head of a branch is not deleted. -/
def deleteArtifactRow (artifact_id : Uuid) (owner_key : String) (refusal : StoreError) :
    CatalogStore Nat :=
  Fallible.step .Sqlite fun t =>
    let deleted (row : ArtifactRecord) : Bool :=
      isArtifact artifact_id owner_key row && row.reference_count == 0
    if t.artifacts.rows.any deleted &&
        ((t.artifacts.rows.any fun row => row.parent_artifact_id == some artifact_id) ||
          t.branches.rows.any fun branch => branch.head_artifact_id == artifact_id) then
      .error refusal
    else
      .ok ((t.artifacts.rows.filter deleted).length,
        { t with
          artifacts := t.artifacts.filter fun row => !deleted row
          replicas := t.replicas.filter fun replica =>
            !(t.artifacts.rows.any deleted && replica.artifact_id == artifact_id) })

def releaseParent (artifact : ArtifactRecord) (owner_key : String) (now : Timestamp) :
    CatalogStore Unit :=
  match artifact.parent_artifact_id with
  | none => pure ()
  | some parent_id =>
    releaseReference parent_id owner_key now "parent artifact has no reference to release"

def deleteArtifactIfUnreferenced (owner_key : String) (artifact_id : Uuid) (now : Timestamp) :
    CatalogStore ArtifactRecord :=
  Fallible.transaction .Sqlite do
    let found ← selectArtifact artifact_id owner_key
    let artifact ← foundOr .NotFound found
    demand (artifact.reference_count == 0)
      (.Conflict ("artifact has " ++ toString artifact.reference_count ++ " references"))
    let _ ← deleteArtifactRow artifact_id owner_key (.Conflict "artifact is still referenced")
    releaseParent artifact owner_key now
    pure artifact

def deleteLocalReplicaMetadataIfUnreferenced (owner_key : String) (artifact_id : Uuid)
    (snapshot_path : String) (now : Timestamp) : CatalogStore ArtifactRecord :=
  Fallible.transaction .Sqlite do
    let found ← selectArtifact artifact_id owner_key
    let artifact ← foundOr .NotFound found
    demand (artifact.reference_count == 0 && artifact.storage_locator == snapshot_path)
      (.Conflict "local replica metadata is referenced or has a different locator")
    let snapshots ← statement fun t =>
      let deleted (row : SnapshotRow) : Bool :=
        row.snapshot_id == artifact_id && row.path == snapshot_path &&
          row.owner_key == some owner_key
      ((t.snapshots.rows.filter deleted).length,
        { t with snapshots := t.snapshots.filter fun row => !deleted row })
    demand (snapshots == 1) (.Conflict "local replica snapshot metadata does not match")
    let artifacts ← deleteArtifactRow artifact_id owner_key .Sqlite
    demand (artifacts == 1) (.Conflict "local replica artifact remained referenced")
    releaseParent artifact owner_key now
    pure artifact

/-! ## Replicas -/

/-- `INSERT … ON CONFLICT(artifact_id, host_id) DO UPDATE`: the locator is unique. -/
def upsertReplicaRow (replica : ArtifactReplicaRecord) : CatalogStore Unit :=
  Fallible.step .Sqlite fun t =>
    let sameRow (row : ArtifactReplicaRecord) : Bool := replicaKey row == replicaKey replica
    if t.replicas.rows.any fun row =>
        row.storage_locator == replica.storage_locator && !sameRow row then
      .error (.Conflict "replica locator already exists")
    else
      match t.replicas.find? (replicaKey replica) with
      | none => .ok ((), { t with replicas := t.replicas.insert replica })
      | some _ =>
        .ok ((), { t with
          replicas := t.replicas.update
            (fun row => sameRow row && row.owner_key == replica.owner_key)
            (fun row => { replica with
              artifact_id := row.artifact_id, owner_key := row.owner_key, host_id := row.host_id
              created_at := row.created_at })
            fun _ => rfl })

def replicationState (available failure_domains : Nat) (min_replicas min_failure_domains : UInt64) :
    ArtifactReplicationState :=
  if available = 0 then .Pending
  else if min_replicas.toNat ≤ available ∧ min_failure_domains.toNat ≤ failure_domains then .Ready
  else .Degraded

def recomputeArtifactReplication (owner_key : String) (artifact_id : Uuid)
    (min_replicas min_failure_domains : UInt64) (updated_at : Timestamp) :
    CatalogStore ArtifactReplicationState := do
  let replicas ← lookup fun t => t.replicas.rows.filter fun row =>
    row.artifact_id == artifact_id && row.owner_key == owner_key && row.status == .Available &&
    row.verified_at.isSome
  let state := replicationState replicas.length (replicas.map (·.failure_domain)).dedup.length
    min_replicas min_failure_domains
  let changed ← statement (updateArtifacts (isArtifact artifact_id owner_key)
    (fun row => { row with replication_state := state, updated_at := updated_at }) fun _ => rfl)
  demand (changed == 1) .NotFound
  pure state

def upsertArtifactReplica (replica : ArtifactReplicaRecord)
    (min_replicas min_failure_domains : UInt64) : CatalogStore ArtifactReplicationState := do
  demand (min_replicas != 0 && min_failure_domains != 0)
    (.Conflict "replication minima must be positive")
  Fallible.transaction .Sqlite do
    let found ← selectArtifact replica.artifact_id replica.owner_key
    let artifact ← foundOr .NotFound found
    demand (replica.content_digest == artifact.content_digest &&
        replica.size_bytes == artifact.size_bytes &&
        replica.integrity_manifest_digest == artifact.integrity_manifest_digest)
      (.Conflict "replica metadata does not match immutable artifact")
    demand (!(replica.status == .Available && replica.verified_at.isNone))
      (.Conflict "available replica requires verified_at")
    sqlI64 replica.size_bytes
    upsertReplicaRow replica
    recomputeArtifactReplication replica.owner_key replica.artifact_id min_replicas
      min_failure_domains replica.updated_at

/-! ## Branches -/

def selectBranch (branch_id : Uuid) (owner_key : String) : CatalogStore (Option BranchRecord) :=
  lookup fun t => (t.branches.find? branch_id).filter fun row => row.owner_key == owner_key

/-- `INSERT INTO branches`: the id is unique, as is the name of a tenant, the head exists and so
does the branch it comes from. -/
def insertBranchRow (branch : BranchRecord) : CatalogStore Unit :=
  Fallible.step .Sqlite fun t =>
    if (t.branches.find? branch.branch_id).isSome ||
        (t.branches.rows.any fun row =>
          row.owner_key == branch.owner_key && row.name == branch.name) ||
        (t.artifacts.find? branch.head_artifact_id).isNone ||
        (branch.source_branch_id.any fun id => (t.branches.find? id).isNone) then
      .error (.Conflict "branch id or name already exists")
    else .ok ((), { t with branches := t.branches.insert branch })

def checkSourceBranch (branch : BranchRecord) : CatalogStore Unit :=
  match branch.source_branch_id with
  | none => pure ()
  | some id => do
    let source_exists ← lookup fun t =>
      (t.branches.find? id).any fun row => row.owner_key == branch.owner_key
    demand source_exists .NotFound

def checkSourceVm (branch : BranchRecord) : CatalogStore Unit :=
  match branch.source_vm_id with
  | none => pure ()
  | some id => do
    let source_exists ← lookup fun t =>
      (t.vms.find? id).any fun row => row.owner_key == some branch.owner_key
    demand source_exists .NotFound

def insertBranch (branch : BranchRecord) : CatalogStore Unit := do
  demand (branch.revision != 0) (.Conflict "branch revision must be positive")
  let existing ← selectBranch branch.branch_id branch.owner_key
  match existing with
  | some existing =>
    demand (existing.name == branch.name && existing.head_artifact_id == branch.head_artifact_id &&
        existing.source_vm_id == branch.source_vm_id &&
        existing.source_branch_id == branch.source_branch_id)
      (.Conflict "branch id already exists with different content")
  | none =>
    Fallible.transaction .Sqlite do
      checkSourceBranch branch
      checkSourceVm branch
      acquireReference branch.head_artifact_id branch.owner_key branch.updated_at
      sqlI64 branch.revision
      insertBranchRow branch

/-- `UPDATE branches`, with the number of rows it changes. -/
def moveBranch (owner_key : String) (branch_id : Uuid) (expected_revision next_revision : UInt64)
    (head_artifact_id : Uuid) (updated_at : Timestamp) : CatalogStore Nat :=
  statement fun t =>
    let cond (row : BranchRecord) : Bool :=
      row.branch_id == branch_id && row.owner_key == owner_key && row.revision == expected_revision
    ((t.branches.rows.filter cond).length,
      { t with
        branches := t.branches.update cond
          (fun row => { row with head_artifact_id, revision := next_revision, updated_at })
          fun _ => rfl })

def updateBranchHead (owner_key : String) (branch_id : Uuid) (expected_revision : UInt64)
    (new_head_artifact_id : Uuid) (updated_at : Timestamp) : CatalogStore BranchRecord :=
  Fallible.transaction .Sqlite do
    let found ← selectBranch branch_id owner_key
    let current ← foundOr .NotFound found
    demand (current.revision == expected_revision)
      (.Conflict ("branch revision is " ++ toString current.revision ++ ", expected " ++
        toString expected_revision))
    (if current.head_artifact_id = new_head_artifact_id then pure ()
      else acquireReference new_head_artifact_id owner_key updated_at)
    demand (expected_revision.toNat + 1 < 2 ^ 64) (.Conflict "branch revision overflow")
    sqlI64 expected_revision
    sqlI64 (expected_revision + 1)
    let changed ← moveBranch owner_key branch_id expected_revision (expected_revision + 1)
      new_head_artifact_id updated_at
    demand (changed == 1) (.Conflict "branch changed concurrently")
    (if current.head_artifact_id = new_head_artifact_id then pure ()
      else releaseReference current.head_artifact_id owner_key updated_at
        "old branch head has no reference to release")
    let updated ← lookup fun t => t.branches.find? branch_id
    foundOr .Sqlite updated

/-- `DELETE FROM branches`: a branch that comes from it keeps no source. -/
def deleteBranchRow (owner_key : String) (branch_id : Uuid) : CatalogStore Unit :=
  statement fun t =>
    let deleted (row : BranchRecord) : Bool :=
      row.branch_id == branch_id && row.owner_key == owner_key
    let rest := t.branches.filter fun row => !deleted row
    ((), { t with
      branches := rest.update
        (fun row => t.branches.rows.any deleted && row.source_branch_id == some branch_id)
        (fun row => { row with source_branch_id := none }) fun _ => rfl })

def deleteBranch (owner_key : String) (branch_id : Uuid) (now : Timestamp) :
    CatalogStore BranchRecord :=
  Fallible.transaction .Sqlite do
    let found ← selectBranch branch_id owner_key
    let branch ← foundOr .NotFound found
    deleteBranchRow owner_key branch_id
    releaseReference branch.head_artifact_id owner_key now "branch head has no reference to release"
    pure branch

/-! ## Calls -/

inductive CatalogCall where
  | insertArtifact (artifact : ArtifactRecord)
  | upsertArtifactReplica (replica : ArtifactReplicaRecord)
      (min_replicas min_failure_domains : UInt64)
  | insertBranch (branch : BranchRecord)
  | updateBranchHead (owner_key : String) (branch_id : Uuid) (expected_revision : UInt64)
      (new_head_artifact_id : Uuid) (updated_at : Timestamp)
  | deleteBranch (owner_key : String) (branch_id : Uuid) (now : Timestamp)
  | deleteArtifactIfUnreferenced (owner_key : String) (artifact_id : Uuid) (now : Timestamp)
  | deleteLocalReplicaMetadataIfUnreferenced (owner_key : String) (artifact_id : Uuid)
      (snapshot_path : String) (now : Timestamp)
  /-- A call on the VMs or the snapshots. -/
  | other (vms : Table VmRecord.id) (snapshots : Table SnapshotRow.path)

def CatalogCall.prog : CatalogCall → CatalogStore Unit
  | .insertArtifact artifact => Store.insertArtifact artifact
  | .upsertArtifactReplica replica min_replicas min_failure_domains => do
    let _ ← Store.upsertArtifactReplica replica min_replicas min_failure_domains
  | .insertBranch branch => Store.insertBranch branch
  | .updateBranchHead owner_key branch_id expected_revision new_head_artifact_id updated_at => do
    let _ ← Store.updateBranchHead owner_key branch_id expected_revision
      new_head_artifact_id updated_at
  | .deleteBranch owner_key branch_id now => do
    let _ ← Store.deleteBranch owner_key branch_id now
  | .deleteArtifactIfUnreferenced owner_key artifact_id now => do
    let _ ← Store.deleteArtifactIfUnreferenced owner_key artifact_id now
  | .deleteLocalReplicaMetadataIfUnreferenced owner_key artifact_id snapshot_path now => do
    let _ ← Store.deleteLocalReplicaMetadataIfUnreferenced owner_key artifact_id snapshot_path now
  | .other vms snapshots => statement fun t => ((), { t with vms, snapshots })

def CatalogCall.after (call : CatalogCall) (faults : List Bool) (t : Catalog) : Catalog :=
  (call.prog ⟨t, faults⟩).2.state

def runCatalog (t : Catalog) : List (CatalogCall × List Bool) → Catalog
  | [] => t
  | (call, faults) :: rest => runCatalog (call.after faults t) rest

/-! ## Weights -/

/-- The branches whose head and the artifacts whose parent the artifact is. -/
def refersTo (t : Catalog) (a : Uuid) : Nat :=
  (t.branches.rows.filter fun branch => branch.head_artifact_id = a).length +
    (t.artifacts.rows.filter fun artifact => artifact.parent_artifact_id = some a).length

def countOf (t : Catalog) (a : Uuid) : Nat :=
  match t.artifacts.find? a with
  | some artifact => artifact.reference_count
  | none => 0

def ownCount (row : ArtifactRecord) : Uuid → ℤ :=
  fun a => if row.artifact_id = a then row.reference_count else 0

def artifactWeight (row : ArtifactRecord) : Uuid → ℤ := ownCount row - owed row.parent_artifact_id

def branchWeight (row : BranchRecord) : Uuid → ℤ := -owed (some row.head_artifact_id)

def Owes (d : Uuid → ℤ) (t : Catalog) : Prop :=
  t.artifacts.tally artifactWeight + t.branches.tally branchWeight = d

variable {a : Uuid} {t : Catalog}

theorem sum_ownCount_of_ne {rows : List ArtifactRecord} (h : ∀ row ∈ rows, row.artifact_id ≠ a) :
    (rows.map ownCount).sum a = 0 := by
  induction rows with
  | nil => rfl
  | cons row rows ih =>
    rw [map_cons, sum_cons, Pi.add_apply, ih fun row hrow => h row (.tail _ hrow), ownCount,
      if_neg (h row (.head _)), add_zero]

theorem sum_ownCount (t : Catalog) (a : Uuid) :
    (t.artifacts.rows.map ownCount).sum a = countOf t a := by
  unfold countOf
  cases hfind : t.artifacts.find? a with
  | none =>
    refine sum_ownCount_of_ne fun row hrow hid => ?_
    exact t.artifacts.find?_eq_none_iff.mp hfind (mem_map.mpr ⟨row, hrow, hid⟩)
  | some artifact =>
    obtain ⟨before, after, hrows, hother⟩ := t.artifacts.rows_of_find? hfind
    have hid := (t.artifacts.find?_eq_some_iff.mp hfind).2
    rw [hrows, map_append, map_cons, sum_append, sum_cons, Pi.add_apply,
      Pi.add_apply, sum_ownCount_of_ne fun row hrow => hother row (mem_append_left _ hrow),
      sum_ownCount_of_ne fun row hrow => hother row (mem_append_right _ hrow), ownCount,
      if_pos hid, add_zero, zero_add]

theorem sum_owed {α : Type} (target : α → Option Uuid) (rows : List α) (a : Uuid) :
    (rows.map fun row => -owed (target row)).sum a =
      -((rows.filter fun row => target row = some a).length : ℤ) := by
  induction rows with
  | nil => rfl
  | cons row rows ih =>
    rw [map_cons, sum_cons, Pi.add_apply, ih, Pi.neg_apply, filter_cons, owed]
    by_cases h : target row = some a
    · simp [h]
    · simp [h]

theorem sum_artifactWeight (rows : List ArtifactRecord) :
    (rows.map artifactWeight).sum =
      (rows.map ownCount).sum + (rows.map fun row => -owed row.parent_artifact_id).sum := by
  induction rows with
  | nil => exact (add_zero 0).symm
  | cons row rows ih =>
    simp only [map_cons, sum_cons, ih, artifactWeight]
    abel

/-- What the tables owe for an artifact is its count less the number of its references. -/
theorem Owes.apply {d : Uuid → ℤ} (h : Owes d t) (a : Uuid) :
    (countOf t a : ℤ) - refersTo t a = d a := by
  have hartifacts : t.artifacts.tally artifactWeight a =
      countOf t a - (t.artifacts.rows.filter fun row =>
        row.parent_artifact_id = some a).length := by
    rw [Table.tally, sum_artifactWeight, Pi.add_apply, sum_ownCount, sum_owed]
    rfl
  have hbranches : t.branches.tally branchWeight a =
      -((t.branches.rows.filter fun row => row.head_artifact_id = a).length : ℤ) := by
    have hsum := sum_owed (fun row : BranchRecord => some row.head_artifact_id) t.branches.rows a
    simp only [some.injEq] at hsum
    exact hsum
  rw [← h, Pi.add_apply, hartifacts, hbranches, refersTo]
  omega

def Referenced (t : Catalog) (a : Uuid) : Prop :=
  (∃ branch ∈ t.branches.rows, branch.head_artifact_id = a) ∨
    ∃ artifact ∈ t.artifacts.rows, artifact.parent_artifact_id = some a

theorem Referenced.pos (h : Referenced t a) : 0 < refersTo t a := by
  rcases h with ⟨branch, hmem, hhead⟩ | ⟨artifact, hmem, hparent⟩
  · exact Nat.add_pos_left
      (length_pos_of_mem (mem_filter.mpr ⟨hmem, decide_eq_true hhead⟩)) _
  · exact Nat.add_pos_right _
      (length_pos_of_mem (mem_filter.mpr ⟨hmem, decide_eq_true hparent⟩))

def Kept (t₀ t : Catalog) : Prop := ∀ a, Referenced t₀ a → (t.artifacts.find? a).isSome

theorem Owes.kept (h : Owes 0 t) : Kept t t := by
  intro a ha
  have hpos := ha.pos
  have hcount := h.apply a
  rw [Pi.zero_apply] at hcount
  unfold countOf at hcount
  split at hcount
  · next artifact hfind => rw [hfind]; rfl
  · omega

/-! ## Statements -/

variable {α : Type} {t₀ : Catalog} {b : Bool} {e : StoreError} {owner_key : String}
  {updated_at now : Timestamp} {artifact : ArtifactRecord} {branch_id : Uuid}
    {branch : BranchRecord}

section Statements

variable {P Q : Catalog → Prop} {d : Uuid → ℤ} {message : String} {o : Option α} {head : Uuid}
  {replica : ArtifactReplicaRecord}
  {expected_revision next_revision : UInt64} {f : Catalog → α}

/-- The tables owe `d` and have kept the artifacts of `t₀`. -/
def Has (t₀ : Catalog) (d : Uuid → ℤ) (t : Catalog) : Prop := Owes d t ∧ Kept t₀ t

theorem statement_holds {f : Catalog → α × Catalog} {Q : α → Catalog → Prop}
    (h : ∀ t, P t → Q (f t).1 (f t).2) : Leads P (statement f) Q :=
  .step (fun _ _ => trivial) fun t a t' ht hf => by
    have hstep := h t ht
    rw [Except.ok.inj hf] at hstep
    exact hstep

theorem statement_changed {f : Catalog → Nat × Catalog} (h : ∀ t, P t → (f t).1 ≠ 0 → Q (f t).2) :
    Leads P (statement f) (fun changed t => changed ≠ 0 → Q t) :=
  statement_holds h

theorem lookup_holds {f : Catalog → α} {Q : α → Catalog → Prop} (h : ∀ t, P t → Q (f t) t) :
    Leads P (lookup f) Q :=
  .read (fun _ _ => trivial) h

theorem lookup_keeps : Leads P (lookup f) (fun _ => P) := lookup_holds fun _ ht => ht

theorem demanded {k : Unit → CatalogStore α} {Q : α → Catalog → Prop}
    (h : b = true → Leads P (k ()) Q) : Leads P (demand b e >>= k) Q :=
  .bind (.ensure (Q := fun _ t => b = true ∧ P t) (fun _ _ => trivial) fun _ ht hb => ⟨hb, ht⟩)
    fun _ => .assume (fun _ ht => ht.1) fun hb => (h hb).pre fun _ ht => ht.2

theorem demand_keeps : Leads P (demand b e) (fun _ => P) :=
  .ensure (fun _ _ => trivial) fun _ ht _ => ht

theorem demand_changed {changed : Nat} (h : b = true → changed ≠ 0) :
    Leads (fun t => changed ≠ 0 → P t) (demand b e) (fun _ => P) :=
  .ensure (fun _ _ => trivial) fun _ ht hb => ht (h hb)

theorem ne_zero_of_beq_one {n : Nat} (h : (n == 1) = true) : n ≠ 0 := by
  rw [beq_iff_eq.mp h]
  exact Nat.one_ne_zero

theorem foundOr_holds {Q : α → Catalog → Prop}
    (h : ∀ t, P t → ∀ a, o = some a → Q a t) : Leads P (foundOr e o) Q := by
  cases o with
  | none => exact .throw fun _ _ => trivial
  | some a => exact .pure fun t ht => h t ht a rfl

theorem foundOr_keeps : Leads P (foundOr e o) (fun _ => P) := foundOr_holds fun _ ht _ _ => ht

theorem found_holds {β : Type} {find : Catalog → Option β} {owner : β → String}
    {k : β → CatalogStore α} {Q : α → Catalog → Prop}
    (h : ∀ row, find t₀ = some row → owner row = owner_key → Leads (· = t₀) (k row) Q) :
    Leads (· = t₀) (do
      let found ← lookup fun t => (find t).filter fun row => owner row == owner_key
      let row ← foundOr e found
      k row) Q := by
  refine .bind (lookup_holds (Q := fun found t => t = t₀ ∧
    found = (find t₀).filter fun row => owner row == owner_key) fun t ht => ⟨ht, by rw [ht]⟩)
    fun found => ?_
  refine .bind (foundOr_holds (Q := fun row t => t = t₀ ∧
    (find t₀).filter (fun row => owner row == owner_key) = some row)
    fun t ht row hrow => ⟨ht.1, ht.2 ▸ hrow⟩) fun row => .assume (fun _ ht => ht.2) fun hrow => ?_
  obtain ⟨hfind, howner⟩ := filter_eq_some_iff.mp hrow
  exact (h row hfind (beq_iff_eq.mp howner)).pre fun _ ht => ht.1

theorem Kept.update (h : Kept t₀ t) {cond : ArtifactRecord → Bool}
    {set : ArtifactRecord → ArtifactRecord}
    (hset : ∀ artifact, (set artifact).artifact_id = artifact.artifact_id) :
    Kept t₀ { t with artifacts := t.artifacts.update cond set hset } := by
  intro a ha
  rw [Table.find?_update, isSome_map]
  exact h a ha

theorem Has.update (h : Has t₀ d t) {n : ℤ} {cond : ArtifactRecord → Bool}
    {set : ArtifactRecord → ArtifactRecord}
    (hset : ∀ artifact, (set artifact).artifact_id = artifact.artifact_id)
    (hcond : ∀ artifact, cond artifact → artifact.artifact_id = a)
    (hchanged : (updateArtifacts cond set hset t).1 ≠ 0)
    (hparent : ∀ artifact, (set artifact).parent_artifact_id = artifact.parent_artifact_id)
    (hcount : ∀ artifact, cond artifact →
      ((set artifact).reference_count : ℤ) = artifact.reference_count + n) :
    Has t₀ (d + n • owed (some a)) (updateArtifacts cond set hset t).2 := by
  refine ⟨?_, h.2.update hset⟩
  unfold updateArtifacts at hchanged
  rw [t.artifacts.filter_of_find? hcond] at hchanged
  cases hfind : t.artifacts.find? a with
  | none => simp [hfind] at hchanged
  | some artifact =>
    rw [hfind] at hchanged
    have hmatch : cond artifact = true := by
      by_contra hno
      simp [hno] at hchanged
    have hid := hcond artifact hmatch
    have hweight : artifactWeight (set artifact) = artifactWeight artifact + n • owed (some a) := by
      funext a'
      simp only [artifactWeight, ownCount, hparent, hset, hid, hcount artifact hmatch, Pi.add_apply,
        Pi.sub_apply, Pi.smul_apply, owed, some.injEq, smul_eq_mul]
      split <;> omega
    show (t.artifacts.update cond set hset).tally _ + t.branches.tally _ = _
    rw [Table.tally_update hset hfind hcond hmatch, hweight, ← h.1]
    abel

theorem isArtifact_id (h : isArtifact a owner_key artifact = true) : artifact.artifact_id = a :=
  beq_iff_eq.mp (Bool.and_eq_true_iff.mp h).1

theorem acquireReference_holds {G : Table BranchRecord.branch_id → Prop} :
    Leads (fun t => Has t₀ d t ∧ G t.branches) (acquireReference a owner_key updated_at)
      (fun _ t => Has t₀ (d + owed (some a)) t ∧ G t.branches) := by
  refine .bind (statement_changed fun t ht hchanged => ⟨?_, ht.2⟩) fun changed =>
    demand_changed bne_iff_ne.mp
  rw [← one_zsmul (owed (some a))]
  refine ht.1.update _ (fun row hrow => ?_) hchanged (fun _ => rfl) fun _ _ => Nat.cast_succ _
  simp only [Bool.and_eq_true] at hrow
  exact isArtifact_id hrow.1.1

theorem releaseReference_holds :
    Leads (Has t₀ d) (releaseReference a owner_key updated_at message)
      (fun _ => Has t₀ (d - owed (some a))) := by
  refine .bind (statement_changed fun t ht hchanged => ?_) fun released =>
    demand_changed ne_zero_of_beq_one
  rw [sub_eq_add_neg, ← neg_one_zsmul (owed (some a))]
  refine ht.update _ (fun row hrow => ?_) hchanged (fun _ => rfl) fun row hrow => ?_
  · exact isArtifact_id (Bool.and_eq_true_iff.mp hrow).1
  · have hpos : 0 < row.reference_count := of_decide_eq_true (Bool.and_eq_true_iff.mp hrow).2
    dsimp only
    omega

theorem insertArtifactRow_holds :
    Leads (Has t₀ d) (insertArtifactRow artifact)
      (fun _ => Has t₀ (d - owed artifact.parent_artifact_id)) := by
  refine .step (fun _ _ => trivial) fun t _ t' ht hinsert => ?_
  obtain ⟨hfree, ⟨⟩⟩ := ite_error_eq_ok.mp hinsert
  simp only [Bool.or_eq_true, not_or, Bool.not_eq_true, isSome_eq_false_iff,
    isNone_iff_eq_none] at hfree
  have hnone : t.artifacts.find?
    ({ artifact with reference_count := 0 } : ArtifactRecord).artifact_id =
      none := hfree.1.1.1.1.1
  constructor
  · have hweight : artifactWeight { artifact with reference_count := 0 } =
        -owed artifact.parent_artifact_id := by
      funext a
      simp [artifactWeight, ownCount]
    unfold Owes
    rw [Table.tally_insert hnone, hweight, ← ht.1]
    abel
  · intro a ha
    rw [Table.find?_insert _ hnone]
    split
    · rfl
    · exact ht.2 a ha

theorem insertReplicaRow_holds :
    Leads (Has t₀ d) (insertReplicaRow replica) (fun _ => Has t₀ d) := by
  refine .step (fun _ _ => trivial) fun t _ t' ht hinsert => ?_
  obtain ⟨-, ⟨⟩⟩ := ite_error_eq_ok.mp hinsert
  exact ht

theorem upsertReplicaRow_holds :
    Leads (Has t₀ d) (upsertReplicaRow replica) (fun _ => Has t₀ d) := by
  refine .step (fun _ _ => trivial) fun t _ t' ht hinsert => ?_
  obtain ⟨-, hinsert⟩ := ite_error_eq_ok.mp hinsert
  split at hinsert
  · cases hinsert
    exact ht
  · cases hinsert
    exact ht

theorem insertBranchRow_holds :
    Leads (Has t₀ d) (insertBranchRow branch)
      (fun _ => Has t₀ (d - owed (some branch.head_artifact_id))) := by
  refine .step (fun _ _ => trivial) fun t _ t' ht hinsert => ?_
  obtain ⟨hfree, ⟨⟩⟩ := ite_error_eq_ok.mp hinsert
  simp only [Bool.or_eq_true, not_or, Bool.not_eq_true, isSome_eq_false_iff,
    isNone_iff_eq_none] at hfree
  refine ⟨?_, ht.2⟩
  unfold Owes
  rw [Table.tally_insert hfree.1.1.1, ← ht.1, branchWeight]
  abel

theorem moveBranch_holds {current : BranchRecord} :
    Leads (fun t => Has t₀ d t ∧ t.branches.find? branch_id = some current)
      (moveBranch owner_key branch_id expected_revision next_revision head updated_at)
      (fun changed t => changed ≠ 0 →
        Has t₀ (d + owed (some current.head_artifact_id) - owed (some head)) t) := by
  refine statement_holds fun t ht hchanged => ⟨?_, ht.1.2⟩
  have hcond (row : BranchRecord)
    (hrow : (row.branch_id == branch_id && row.owner_key == owner_key &&
      row.revision == expected_revision) = true) : row.branch_id = branch_id := by
    simp only [Bool.and_eq_true, beq_iff_eq] at hrow
    exact hrow.1.1
  dsimp only at hchanged
  rw [t.branches.filter_of_find? hcond, ht.2] at hchanged
  unfold Owes
  rw [Table.tally_update _ ht.2 hcond (by
      by_contra hno
      simp only [Option.filter, hno] at hchanged
      exact hchanged rfl), ← ht.1.1, branchWeight, branchWeight]
  abel

theorem deleteBranchRow_holds (howner : branch.owner_key = owner_key) :
    Leads (fun t => Has t₀ d t ∧ t.branches.find? branch_id = some branch)
      (deleteBranchRow owner_key branch_id)
      (fun _ => Has t₀ (d + owed (some branch.head_artifact_id))) := by
  refine statement_holds fun t ht => ⟨?_, ht.1.2⟩
  have hid := (t.branches.find?_eq_some_iff.mp ht.2).2
  have hother (row : BranchRecord) (hrow : row.branch_id ≠ branch_id) :
      (!(row.branch_id == branch_id && row.owner_key == owner_key)) = true := by
    simp [hrow]
  have hdeleted : (!(branch.branch_id == branch_id && branch.owner_key == owner_key)) = false := by
    simp [hid, howner]
  unfold Owes
  rw [Table.tally_update_of_eq, Table.tally_filter ht.2 hother hdeleted, ← ht.1.1, branchWeight]
  · abel
  · exact fun _ => rfl

/-- The tables differ from `t₀` in neither artifacts nor branches. -/
def SameRefs (t₀ t : Catalog) : Prop := t.artifacts = t₀.artifacts ∧ t.branches = t₀.branches

theorem SameRefs.of_eq (h : t = t₀) : SameRefs t₀ t := by
  rw [h]
  exact ⟨rfl, rfl⟩

theorem SameRefs.has (h : SameRefs t₀ t) (ht₀ : Owes 0 t₀) : Has t₀ 0 t := by
  unfold Has Owes Kept
  rw [h.1, h.2]
  exact ⟨ht₀, ht₀.kept⟩

/-- An artifact without references is deleted, with the reference it made. -/
theorem deleteArtifactRow_holds {refusal : StoreError} (ht₀ : Owes 0 t₀)
    (hfind : t₀.artifacts.find? a = some artifact)
    (howner : artifact.owner_key = owner_key) (hcount : artifact.reference_count = 0) :
    Leads (SameRefs t₀) (deleteArtifactRow a owner_key refusal)
      (fun _ => Has t₀ (owed artifact.parent_artifact_id)) := by
  have hunreferenced : ¬ Referenced t₀ a := by
    intro href
    have hpos := href.pos
    have hbalance := ht₀.apply a
    rw [countOf, hfind] at hbalance
    dsimp only at hbalance
    rw [hcount, Pi.zero_apply] at hbalance
    omega
  have hid := (t₀.artifacts.find?_eq_some_iff.mp hfind).2
  refine .step (fun _ _ => trivial) fun t _ t' ht hdelete => ?_
  obtain ⟨-, ⟨⟩⟩ := ite_error_eq_ok.mp hdelete
  constructor
  · have hweight : artifactWeight artifact = -owed artifact.parent_artifact_id := by
      funext a'
      simp [artifactWeight, ownCount, hcount]
    have hother (row : ArtifactRecord) (hrow : row.artifact_id ≠ a) :
        (!(isArtifact a owner_key row && row.reference_count == 0)) = true := by
      simp [isArtifact, hrow]
    have hdeleted : (!(isArtifact a owner_key artifact && artifact.reference_count == 0)) =
        false := by
      simp [isArtifact, hid, howner, hcount]
    have hzero : t₀.artifacts.tally artifactWeight + t₀.branches.tally branchWeight = 0 := ht₀
    unfold Owes
    rw [ht.1, ht.2, Table.tally_filter hfind hother hdeleted, hweight, sub_neg_eq_add,
      add_right_comm, hzero, zero_add]
  · intro b hb
    have hne : b ≠ a := fun h => hunreferenced (h ▸ hb)
    have hkept := ht₀.kept b hb
    obtain ⟨row, hrow⟩ := isSome_iff_exists.mp hkept
    have hrowId := (t₀.artifacts.find?_eq_some_iff.mp hrow).2
    rw [ht.1, Table.find?_filter, hrow]
    simp [isArtifact, hrowId, hne]

theorem releaseParent_holds :
    Leads (Has t₀ d) (releaseParent artifact owner_key now)
      (fun _ => Has t₀ (d - owed artifact.parent_artifact_id)) := by
  unfold releaseParent
  cases artifact.parent_artifact_id with
  | none => exact .pure fun t ht => by rwa [owed_none, sub_zero]
  | some parent_id => exact releaseReference_holds

theorem acquireParent_holds :
    Leads (Has t₀ d) (acquireParent artifact)
      (fun _ => Has t₀ (d + owed artifact.parent_artifact_id)) := by
  unfold acquireParent
  cases artifact.parent_artifact_id with
  | none => exact .pure fun t ht => by rwa [owed_none, add_zero]
  | some parent_id =>
    exact (acquireReference_holds (G := fun _ => True)).conseq
      (fun t ht => ⟨ht, trivial⟩) (fun _ t ht => ht.1) fun _ _ => trivial

end Statements

/-! ## Calls keep the counts -/

section Calls

variable {artifact_id : Uuid} {min_replicas min_failure_domains : UInt64}

/-- What a call does to tables that owe nothing: they owe nothing, and keep what is referred to. -/
def Settles (p : CatalogStore α) : Prop :=
  ∀ t₀, Owes 0 t₀ → Holds (· = t₀) p (fun _ => Has t₀ 0) (Has t₀ 0)

theorem has_of_eq (ht₀ : Owes 0 t₀) (h : t = t₀) : Has t₀ 0 t := (SameRefs.of_eq h).has ht₀

theorem Settles.transaction {p : CatalogStore α}
    (h : ∀ t₀, Owes 0 t₀ → Leads (· = t₀) p (fun _ => Has t₀ 0)) :
    Settles (Fallible.transaction .Sqlite p) := by
  intro t₀ ht₀
  exact (Holds.transaction (h t₀ ht₀)).conseq (fun _ ht => ht) (fun _ _ ht => ht) fun _ =>
    has_of_eq ht₀

theorem Settles.demand : Settles (Store.demand b e) := by
  intro t₀ ht₀
  exact .ensure (fun _ => has_of_eq ht₀) fun _ ht _ => has_of_eq ht₀ ht

theorem Settles.after_check {β : Type} {p : CatalogStore β} {k : β → CatalogStore α}
    (hp : ∀ t₀, Holds (· = t₀) p (fun _ t => t = t₀) (· = t₀)) (hk : ∀ b, Settles (k b)) :
    Settles (p >>= k) := by
  intro t₀ ht₀
  exact .bind ((hp t₀).conseq (fun _ ht => ht) (fun _ _ ht => ht) fun _ => has_of_eq ht₀)
    fun b => hk b t₀ ht₀

theorem Settles.discard {p : CatalogStore α} (h : Settles p) :
    Settles (do let _ ← p : CatalogStore Unit) :=
  fun t₀ ht₀ => .bind (h t₀ ht₀) fun _ => .pure fun _ ht => ht

theorem demand_same : Holds (· = t₀) (demand b e) (fun _ t => t = t₀) (· = t₀) :=
  .ensure (fun _ ht => ht) fun _ ht _ => ht

theorem lookup_same {f : Catalog → α} : Holds (· = t₀) (lookup f) (fun _ t => t = t₀) (· = t₀) :=
  .read (fun _ ht => ht) fun _ ht => ht

theorem insertArtifact_settles : Settles (insertArtifact artifact) := by
  refine .after_check (fun _ => demand_same) fun _ =>
    .after_check (fun _ => lookup_same) fun existing => ?_
  cases existing with
  | some existing => exact .demand
  | none =>
    refine .transaction fun t₀ ht₀ => ?_
    refine .bind (acquireParent_holds.pre fun t ht => has_of_eq ht₀ ht) fun _ => ?_
    refine demanded fun _ => demanded fun _ => demanded fun _ => demanded fun _ => ?_
    refine .bind insertArtifactRow_holds fun _ => ?_
    rw [zero_add, sub_self]
    exact insertReplicaRow_holds

theorem checkSourceBranch_holds {P : Catalog → Prop} :
    Leads P (checkSourceBranch branch) (fun _ => P) := by
  unfold checkSourceBranch
  cases branch.source_branch_id with
  | none => exact .pure fun _ ht => ht
  | some id => exact .bind lookup_keeps fun _ => demand_keeps

theorem checkSourceVm_holds {P : Catalog → Prop} : Leads P (checkSourceVm branch) (fun _ => P) := by
  unfold checkSourceVm
  cases branch.source_vm_id with
  | none => exact .pure fun _ ht => ht
  | some id => exact .bind lookup_keeps fun _ => demand_keeps

theorem insertBranch_settles : Settles (insertBranch branch) := by
  refine .after_check (fun _ => demand_same) fun _ =>
    .after_check (fun _ => lookup_same) fun existing => ?_
  cases existing with
  | some existing => exact .demand
  | none =>
    refine .transaction fun t₀ ht₀ => ?_
    refine .bind checkSourceBranch_holds fun _ => .bind checkSourceVm_holds fun _ => ?_
    refine .bind ((acquireReference_holds (G := fun _ => True)).conseq
      (fun t ht => ⟨has_of_eq ht₀ ht, trivial⟩) (fun _ _ ht => ht.1) fun _ h => h) fun _ => ?_
    refine demanded fun _ => insertBranchRow_holds.post fun _ t ht => ?_
    rwa [zero_add, sub_self] at ht

theorem recomputeArtifactReplication_holds :
    Leads (Has t₀ 0)
      (recomputeArtifactReplication owner_key artifact_id min_replicas
        min_failure_domains updated_at)
      (fun _ => Has t₀ 0) := by
  refine .bind lookup_keeps fun replicas => ?_
  refine .bind (statement_changed fun t ht hchanged => ?_) fun changed =>
    .bind (demand_changed ne_zero_of_beq_one) fun _ => .pure fun _ ht => ht
  have h := ht.update (a := artifact_id) _ (fun _ => isArtifact_id) hchanged (fun _ => rfl)
    fun _ _ => (add_zero _).symm
  rwa [zero_zsmul, add_zero] at h

theorem upsertArtifactReplica_settles {replica : ArtifactReplicaRecord} :
    Settles (upsertArtifactReplica replica min_replicas min_failure_domains) := by
  refine .after_check (fun _ => demand_same) fun _ => .transaction fun t₀ ht₀ => ?_
  refine .bind (lookup_keeps.pre fun _ => has_of_eq ht₀)
    fun found => .bind foundOr_keeps fun artifact => ?_
  refine demanded fun _ => demanded fun _ => demanded fun _ => ?_
  exact .bind upsertReplicaRow_holds fun _ => recomputeArtifactReplication_holds

theorem updateBranchHead_settles {expected_revision : UInt64} {new_head_artifact_id : Uuid} :
    Settles (updateBranchHead owner_key branch_id expected_revision new_head_artifact_id
      updated_at) := by
  refine .transaction fun t₀ ht₀ => ?_
  refine found_holds fun current hfind _ => demanded fun _ => ?_
  have hpre (t : Catalog) (ht : t = t₀) : Has t₀ 0 t ∧ t.branches.find? branch_id = some current :=
    ⟨has_of_eq ht₀ ht, ht ▸ hfind⟩
  have hacquire : Leads (· = t₀)
      (if current.head_artifact_id = new_head_artifact_id then pure ()
        else acquireReference new_head_artifact_id owner_key updated_at)
      (fun _ t =>
        Has t₀ (owed (replacing (some current.head_artifact_id) (some new_head_artifact_id))) t ∧
        t.branches.find? branch_id = some current) := by
    by_cases hsame : current.head_artifact_id = new_head_artifact_id
    · rw [if_pos hsame, hsame, replacing_self, owed_none]
      exact .pure hpre
    · rw [if_neg hsame, replacing_of_ne fun h => hsame (some.inj h), ← zero_add (owed _)]
      exact (acquireReference_holds (G := (·.find? branch_id = some current))).pre hpre
  have hrelease : Leads
      (Has t₀ (owed (replacing (some new_head_artifact_id) (some current.head_artifact_id))))
      (if current.head_artifact_id = new_head_artifact_id then pure ()
        else releaseReference current.head_artifact_id owner_key updated_at
          "old branch head has no reference to release")
      (fun _ => Has t₀ 0) := by
    by_cases hsame : current.head_artifact_id = new_head_artifact_id
    · rw [if_pos hsame, hsame, replacing_self, owed_none]
      exact .pure fun _ ht => ht
    · rw [if_neg hsame, replacing_of_ne fun h => hsame (some.inj h).symm]
      refine releaseReference_holds.post fun _ t ht => ?_
      rwa [sub_self] at ht
  refine .bind hacquire fun _ => demanded fun _ => demanded fun _ => demanded fun _ => ?_
  refine .bind moveBranch_holds fun changed => ?_
  rw [add_sub_assoc, owed_replacing]
  refine .bind (demand_changed ne_zero_of_beq_one) fun _ => .bind hrelease fun _ => ?_
  exact .bind lookup_keeps fun _ => foundOr_keeps

theorem deleteBranch_settles : Settles (deleteBranch owner_key branch_id now) := by
  refine .transaction fun t₀ ht₀ => ?_
  refine found_holds fun branch hfind howner => ?_
  refine .bind ((deleteBranchRow_holds howner).pre fun t ht => ⟨has_of_eq ht₀ ht, ht ▸ hfind⟩)
    fun _ => ?_
  refine .bind releaseReference_holds fun _ => .pure fun t ht => ?_
  rwa [zero_add, sub_self] at ht

theorem deleteArtifactIfUnreferenced_settles :
    Settles (deleteArtifactIfUnreferenced owner_key artifact_id now) := by
  refine .transaction fun t₀ ht₀ => ?_
  refine found_holds fun artifact hfind howner => demanded fun hcount => ?_
  refine .bind ((deleteArtifactRow_holds ht₀ hfind howner (beq_iff_eq.mp hcount)).pre
    fun _ => .of_eq) fun _ => ?_
  refine .bind releaseParent_holds fun _ => .pure fun t ht => ?_
  rwa [sub_self] at ht

theorem deleteLocalReplicaMetadataIfUnreferenced_settles {snapshot_path : String} :
    Settles (deleteLocalReplicaMetadataIfUnreferenced owner_key artifact_id snapshot_path now) := by
  refine .transaction fun t₀ ht₀ => ?_
  refine found_holds fun artifact hfind howner => demanded fun hcheck => ?_
  refine .bind (statement_holds (Q := fun _ => SameRefs t₀) fun t ht => ?_) fun _ =>
    demanded fun _ => ?_
  · rw [ht]
    exact ⟨rfl, rfl⟩
  have hcount := beq_iff_eq.mp (Bool.and_eq_true_iff.mp hcheck).1
  refine .bind (deleteArtifactRow_holds ht₀ hfind howner hcount) fun _ => demanded fun _ => ?_
  refine .bind releaseParent_holds fun _ => .pure fun t ht => ?_
  rwa [sub_self] at ht

/-- The step lemma: a call pays for every reference it takes or drops. -/
theorem CatalogCall.settles (call : CatalogCall) : Settles call.prog := by
  cases call with
  | insertArtifact artifact => exact insertArtifact_settles
  | upsertArtifactReplica => exact upsertArtifactReplica_settles.discard
  | insertBranch branch => exact insertBranch_settles
  | updateBranchHead => exact updateBranchHead_settles.discard
  | deleteBranch => exact deleteBranch_settles.discard
  | deleteArtifactIfUnreferenced => exact deleteArtifactIfUnreferenced_settles.discard
  | deleteLocalReplicaMetadataIfUnreferenced =>
    exact deleteLocalReplicaMetadataIfUnreferenced_settles.discard
  | other vms snapshots =>
    intro t₀ ht₀
    unfold CatalogCall.prog statement
    refine .step (fun t ht => has_of_eq ht₀ ht) fun t _ t' ht hf => ?_
    cases hf
    have hsame : SameRefs t₀ { t with vms, snapshots } := ⟨by rw [ht], by rw [ht]⟩
    exact hsame.has ht₀

theorem CatalogCall.after_has (ht : Owes 0 t) (call : CatalogCall) (faults : List Bool) :
    Has t 0 (call.after faults t) := by
  have h := call.settles t ht ⟨t, faults⟩ rfl
  unfold CatalogCall.after
  revert h
  rcases call.prog ⟨t, faults⟩ with ⟨e | _, x⟩ <;> exact id

/-- By induction over the calls, from `CatalogCall.settles`. -/
theorem runCatalog_owes (ht : Owes 0 t) (calls : List (CatalogCall × List Bool)) :
    Owes 0 (runCatalog t calls) := by
  induction calls generalizing t with
  | nil => exact ht
  | cons call rest ih => exact ih (call.1.after_has ht call.2).1

end Calls

def emptyCatalog : Catalog := ⟨∅, ∅, ∅, ∅, ∅⟩

theorem owes_emptyCatalog : Owes 0 emptyCatalog := add_zero 0

/-- After any calls, failed ones among them, the count of each artifact is the number of branches
whose head and of artifacts whose parent it is, and there is no such branch or artifact without it;
and no further call deletes an artifact that is a head or a parent. -/
theorem artifact_references_counted (calls : List (CatalogCall × List Bool)) :
    (∀ artifact ∈ (runCatalog emptyCatalog calls).artifacts.rows,
      artifact.reference_count = refersTo (runCatalog emptyCatalog calls) artifact.artifact_id) ∧
    ∀ a, Referenced (runCatalog emptyCatalog calls) a →
      ((runCatalog emptyCatalog calls).artifacts.find? a).isSome ∧
      ∀ (call : CatalogCall) (faults : List Bool),
        ((call.after faults (runCatalog emptyCatalog calls)).artifacts.find? a).isSome := by
  have howes := runCatalog_owes owes_emptyCatalog calls
  refine ⟨fun artifact hmem => ?_, fun a ha => ⟨howes.kept a ha, fun call faults => ?_⟩⟩
  · have hbalance := howes.apply artifact.artifact_id
    rw [countOf, Table.find?_eq_some_iff |>.mpr ⟨hmem, rfl⟩, Pi.zero_apply] at hbalance
    dsimp only at hbalance
    omega
  · exact (call.after_has howes faults).2 a ha

end Tarit.Store
