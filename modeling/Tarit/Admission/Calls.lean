import Mathlib.Data.List.Sort
import Tarit.Lib.Table
import Tarit.Fleet.Records

/-!
# Admission of virtual machines

A VM of a tenant is created under a reservation of its id, which counts against the quota of the
tenant until it expires; a fork also binds the id of the child to the VM it is forked from. Both
the local store and the fleet keep these tables, and each call is one transaction on them.

The calls of the two stores differ in how they count and in what they keep of a timestamp; those
differences are the fields of `Dialect`.
-/
namespace Tarit.Admission

open Lib Fleet

/-! ## Tables -/

inductive ForkOperationStatus where
  | Preparing | Committed
  deriving DecidableEq

structure ForkOperationRecord where
  child_vm_id : Uuid
  source_vm_id : Uuid
  owner_key : String
  source_host_id : String
  target_host_id : String
  target_boot_session_id : Option Uuid
  status : ForkOperationStatus
  child_created_at : Option Timestamp
  created_at : Timestamp
  updated_at : Timestamp
  deriving DecidableEq

/-- A row of `vm_quota_reservations`, or of `tenant_vm_reservations` in the fleet. -/
structure QuotaReservation where
  id : Uuid
  owner_key : String
  expires_at : Timestamp
  deriving DecidableEq

structure Tables where
  vms : Table VmRecord.id
  operations : Table ForkOperationRecord.child_vm_id
  reservations : Table QuotaReservation.id

/-- `status IN ('creating','running','paused','suspended')` -/
def isActive (status : VmStatus) : Bool :=
  status == .Creating || status == .Running || status == .Paused || status == .Suspended

def activeVms (t : Tables) (owner_key : String) : List Uuid :=
  (t.vms.rows.filter fun vm => vm.owner_key == some owner_key && isActive vm.status).map (·.id)

def heldIds (t : Tables) (owner_key : String) (now : Timestamp) : List Uuid :=
  (t.reservations.rows.filter fun r => r.owner_key == owner_key && now < r.expires_at).map (·.id)

structure Dialect where
  /-- The number of VMs and reservations of a tenant. -/
  active : Tables → String → Timestamp → Nat
  /-- What is kept of a timestamp. -/
  stored : Timestamp → Timestamp

/-- `COUNT(*)` of a `UNION` of ids. -/
def sqlite : Dialect where
  active t owner_key now := (activeVms t owner_key ++ heldIds t owner_key now).dedup.length
  stored timestamp := timestamp

def postgres : Dialect where
  active t owner_key now := (activeVms t owner_key).length + (heldIds t owner_key now).length
  stored := normalizeTimestampForPostgres

section Calls
variable (D : Dialect)

def dropExpired (now : Timestamp) (t : Tables) : Tables :=
  { t with reservations := t.reservations.filter fun r => now < r.expires_at }

/-- `active >= i64::try_from(max_vms).unwrap_or(i64::MAX)` -/
def exceedsQuota (t : Tables) (owner_key : String) (max_vms : Nat) (now : Timestamp) : Bool :=
  (if max_vms < 2 ^ 63 then max_vms else 2 ^ 63 - 1) ≤ D.active t owner_key now

/-! ## Fork operations -/

/-- The answers of `claim_fork_operation`. The store returns an exceeded quota as an outcome and the
fleet as an error. -/
inductive ClaimAnswer where
  | New | Resumed | InProgress | Committed | QuotaExceeded
  | Conflict (message : String)
  deriving DecidableEq

/-- `claim_fork_operation` once the operation is bound: the reservation of the child. `before` are
the tables at the start of the transaction, to which they go back unless it commits. -/
def reserveChild (operation : ForkOperationRecord) (max_vms : Nat) (expires_at now : Timestamp)
    (outcome : ClaimAnswer) (resumed_after_restart : Bool) (before t : Tables) :
    ClaimAnswer × Tables :=
  match t.reservations.find? operation.child_vm_id with
  | some reservation =>
    if reservation.owner_key ≠ operation.owner_key then
      (.Conflict ("VM " ++ displayUuid operation.child_vm_id ++
        " reservation belongs to another tenant"), before)
    else if outcome = .Resumed ∧ ¬ resumed_after_restart then (.InProgress, t)
    else
      (outcome, { t with
        reservations := t.reservations.update (fun r => r.id == operation.child_vm_id)
          (fun r => { r with expires_at := D.stored expires_at }) fun _ => rfl })
  | none =>
    if (t.vms.find? operation.child_vm_id).isSome then (outcome, t)
    else if exceedsQuota D t operation.owner_key max_vms now then (.QuotaExceeded, before)
    else
      (outcome, { t with
        reservations := t.reservations.insert
          ⟨operation.child_vm_id, operation.owner_key, D.stored expires_at⟩ })

def boundElsewhere (existing operation : ForkOperationRecord) : Bool :=
  existing.source_vm_id != operation.source_vm_id || existing.owner_key != operation.owner_key ||
  existing.source_host_id != operation.source_host_id ||
  existing.target_host_id != operation.target_host_id

def preparing (operation : ForkOperationRecord) : ForkOperationRecord :=
  { operation with
    status := .Preparing, child_created_at := none, created_at := D.stored operation.created_at
    updated_at := D.stored operation.updated_at }

def takenOver (operation row : ForkOperationRecord) : ForkOperationRecord :=
  { row with
    target_boot_session_id := operation.target_boot_session_id
    updated_at := D.stored operation.updated_at }

def takeOver (operation : ForkOperationRecord) (t : Tables) : Tables :=
  { t with
    operations := t.operations.update
      (fun row => row.child_vm_id == operation.child_vm_id && row.status == .Preparing)
      (takenOver D operation) fun _ => rfl }

def claimForkOperation (operation : ForkOperationRecord) (max_vms : Nat)
    (expires_at now : Timestamp) (before : Tables) : ClaimAnswer × Tables :=
  let t := dropExpired now before
  match t.operations.find? operation.child_vm_id with
  | some existing =>
    if boundElsewhere existing operation then
      (.Conflict ("fork child " ++ displayUuid operation.child_vm_id ++
        " is already bound to another operation"), before)
    else
      match existing.status with
      | .Committed => (.Committed, t)
      | .Preparing =>
        let resumed_after_restart :=
          existing.target_boot_session_id != operation.target_boot_session_id
        let t := if resumed_after_restart then takeOver D operation t else t
        reserveChild D operation max_vms expires_at now .Resumed resumed_after_restart before t
  | none =>
    if (t.vms.find? operation.child_vm_id).isSome then
      (.Conflict ("VM " ++ displayUuid operation.child_vm_id ++ " already exists"), before)
    else
      reserveChild D operation max_vms expires_at now .New false before
        { t with operations := t.operations.insert (preparing D operation) }

def commits (child_vm_id source_vm_id : Uuid) (owner_key : String) (child_created_at : Timestamp)
    (row : ForkOperationRecord) : Bool :=
  row.child_vm_id == child_vm_id && row.source_vm_id == source_vm_id &&
  row.owner_key == owner_key && (row.status == .Preparing ||
    row.status == .Committed && row.child_created_at == some child_created_at)

def committed (child_created_at updated_at : Timestamp) (row : ForkOperationRecord) :
    ForkOperationRecord :=
  { row with
    status := .Committed, child_created_at := some (D.stored child_created_at)
    updated_at := D.stored updated_at }

def commitForkOperation (child_vm_id source_vm_id : Uuid) (owner_key : String)
    (child_created_at updated_at : Timestamp) (t : Tables) : Except String Unit × Tables :=
  let cond := commits child_vm_id source_vm_id owner_key (D.stored child_created_at)
  if t.operations.rows.any cond then
    (.ok (), { t with
      operations := t.operations.update cond (committed D child_created_at updated_at)
        fun _ => rfl })
  else
    (.error ("fork child " ++ displayUuid child_vm_id ++ " operation changed concurrently"), t)

/-- A committed operation of a child that is gone. -/
def isOutdated (older_than : Timestamp) (t : Tables) (row : ForkOperationRecord) : Bool :=
  row.status == .Committed && decide (row.updated_at < older_than) &&
  (t.vms.find? row.child_vm_id).isNone

def prunable (older_than : Timestamp) (limit : Nat) (t : Tables) : List ForkOperationRecord :=
  ((t.operations.rows.filter (isOutdated older_than t)).insertionSort
    fun a b => a.updated_at ≤ b.updated_at).take limit

/-- Only the store has this call. -/
def pruneCommittedForkOperations (older_than : Timestamp) (limit : Nat) (t : Tables) : Tables :=
  { t with
    operations := t.operations.filter fun row => !(prunable older_than limit t).contains row }

def releaseVmQuota (owner_key : String) (id : Uuid) (t : Tables) : Tables :=
  { t with reservations := t.reservations.filter fun r =>
    !(r.id == id && r.owner_key == owner_key) }

end Calls

def localClaimForkOperation := claimForkOperation sqlite
def fleetClaimForkOperation := claimForkOperation postgres
def localCommitForkOperation := commitForkOperation sqlite
def fleetCommitForkOperation := commitForkOperation postgres

end Tarit.Admission
