import Tarit.Lib.Schedules
import Tarit.Store.Volumes

/-!
# The copies of a VM's record

A node keeps the record of a VM three times: in the row of the fleet, in its own store and in
its cache. A change of the record is written to them in this order. Each write may fail, and
the fleet's may be committed although its answer is lost; a write that finds a newer revision
changes nothing and does not fail.

The state is that of one VM on the node that owns it.
-/
namespace Tarit.Node

open Lib Fleet Store Prog

/-! ## Errors -/

inductive OrchError where
  | NotFound (message : String)
  | BadRequest (message : String)
  | Unprocessable (message : String)
  | Conflict (message : String)
  | Unauthorized
  | Forbidden (message : String)
  | Unavailable (message : String)
  | Internal (message : String)
  | Vmm (message : String)
  deriving DecidableEq

def OrchError.display : OrchError → String
  | .NotFound message => "not found: " ++ message
  | .BadRequest message => "bad request: " ++ message
  | .Unprocessable message => "unprocessable: " ++ message
  | .Conflict message => "conflict: " ++ message
  | .Unauthorized => "unauthorized"
  | .Forbidden message => "forbidden: " ++ message
  | .Unavailable message => "unavailable: " ++ message
  | .Internal message => "internal error: " ++ message
  | .Vmm message => "vmm error: " ++ message

def displayFleetError : FleetError → String
  | .Postgres => "postgres"
  | .Config message => "config: " ++ message
  | .NotFound => "not found"
  | .Conflict message => "conflict: " ++ message

def storeErr : StoreError → OrchError
  | .NotFound => .NotFound "record not found"
  | .Conflict message => .Conflict message
  | .Sqlite => .Internal "sqlite"

def statusAsStr : VmStatus → String
  | .Creating => "creating"
  | .Running => "running"
  | .Paused => "paused"
  | .Suspended => "suspended"
  | .Hibernated => "hibernated"
  | .Stopped => "stopped"
  | .Error => "error"

/-! ## The node -/

/-- The lifecycle entry of a VM, without the phase of a creation, publication or stop. -/
inductive LifecycleState where
  | Creating (record : VmRecord)
  | Publishing (record : VmRecord)
  | Running (record : VmRecord)
  | Reconciling (record : VmRecord)
  | Abandoned (record : VmRecord)
  | Terminal (record : VmRecord)

structure Node where
  fleet : Rows FleetRow
  store : Tables
  cache : Option VmRecord
  lifecycle : Option LifecycleState

abbrev Control (α : Type) := ExceptT OrchError (StateM Node) α

def ofExcept {α : Type} : Except OrchError α → Control α
  | .ok a => pure a
  | .error e => throw e

/-- The result of `p`, which is not returned early if it is an error. -/
def attempt {α : Type} (p : Control α) : Control (Except OrchError α) := fun node =>
  (.ok (p node).1, (p node).2)

/-- What becomes of a write to the fleet. -/
inductive Write where
  | works
  | fails
  /-- It is committed, and its answer is lost. -/
  | unacknowledged
  deriving DecidableEq

/-- What becomes of the writes of a record; `store` are the faults of the statements. -/
structure Writes where
  fleet : Write
  store : List Bool

def Writes.Work (writes : Writes) :
    Prop := writes.fleet = .works ∧ ∀ fault ∈ writes.store, fault = false

/-- `record_ownership_required`, by which `claim_lifecycle_ownership` claims a VM. -/
def claimLifecycleOwnership (write : Write) (record : VmRecord) : Control Unit := fun node =>
  match write with
  | .fails => (.error (.Internal ("fleet upsert_vm: " ++ displayFleetError .Postgres)), node)
  | write =>
    match Session.alone fleetSchema [] (Fleet.upsertVm record) node.fleet with
    | (.error e, _) => (.error (.Internal ("fleet upsert_vm: " ++ displayFleetError e)), node)
    | (.ok _, fleet) =>
      (if write = .unacknowledged then
        .error (.Internal ("fleet upsert_vm: " ++ displayFleetError .Postgres))
      else .ok (), { node with fleet })

def runStore {α : Type} (faults : List Bool) (p : Store α) : Control α := fun node =>
  match p ⟨node.store, faults⟩ with
  | (.ok a, x) => (.ok a, { node with store := x.state })
  | (.error e, x) => (.error (storeErr e), { node with store := x.state })

def commitVmRecord (record : VmRecord) : Control Unit := fun node =>
  if node.cache.any fun current => record.revision < current.revision then (.ok (), node)
  else (.ok (), { node with cache := some record })

def refreshRunningLifecycle (record : VmRecord) : Control Unit := fun node =>
  match node.lifecycle with
  | some (.Running _) => (.ok (), { node with lifecycle := some (.Running record) })
  | _ => (.ok (), node)

def setLifecycleState (lifecycle : LifecycleState) : Control Unit := fun node =>
  (.ok (), { node with lifecycle := some lifecycle })

/-- The writes of a changed record, with which `vm_set_status`, `compensate_vm_status` and
`hibernate_local` end. -/
def publishRecord (writes : Writes) (record : VmRecord) : Control Unit := do
  claimLifecycleOwnership writes.fleet record
  runStore writes.store (insertVm record)
  commitVmRecord record
  refreshRunningLifecycle record

def vmGet (id : Uuid) : Control VmRecord := fun node =>
  match node.cache with
  | some record => (.ok record, node)
  | none => (.error (.NotFound ("vm " ++ displayUuid id ++ " not found")), node)

def getLocal (id : Uuid) : Control VmRecord := fun node =>
  match node.lifecycle with
  | some (.Reconciling _) =>
    (.error (.Unavailable ("vm " ++ displayUuid id ++ " lifecycle reconciliation is pending")),
      node)
  | _ => vmGet id node

def checkedAdd (id : Uuid) (revision : UInt64) (n : UInt64) : Control UInt64 :=
  if revision.toNat + n.toNat < 2 ^ 64 then pure (revision + n)
  else throw (.Internal ("VM " ++ displayUuid id ++ " revision exhausted"))

/-! ## A write of a newer record -/

section Publication

/-- The reservation that an accepted write drops is no row of a VM. -/
theorem dropReservation_alone (vm : VmRecord) (s : Session FleetRow) (id : Uuid) :
    ∃ s', (dropReservation vm).run.interp (Session.serve fleetSchema []) s = (.ok (), s') ∧
      s'.view (.vm id) = s.view (.vm id) := by
  unfold dropReservation
  cases vm.owner_key with
  | none => exact ⟨s, rfl, rfl⟩
  | some owner_key =>
    refine ⟨_, rfl, ?_⟩
    rw [Session.serve, Session.view_perform]
    dsimp only [Stmt.touch]
    split
    · rw [Stmt.cascade_of_ne FleetKey.noConfusion]
      cases s.view (.vm id) <;> rfl
    · rfl

variable {vm : VmRecord} {faults : List Bool}

theorem upsertVm_alone {rows : Rows FleetRow} {row : VmRow} (hrow : rows (.vm vm.id) = some row)
    (haccepts : acceptsVm (normalizeVmTimestampsForPostgres vm) row = true)
    (hrevision : vm.revision.toNat < 2 ^ 63) :
    ∃ generation rows', Session.alone fleetSchema [] (Fleet.upsertVm vm) rows =
      (.ok generation, rows') ∧
      rows' (.vm vm.id) = some (updatedVm (normalizeVmTimestampsForPostgres vm) row) := by
  have hensure : Fleet.ensure (vm.revision.toNat < 2 ^ 63)
      (.Config "VM revision exceeds PostgreSQL BIGINT") = pure () :=
    if_pos (decide_eq_true hrevision)
  generalize hrecord : normalizeVmTimestampsForPostgres vm = record at haccepts ⊢
  have hid : record.id = vm.id := by rw [← hrecord]; rfl
  have hrev : record.revision = vm.revision := by rw [← hrecord]; rfl
  rw [← hid] at hrow ⊢
  rw [← hrev] at hensure
  have hview : (Session.start rows).view (.vm record.id) = some row := hrow
  have hserve : Session.serve fleetSchema [] (upsertVmStmt record) (.start rows) =
      (some (updatedVm record row), (Session.start rows).perform fleetSchema (upsertVmStmt record)
        (some (updatedVm record row))) := by
    simp only [Session.serve, upsertVmStmt, Stmt.reply, hview, haccepts, if_true]
  obtain ⟨s, hdrop, hkept⟩ := dropReservation_alone record ((Session.start rows).perform fleetSchema
    (upsertVmStmt record) (some (updatedVm record row))) record.id
  have hrun : (Fleet.upsertVm vm).run.interp (Session.serve fleetSchema []) (.start rows) =
      (.ok (updatedVm record row).generation, s) := by
    unfold Fleet.upsertVm
    rw [hrecord]
    rw [interp_run_bind, hensure]
    dsimp only [ExceptT.run_pure, interp_pure]
    rw [interp_run_bind, query, interp_run_lift, interp_perform, hserve]
    dsimp only
    rw [interp_run_bind, hdrop]
    rfl
  refine ⟨(updatedVm record row).generation, s.view, ?_, ?_⟩
  · rw [Session.alone, hrun]
  · rw [hkept, Session.view_perform_self (Stmt.touch_upsert ..)]
    rfl

theorem insertVm_newer {t : Tables} {current : VmRecord}
    (hfind : t.vms.find? vm.id = some current) (hnewer : replaces vm current = true)
    (hrevision : vm.revision.toNat < 2 ^ 63) :
    insertVm vm ⟨t, faults⟩ = if faults.head? = some true then (.error .Sqlite, ⟨t, faults.tail⟩)
      else (.ok (), ⟨(Store.upsertVm vm t).2, faults.tail⟩) := by
  have hensure : Store.u64ToSqlI64 vm.revision = pure () := if_pos (decide_eq_true hrevision)
  have hupsert : Store.upsertVm vm t = (1, (Store.upsertVm vm t).2) := by
    unfold Store.upsertVm
    rw [hfind]
    dsimp only
    rw [if_pos hnewer]
  unfold insertVm
  rw [hensure, run_bind]
  show (execute (Store.upsertVm vm) >>= _) ⟨t, faults⟩ = _
  rw [run_bind]
  unfold execute Fallible.step
  cases faults with
  | nil =>
    dsimp only
    rw [hupsert]
    rfl
  | cons fault faults =>
    cases fault with
    | true => rfl
    | false =>
      dsimp only
      rw [hupsert]
      rfl

theorem find?_upsertVm_newer {t : Tables} {current : VmRecord}
    (hfind : t.vms.find? vm.id = some current) (hnewer : replaces vm current = true) :
    (Store.upsertVm vm t).2.vms.find? vm.id = some vm := by
  unfold Store.upsertVm
  rw [hfind]
  dsimp only
  rw [if_pos hnewer]
  rw [Table.find?_update, hfind, Option.map_some, if_pos hnewer]
  simp only [replaces, Bool.and_eq_true, beq_iff_eq] at hnewer
  obtain ⟨⟨⟨hid, hhost⟩, hcreated⟩, -⟩ := hnewer
  rw [hid, hhost, hcreated]

/-- The row of the store is of the incarnation of `vm`, and no newer than `revision`. -/
def StoreBelow (vm : VmRecord) (revision : Nat) (store : Tables) : Prop :=
  ∃ current, store.vms.find? vm.id = some current ∧ current.id = vm.id ∧
    current.host_id = vm.host_id ∧ current.created_at = vm.created_at ∧
    current.revision.toNat ≤ revision

/-- So are the rows of the fleet and of the store. -/
structure Below (vm : VmRecord) (revision : Nat) (node : Node) : Prop where
  fleet : ∃ row, node.fleet (.vm vm.id) = some row ∧ row.host_id = vm.host_id ∧
    row.created_at = normalizeTimestampForPostgres vm.created_at ∧ row.revision.toNat ≤ revision
  store : StoreBelow vm revision node.store

theorem Below.mono {revision revision' : Nat} {node : Node} (h : Below vm revision node)
    (hle : revision ≤ revision') : Below vm revision' node := by
  obtain ⟨⟨row, hrow, hhost, hcreated, hrevision⟩, current, hcurrent, hid, hhost', hcreated',
    hrevision'⟩ := h
  exact ⟨⟨row, hrow, hhost, hcreated, le_trans hrevision hle⟩,
    ⟨current, hcurrent, hid, hhost', hcreated', le_trans hrevision' hle⟩⟩

/-- All three copies are of `vm`, as far as the fleet keeps it. -/
structure Published (vm : VmRecord) (node : Node) : Prop where
  fleet : ∃ row, node.fleet (.vm vm.id) = some row ∧ row.host_id = vm.host_id ∧
    row.created_at = normalizeTimestampForPostgres vm.created_at ∧ row.status = vm.status ∧
    row.revision = vm.revision
  store : node.store.vms.find? vm.id = some vm
  cache : node.cache = some vm

theorem Published.below {node : Node} (h : Published vm node) :
    Below vm vm.revision.toNat node := by
  obtain ⟨row, hrow, hhost, hcreated, -, hrevision⟩ := h.fleet
  exact ⟨⟨row, hrow, hhost, hcreated, le_of_eq (congrArg UInt64.toNat hrevision)⟩,
    ⟨vm, h.store, rfl, rfl, rfl, le_refl _⟩⟩

variable {record : VmRecord} {revision : Nat} {node : Node}

theorem claimLifecycleOwnership_newer (h : Below record revision node)
    (hnewer : revision < record.revision.toNat) (hmax : record.revision.toNat < 2 ^ 63)
    (write : Write) :
    (write = .fails ∧ ∃ e, claimLifecycleOwnership write record node = (.error e, node)) ∨
    ∃ fleet row, fleet (.vm record.id) = some row ∧ row.host_id = record.host_id ∧
      row.created_at = normalizeTimestampForPostgres record.created_at ∧
      row.status = record.status ∧ row.revision = record.revision ∧
      (write = .unacknowledged ∧
          (∃ e, claimLifecycleOwnership write record node = (.error e, { node with fleet })) ∨
        write = .works ∧
          claimLifecycleOwnership write record node = (.ok (), { node with fleet })) := by
  obtain ⟨row, hrow, hhost, hcreated, hrevision⟩ := h.fleet
  have haccepts : acceptsVm (normalizeVmTimestampsForPostgres record) row = true := by
    simp only [acceptsVm, Bool.and_eq_true, beq_iff_eq, decide_eq_true_eq]
    exact ⟨⟨hhost, hcreated⟩, UInt64.lt_iff_toNat_lt.mpr (lt_of_le_of_lt hrevision hnewer)⟩
  obtain ⟨generation, fleet, hrun, hfleet⟩ := upsertVm_alone hrow haccepts hmax
  cases write with
  | fails => exact .inl ⟨rfl, _, rfl⟩
  | unacknowledged =>
    refine .inr ⟨fleet, _, hfleet, hhost, hcreated, rfl, rfl, .inl ⟨rfl,
      .Internal ("fleet upsert_vm: " ++ displayFleetError .Postgres), ?_⟩⟩
    unfold claimLifecycleOwnership
    rw [hrun]
    rfl
  | works =>
    refine .inr ⟨fleet, _, hfleet, hhost, hcreated, rfl, rfl, .inr ⟨rfl, ?_⟩⟩
    unfold claimLifecycleOwnership
    rw [hrun]
    rfl

/-- A publication that failed has changed the row of the fleet at most. -/
structure Stalled (record : VmRecord) (node node' : Node) : Prop where
  below : Below record record.revision.toNat node'
  store : node'.store = node.store
  cache : node'.cache = node.cache
  lifecycle : node'.lifecycle = node.lifecycle

theorem commitVmRecord_newer {node : Node} (hcache : ∀ current, node.cache = some current →
    current.revision.toNat ≤ record.revision.toNat) :
    commitVmRecord record node = (.ok (), { node with cache := some record }) := by
  unfold commitVmRecord
  cases hcached : node.cache with
  | none => rfl
  | some current =>
    have hle := hcache current hcached
    exact if_neg fun hlt => not_lt.mpr hle (UInt64.lt_iff_toNat_lt.mp (of_decide_eq_true hlt))

theorem refreshRunningLifecycle_eq (node : Node) :
    ∃ lifecycle, refreshRunningLifecycle record node = (.ok (), { node with lifecycle }) ∧
      ∀ vm, lifecycle = some (.Reconciling vm) ↔ node.lifecycle = some (.Reconciling vm) := by
  unfold refreshRunningLifecycle
  split
  · next running hrunning =>
    refine ⟨_, rfl, fun vm => ?_⟩
    rw [hrunning]
    constructor
    all_goals
      intro h
      cases h
  · exact ⟨_, rfl, fun _ => Iff.rfl⟩

theorem runStore_insertVm_newer {node : Node} (h : StoreBelow record revision node.store)
    (hnewer : revision < record.revision.toNat) (hmax : record.revision.toNat < 2 ^ 63) :
    (faults.head? = some true ∧
      runStore faults (insertVm record) node = (.error (storeErr .Sqlite), node)) ∨
    (faults.head? ≠ some true ∧ ∃ store, store.vms.find? record.id = some record ∧
      runStore faults (insertVm record) node = (.ok (), { node with store })) := by
  obtain ⟨current, hcurrent, hid, hhost, hcreated, hrevision⟩ := h
  have hreplaces : replaces record current = true := by
    simp only [replaces, Bool.and_eq_true, beq_iff_eq, decide_eq_true_eq]
    exact ⟨⟨⟨hid, hhost⟩, hcreated⟩,
      UInt64.lt_iff_toNat_lt.mpr (lt_of_le_of_lt hrevision hnewer)⟩
  unfold runStore
  rw [insertVm_newer hcurrent hreplaces hmax]
  by_cases hfault : faults.head? = some true
  · rw [if_pos hfault]
    exact .inl ⟨hfault, rfl⟩
  · rw [if_neg hfault]
    exact .inr ⟨hfault, _, find?_upsertVm_newer hcurrent hreplaces, rfl⟩

/-- The publication of a newer record fails if one of its writes does, and is complete
otherwise. -/
theorem publishRecord_newer (h : Below record revision node)
    (hnewer : revision < record.revision.toNat) (hmax : record.revision.toNat < 2 ^ 63)
    (hcache : ∀ current, node.cache = some current →
      current.revision.toNat ≤ record.revision.toNat) (writes : Writes) :
    ((writes.fleet ≠ .works ∨ writes.store.head? = some true) ∧
      ∃ e node', publishRecord writes record node = (.error e, node') ∧ Stalled record node node') ∨
    (writes.fleet = .works ∧ writes.store.head? ≠ some true ∧
      ∃ node', publishRecord writes record node = (.ok (), node') ∧ Published record node' ∧
        ∀ vm, node'.lifecycle = some (.Reconciling vm) ↔
          node.lifecycle = some (.Reconciling vm)) := by
  unfold publishRecord
  rw [run_bind]
  obtain ⟨hfails, e, hclaim⟩ | ⟨fleet, row, hrow, hhost, hcreated, hstatus, hrevision, hclaim⟩ :=
    claimLifecycleOwnership_newer h hnewer hmax writes.fleet
  · rw [hclaim, hfails]
    exact .inl ⟨.inl Write.noConfusion, e, node, rfl, h.mono (le_of_lt hnewer), rfl, rfl, rfl⟩
  have hclaimed : Below record record.revision.toNat { node with fleet } :=
    ⟨⟨row, hrow, hhost, hcreated, le_of_eq (congrArg UInt64.toNat hrevision)⟩,
      (h.mono (le_of_lt hnewer)).store⟩
  obtain ⟨hlost, e, hclaim⟩ | ⟨hworks, hclaim⟩ := hclaim
  · rw [hclaim, hlost]
    exact .inl ⟨.inl Write.noConfusion, e, _, rfl, hclaimed, rfl, rfl, rfl⟩
  rw [hclaim, hworks]
  dsimp only
  rw [run_bind]
  have hold : StoreBelow record revision { node with fleet }.store := h.store
  obtain ⟨hfault, hinsert⟩ | ⟨hfault, store, hstore, hinsert⟩ :=
    runStore_insertVm_newer hold hnewer hmax
  · rw [hinsert]
    exact .inl ⟨.inr hfault, _, _, rfl, hclaimed, rfl, rfl, rfl⟩
  rw [hinsert]
  dsimp only
  have hcommit : commitVmRecord record { node with fleet, store } =
      (.ok (), { node with fleet, store, cache := some record }) := commitVmRecord_newer hcache
  rw [run_bind, hcommit]
  dsimp only
  obtain ⟨lifecycle, hrefresh, hlifecycle⟩ := refreshRunningLifecycle_eq
    { node with fleet, store, cache := some record }
  rw [hrefresh]
  exact .inr ⟨rfl, hfault, _, rfl, ⟨⟨row, hrow, hhost, hcreated, hstatus, hrevision⟩, hstore, rfl⟩,
    hlifecycle⟩

end Publication

end Tarit.Node
