import Tarit.Node.Records

/-!
# Status operations

A pause, suspension or resumption of a VM first moves the VMM and then publishes the record of
the next revision. If the publication fails, the VMM is rolled back and a compensation, two
revisions on, is published for the status that is left; if the VMM cannot be rolled back or
observed, the lifecycle entry is left to the sweeper, which observes it again, and status
operations are refused meanwhile.

The compensation is written like any other record. When one of its own writes fails, the
copies stay apart: the next operation publishes a revision that the fleet has already passed,
which the fleet ignores without an error, or the sweeper writes a second record for the
revision that the fleet has already seen, which the fleet refuses every time. In every run
in which compensations are written, an operation that succeeds leaves one record in all three
places, and a VM can always be operated again.
-/
namespace Tarit.Node

open Lib Fleet Store

/-! ## Transitions of the VMM -/

inductive VmState where
  | Created | Running | Paused | Suspended | Stopped
  deriving DecidableEq

def debugVmState : VmState → String
  | .Created => "Created"
  | .Running => "Running"
  | .Paused => "Paused"
  | .Suspended => "Suspended"
  | .Stopped => "Stopped"

def controlStatus : VmState → Except OrchError VmStatus
  | .Running => .ok .Running
  | .Paused => .ok .Paused
  | .Suspended => .ok .Suspended
  | status => .error (.Internal ("VMM reported non-live state " ++ debugVmState status ++
      " during lifecycle reconciliation"))

def liveControlStatuses : List VmStatus := [.Running, .Paused, .Suspended]

theorem controlStatus_live {state : VmState} {status : VmStatus}
    (h : controlStatus state = .ok status) : status ∈ liveControlStatuses := by
  cases state <;> cases h <;> decide

/-- What the supervisor answers during one call. -/
structure Supervisor where
  operation_gate : Except OrchError Unit
  pause_vm : Except OrchError Unit
  resume_vm : Except OrchError Unit
  suspend_vm : Except OrchError Unit
  status_vm : Except OrchError VmState

/-- The blocking tasks of a call that could not be joined. -/
structure Joins where
  operation : Option String
  rollback : Option String
  status : Option String

/-- What one call meets: the answers of the supervisor, and for the record of the new status
and for the compensation the time and the writes. -/
structure Call where
  supervisor : Supervisor
  joins : Joins
  updated_at : Timestamp
  writes : Writes
  compensated_at : Timestamp
  compensation : Writes

/-- The status of the VMM is observed, and a live one. -/
def Call.Observes (call : Call) : Prop :=
  call.joins.status = none ∧
    ∃ state status, call.supervisor.status_vm = .ok state ∧ controlStatus state = .ok status

inductive TransitionDecision where
  | Noop | Apply
  deriving DecidableEq

def allowedTransition (current : VmStatus) : VmStatus → Bool
  | .Paused => current == .Running
  | .Suspended => current == .Running || current == .Paused
  | .Running => current == .Paused || current == .Suspended
  | _ => false

def validateLiveTransition (id : Uuid) (current target : VmStatus) :
    Except OrchError TransitionDecision :=
  if current = target then .ok .Noop
  else if allowedTransition current target then .ok .Apply
  else .error (.Conflict ("cannot transition vm " ++ displayUuid id ++ " from " ++
    statusAsStr current ++ " to " ++ statusAsStr target))

inductive RollbackPlan where
  | Resume | Pause | Suspend | ResumeThenPause

def rollbackPlan : VmStatus → VmStatus → Option RollbackPlan
  | .Running, .Paused | .Running, .Suspended => some .Resume
  | .Paused, .Running => some .Pause
  | .Paused, .Suspended => some .ResumeThenPause
  | .Suspended, .Running => some .Suspend
  | _, _ => none

def rollbackVmmTransition (supervisor : Supervisor) (id : Uuid) (prior target : VmStatus) :
    Except OrchError Unit :=
  match rollbackPlan prior target with
  | none => .error (.Internal ("no rollback plan for VM " ++ displayUuid id ++ " transition " ++
      statusAsStr prior ++ " -> " ++ statusAsStr target))
  | some .Resume => supervisor.resume_vm
  | some .Pause => supervisor.pause_vm
  | some .Suspend => supervisor.suspend_vm
  | some .ResumeThenPause => do
    supervisor.resume_vm
    supervisor.pause_vm

/-! ## Records of the new status -/

def vmSetStatus (id : Uuid) (status : VmStatus) (call : Call) : Control VmRecord := do
  let current ← vmGet id
  let revision ← checkedAdd id current.revision 1
  let record := { current with status, revision, updated_at := call.updated_at }
  publishRecord call.writes record
  pure record

def compensateVmStatus (prior : VmRecord) (observed_status : VmStatus) (call : Call) :
    Control VmRecord := do
  let revision ← checkedAdd prior.id prior.revision 2
  let compensation :=
    { prior with status := observed_status, revision, updated_at := call.compensated_at }
  publishRecord call.compensation compensation
  pure compensation

/-- `.await.map_err(..)?` of a blocking task. -/
def join (what : String) : Option String → Control Unit
  | none => pure ()
  | some error => throw (.Internal (what ++ error))

def observeAndCompensateVmStatus (prior : VmRecord) (call : Call) : Control VmRecord := do
  join "status reconciliation join: " call.joins.status
  let observed ← ofExcept call.supervisor.status_vm
  let status ← ofExcept (controlStatus observed)
  compensateVmStatus prior status call

def retainLiveOperationReconciliation (prior : VmRecord) (primary : OrchError) (detail : String) :
    Control OrchError := do
  setLifecycleState (.Reconciling prior)
  pure (.Internal (primary.display ++ "; " ++ detail ++
    "; VMM state remains unknown and retryable"))

/-- The observed status of a VM whose live operation failed is not `Running`. -/
def fenceFailedLiveOperation (prior : VmRecord) (primary : OrchError) (observed : VmStatus)
    (call : Call) : Control OrchError := do
  match ← attempt (compensateVmStatus prior observed call) with
  | .ok record => do
    setLifecycleState (.Running record)
    pure (.Internal (primary.display ++ "; VM was fenced " ++ statusAsStr observed ++
      " after live-operation compensation"))
  | .error compensation =>
    retainLiveOperationReconciliation prior primary ("observed VM state " ++
      statusAsStr observed ++ " but durable fencing failed: " ++ compensation.display)

def reconcileFailedLiveOperation (prior : VmRecord) (primary : OrchError) (call : Call) :
    Control OrchError :=
  if prior.status = .Running then
    match call.joins.status, call.supervisor.status_vm with
    | some error, _ =>
      retainLiveOperationReconciliation prior primary ("VMM status task failed: " ++ error)
    | none, .error error =>
      retainLiveOperationReconciliation prior primary
        ("VMM state could not be observed: " ++ error.display)
    | none, .ok status =>
      match controlStatus status with
      | .error error =>
        retainLiveOperationReconciliation prior primary
          ("live-operation reconciliation rejected VMM state: " ++ error.display)
      | .ok observed =>
        if observed = .Running then pure primary
        else fenceFailedLiveOperation prior primary observed call
  else pure primary

/-! ## `vm_op` -/

/-- "persist VM … transition … failed: …". -/
def persistFailed (id : Uuid) (prior target : VmStatus) (persist_error : OrchError) : String :=
  "persist VM " ++ displayUuid id ++ " transition " ++ statusAsStr prior ++ " -> " ++
    statusAsStr target ++ " failed: " ++ persist_error.display

/-- The VMM is back in the status of `current`. -/
def compensateRolledBack (id : Uuid) (current : VmRecord) (target : VmStatus)
    (persist_error : OrchError) (call : Call) : Control VmRecord := do
  match ← attempt (compensateVmStatus current current.status call) with
  | .ok _ => throw persist_error
  | .error compensation_error =>
    throw (.Internal (persistFailed id current.status target persist_error ++
      "; VMM rollback to " ++ statusAsStr current.status ++
      " succeeded but revision-N+2 control-plane compensation failed: " ++
      compensation_error.display))

/-- The VMM is in no known status. -/
def reconcileNotRolledBack (id : Uuid) (current : VmRecord) (target : VmStatus)
    (persist_error rollback_error : OrchError) (call : Call) : Control VmRecord := do
  let failed := persistFailed id current.status target persist_error ++ "; rollback to " ++
    statusAsStr current.status ++ " failed: " ++ rollback_error.display
  match ← attempt (observeAndCompensateVmStatus current call) with
  | .ok observed => do
    setLifecycleState (.Running observed)
    throw (.Internal (failed ++ "; fenced observed VMM state " ++ statusAsStr observed.status ++
      " at revision " ++ toString observed.revision))
  | .error reconcile_error => do
    setLifecycleState (.Reconciling current)
    throw (.Internal (failed ++ "; observing/fencing the VMM failed and remains retryable: " ++
      reconcile_error.display))

/-- The record of the new status could not be published. -/
def undoTransition (id : Uuid) (current : VmRecord) (target : VmStatus)
    (persist_error : OrchError) (call : Call) : Control VmRecord := do
  join "rollback join: " call.joins.rollback
  match rollbackVmmTransition call.supervisor id current.status target with
  | .ok () => compensateRolledBack id current target persist_error call
  | .error rollback_error =>
    reconcileNotRolledBack id current target persist_error rollback_error call

def applyTransition (id : Uuid) (op : Supervisor → Except OrchError Unit) (target : VmStatus)
    (call : Call) (current : VmRecord) : Control VmRecord := do
  join "join: " call.joins.operation
  match op call.supervisor with
  | .error error => do
    let error ← reconcileFailedLiveOperation current error call
    throw error
  | .ok () =>
    match ← attempt (vmSetStatus id target call) with
    | .ok record => pure record
    | .error persist_error => undoTransition id current target persist_error call

def vmOp (id : Uuid) (op : Supervisor → Except OrchError Unit) (target : VmStatus) (call : Call) :
    Control VmRecord := do
  let observed ← getLocal id
  let _ ← ofExcept (validateLiveTransition id observed.status target)
  ofExcept call.supervisor.operation_gate
  let current ← getLocal id
  match ← ofExcept (validateLiveTransition id current.status target) with
  | .Noop => pure current
  | .Apply => applyTransition id op target call current

def pauseLocal (id : Uuid) : Call → Control VmRecord := vmOp id Supervisor.pause_vm .Paused

def suspendLocal (id : Uuid) : Call → Control VmRecord := vmOp id Supervisor.suspend_vm .Suspended

def resumeLocal (id : Uuid) : Call → Control VmRecord := vmOp id Supervisor.resume_vm .Running

/-- What `retry_pending_lifecycle` does for a VM in reconciliation. -/
def retryReconciling (call : Call) : Control Unit := fun node =>
  match node.lifecycle with
  | some (.Reconciling record) => (do
    ofExcept call.supervisor.operation_gate
    let record ← observeAndCompensateVmStatus record call
    setLifecycleState (.Running record) : Control Unit) node
  | _ => (.ok (), node)

/-! ## The copies of the record -/

section Copies

variable {id : Uuid} {vm : VmRecord} {node : Node} {call : Call} {status target : VmStatus}
  {op : Supervisor → Except OrchError Unit}

/-- A record of the status was published in place of that of the VM. -/
structure Replaced (vm : VmRecord) (status : VmStatus) (node : Node) (record : VmRecord)
    (node' : Node) : Prop where
  published : Published record node'
  id : record.id = vm.id
  status : record.status = status
  reconciling : ∀ r,
    node'.lifecycle = some (.Reconciling r) ↔ node.lifecycle = some (.Reconciling r)

/-- A publication failed, and the copies are at most `n` revisions apart. -/
structure Behind (vm : VmRecord) (n : Nat) (node node' : Node) : Prop where
  below : Below vm (vm.revision.toNat + n) node'
  cache : node'.cache = some vm
  lifecycle : node'.lifecycle = node.lifecycle

theorem join_none (what : String) {α : Type} (p : Unit → Control α) :
    (join what none >>= p) = p () := rfl

theorem ofExcept_ok {α β : Type} (a : α) (p : α → Control β) : (ofExcept (.ok a) >>= p) = p a := rfl

theorem checkedAdd_eq {revision n : UInt64} (h : revision.toNat + n.toNat < 2 ^ 64) :
    checkedAdd id revision n = pure (revision + n) := if_pos h

theorem publishRecord_next {n : UInt64} {revision : Nat} (hcache : node.cache = some vm)
    (hbelow : Below vm revision node) (hnewer : revision < vm.revision.toNat + n.toNat)
    (hmax : vm.revision.toNat + n.toNat < 2 ^ 63) (updated_at : Timestamp)
    (writes : Writes) :
    let record := { vm with status, revision := vm.revision + n, updated_at }
    (¬ writes.Work ∧ ∃ e node', publishRecord writes record node = (.error e, node') ∧
      Behind vm n.toNat node node') ∨
    ∃ node', publishRecord writes record node = (.ok (), node') ∧
      Replaced vm status node record node' := by
  have hrevision : (vm.revision + n).toNat = vm.revision.toNat + n.toNat := by
    rw [UInt64.toNat_add, Nat.mod_eq_of_lt (by omega)]
  intro record
  have hrecord : { vm with status, revision := vm.revision + n, updated_at } = record := rfl
  clear_value record
  have hbelow_iff (m : Nat) (x : Node) : Below record m x ↔ Below vm m x := by
    rw [← hrecord]
    exact ⟨fun h => { h with }, fun h => { h with }⟩
  rw [← show record.revision.toNat = vm.revision.toNat + n.toNat by rw [← hrecord, ← hrevision]]
    at hnewer hmax
  obtain ⟨hfails, e, node', hpublish, hstalled⟩ | ⟨-, -, hpublish⟩ :=
    publishRecord_newer ((hbelow_iff _ _).mpr hbelow) hnewer hmax (fun current hcurrent => by
      cases hcache.symm.trans hcurrent
      rw [← hrecord]
      show _ ≤ (vm.revision + n).toNat
      omega) writes
  · have hbelow' := (hbelow_iff _ _).mp hstalled.below
    rw [← hrecord] at hbelow'
    refine .inl ⟨fun hwork => ?_, e, node', hpublish, hrevision ▸ hbelow',
      hstalled.cache.trans hcache, hstalled.lifecycle⟩
    obtain hfleet | hstore := hfails
    · exact hfleet hwork.1
    · cases hwork.2 true (List.mem_of_mem_head? hstore)
  · obtain ⟨node', hrun, hpublished, hreconciling⟩ := hpublish
    exact .inr ⟨node', hrun, hpublished, by rw [← hrecord], by rw [← hrecord], hreconciling⟩

theorem compensateVmStatus_works (hcache : node.cache = some vm)
    (hbelow : Below vm (vm.revision.toNat + 1) node) (hmax : vm.revision.toNat + 2 < 2 ^ 63)
    (hwork : call.compensation.Work) (observed : VmStatus) :
    ∃ record node', compensateVmStatus vm observed call node = (.ok record, node') ∧
      Replaced vm observed node record node' ∧ record.revision = vm.revision + 2 := by
  unfold compensateVmStatus
  rw [checkedAdd_eq (lt_trans hmax (by decide)), run_bind]
  show ∃ record node', (publishRecord _ _ >>= _) node = _ ∧ _
  rw [run_bind]
  obtain ⟨hfails, -⟩ | ⟨node', hpublish, hreplaced⟩ :=
    publishRecord_next (n := 2) hcache hbelow (Nat.lt_succ_self _) hmax
      call.compensated_at call.compensation
  · exact absurd hwork hfails
  · rw [hpublish]
    exact ⟨_, _, rfl, hreplaced, rfl⟩

theorem vmSetStatus_cases (hpublished : Published vm node) (hmax : vm.revision.toNat + 1 < 2 ^ 63) :
    (¬ call.writes.Work ∧ ∃ e node', vmSetStatus id status call node = (.error e, node') ∧
      Behind vm 1 node node') ∨
    ∃ record node', vmSetStatus id status call node = (.ok record, node') ∧
      Replaced vm status node record node' := by
  have hget : vmGet id node = (.ok vm, node) := by
    unfold vmGet
    rw [hpublished.cache]
  unfold vmSetStatus
  rw [run_bind, hget]
  dsimp only
  rw [checkedAdd_eq (lt_trans hmax (by decide)), run_bind]
  show (_ ∧ ∃ e node', (publishRecord _ _ >>= _) node = _ ∧ _) ∨
    ∃ record node', (publishRecord _ _ >>= _) node = _ ∧ _
  rw [run_bind]
  obtain ⟨hfails, e, node', hpublish, hbehind⟩ | ⟨node', hpublish, hreplaced⟩ :=
    publishRecord_next (n := 1) hpublished.cache hpublished.below (Nat.lt_succ_self _) hmax
      call.updated_at call.writes
  · rw [hpublish]
    exact .inl ⟨hfails, e, node', rfl, hbehind⟩
  · rw [hpublish]
    exact .inr ⟨_, _, rfl, hreplaced⟩

/-- The sweeper, or the operation itself, leaves the copies as they are or in one record. -/
theorem observeAndCompensateVmStatus_cases (hcache : node.cache = some vm)
    (hbelow : Below vm (vm.revision.toNat + 1) node) (hmax : vm.revision.toNat + 2 < 2 ^ 63)
    (hwork : call.compensation.Work) :
    (¬ call.Observes ∧ ∃ e, observeAndCompensateVmStatus vm call node = (.error e, node)) ∨
    ∃ record node', observeAndCompensateVmStatus vm call node = (.ok record, node') ∧
      Published record node' ∧ record.id = vm.id ∧ record.status ∈ liveControlStatuses ∧
      record.revision = vm.revision + 2 := by
  unfold observeAndCompensateVmStatus
  cases hjoin : call.joins.status with
  | some error =>
    refine .inl ⟨fun h => ?_, _, rfl⟩
    cases hjoin.symm.trans h.1
  | none =>
    rw [join_none]
    cases hobserved : call.supervisor.status_vm with
    | error e =>
      refine .inl ⟨fun ⟨_, state, status, h, _⟩ => ?_, e, rfl⟩
      cases hobserved.symm.trans h
    | ok state =>
      rw [ofExcept_ok]
      cases hstatus : controlStatus state with
      | error e =>
        refine .inl ⟨fun ⟨_, state', status, h, h'⟩ => ?_, e, rfl⟩
        cases hobserved.symm.trans h
        cases hstatus.symm.trans h'
      | ok status =>
        obtain ⟨record, node', hrun, hreplaced, hrevision⟩ :=
          compensateVmStatus_works hcache hbelow hmax hwork status
        exact .inr ⟨record, node', hrun, hreplaced.published, hreplaced.id,
          hreplaced.status ▸ controlStatus_live hstatus, hrevision⟩

/-- The copies of the VM between two operations. -/
inductive Settled (id : Uuid) (node : Node) : Prop where
  | published (vm : VmRecord) (hid : vm.id = id) (hlive : vm.status ∈ liveControlStatuses)
      (h : Published vm node) (hlifecycle : ∀ r, node.lifecycle ≠ some (.Reconciling r))
  | reconciling (vm : VmRecord) (hid : vm.id = id) (hlive : vm.status ∈ liveControlStatuses)
      (hcache : node.cache = some vm) (h : Below vm (vm.revision.toNat + 1) node)
      (hlifecycle : node.lifecycle = some (.Reconciling vm))

/-- The compensation is kept, and the VM has revisions left. -/
structure Kept (node : Node) (call : Call) : Prop where
  compensation : call.compensation.Work
  rollback : call.joins.rollback = none
  revision : ∀ vm, node.cache = some vm → vm.revision.toNat + 2 < 2 ^ 63

variable (hid : vm.id = id) (hlive : vm.status ∈ liveControlStatuses)
  (hlifecycle : ∀ r, node.lifecycle ≠ some (.Reconciling r))

include hid hlifecycle in
theorem Replaced.settled {record : VmRecord} {node' : Node}
    (h : Replaced vm status node record node') (hlive : status ∈ liveControlStatuses) :
    Settled id node' :=
  .published record (h.id.trans hid) (h.status ▸ hlive) h.published
    fun r hr => hlifecycle r ((h.reconciling r).mp hr)

include hid hlive hlifecycle in
/-- The undo answers an error and leaves the node settled. -/
theorem undoTransition_settled (hcache : node.cache = some vm)
    (hbelow : Below vm (vm.revision.toNat + 1) node) (hkept : Kept node call)
    (target : VmStatus) (persist_error : OrchError) :
    ∃ e node', undoTransition id vm target persist_error call node = (.error e, node') ∧
      Settled id node' := by
  have hmax := hkept.revision vm hcache
  unfold undoTransition
  rw [hkept.rollback, join_none]
  cases rollbackVmmTransition call.supervisor id vm.status target with
  | ok u =>
    dsimp only
    unfold compensateRolledBack
    rw [run_bind]
    unfold attempt
    obtain ⟨record, node', hrun, hreplaced, -⟩ :=
      compensateVmStatus_works hcache hbelow hmax hkept.compensation vm.status
    rw [hrun]
    exact ⟨persist_error, node', rfl, hreplaced.settled hid hlifecycle hlive⟩
  | error rollback_error =>
    dsimp only
    unfold reconcileNotRolledBack
    rw [run_bind]
    unfold attempt
    obtain ⟨-, e, hrun⟩ | ⟨record, node', hrun, hpublished, hrecord, hlive', -⟩ :=
      observeAndCompensateVmStatus_cases hcache hbelow hmax hkept.compensation
    · rw [hrun]
      exact ⟨_, _, rfl, .reconciling vm hid hlive hcache { hbelow with } rfl⟩
    · rw [hrun]
      exact ⟨_, _, rfl, .published record (hrecord.trans hid) hlive'
        { hpublished with } fun r hr => by cases hr⟩

include hid hlive hlifecycle in
theorem reconcileFailedLiveOperation_settled (hpublished : Published vm node)
    (hkept : Kept node call) (primary : OrchError) :
    ∃ e node', reconcileFailedLiveOperation vm primary call node = (.ok e, node') ∧
      Settled id node' := by
  have hsettled : Settled id node := .published vm hid hlive hpublished hlifecycle
  have hbelow := hpublished.below.mono (Nat.le_succ _)
  have hretained (detail : String) : ∃ e node',
      retainLiveOperationReconciliation vm primary detail node = (.ok e, node') ∧
        Settled id node' :=
    ⟨_, _, rfl, .reconciling vm hid hlive hpublished.cache { hbelow with } rfl⟩
  unfold reconcileFailedLiveOperation
  split
  swap
  · exact ⟨_, _, rfl, hsettled⟩
  cases call.joins.status with
  | some error => exact hretained _
  | none =>
    cases call.supervisor.status_vm with
    | error error => exact hretained _
    | ok state =>
      dsimp only
      cases hobserved : controlStatus state with
      | error error => exact hretained _
      | ok observed =>
        dsimp only
        split
        · exact ⟨_, _, rfl, hsettled⟩
        unfold fenceFailedLiveOperation
        rw [run_bind]
        unfold attempt
        obtain ⟨record, node', hrun, ⟨hfenced, hrecord, hstatus, -⟩, -⟩ :=
          compensateVmStatus_works hpublished.cache hbelow
            (hkept.revision vm hpublished.cache) hkept.compensation observed
        rw [hrun]
        exact ⟨_, _, rfl, .published record (hrecord.trans hid)
          (hstatus ▸ controlStatus_live hobserved)
          { hfenced with } fun r hr => by cases hr⟩

theorem undoTransition_error (current : VmRecord) (persist_error : OrchError) (node : Node) :
    ∃ e, (undoTransition id current target persist_error call node).1 = .error e := by
  unfold undoTransition
  cases call.joins.rollback with
  | some error => exact ⟨_, rfl⟩
  | none =>
    rw [join_none]
    cases rollbackVmmTransition call.supervisor id current.status target with
    | ok u =>
      dsimp only
      unfold compensateRolledBack attempt
      rw [run_bind]
      cases (compensateVmStatus current current.status call node).1 with
      | ok record | error e => exact ⟨_, rfl⟩
    | error rollback_error =>
      dsimp only
      unfold reconcileNotRolledBack attempt
      rw [run_bind]
      cases (observeAndCompensateVmStatus current call node).1 with
      | ok record | error e => exact ⟨_, rfl⟩

theorem validateLiveTransition_apply {id : Uuid} {current target : VmStatus}
    (h : validateLiveTransition id current target = .ok .Apply) : target ∈ liveControlStatuses := by
  unfold validateLiveTransition at h
  split at h
  · cases h
  split at h
  · next hallowed =>
    cases target with
    | Running | Paused | Suspended => decide
    | _ => cases hallowed
  · cases h

theorem applyTransition_cases (hpublished : Published vm node)
    (hmax : vm.revision.toNat + 1 < 2 ^ 63) :
    (call.joins.operation ≠ none ∧
      ∃ e, applyTransition id op target call vm node = (.error e, node)) ∨
    (∃ primary, op call.supervisor = .error primary ∧
      applyTransition id op target call vm node =
        (do throw (← reconcileFailedLiveOperation vm primary call) : Control VmRecord) node) ∨
    (∃ e node', ¬ call.writes.Work ∧ applyTransition id op target call vm node =
        undoTransition id vm target e call node' ∧ Behind vm 1 node node') ∨
    ∃ record node', applyTransition id op target call vm node = (.ok record, node') ∧
      Replaced vm target node record node' := by
  unfold applyTransition
  cases call.joins.operation with
  | some error => exact .inl ⟨Option.some_ne_none error, _, rfl⟩
  | none =>
    rw [join_none]
    cases hop : op call.supervisor with
    | error primary => exact .inr (.inl ⟨primary, rfl, rfl⟩)
    | ok u =>
      dsimp only
      rw [run_bind]
      unfold attempt
      obtain ⟨hfails, e, node', hrun, hbehind⟩ | ⟨record, node', hrun, hreplaced⟩ :=
        vmSetStatus_cases hpublished hmax
      · rw [hrun]
        exact .inr (.inr (.inl ⟨e, node', hfails, rfl, hbehind⟩))
      · rw [hrun]
        exact .inr (.inr (.inr ⟨record, node', rfl, hreplaced⟩))

include hlifecycle in
theorem getLocal_eq (hcache : node.cache = some vm) : getLocal id node = (.ok vm, node) := by
  unfold getLocal
  split
  · next r hr => exact absurd hr (hlifecycle r)
  · unfold vmGet
    rw [hcache]

include hlifecycle in
theorem vmOp_cases (id : Uuid) (op : Supervisor → Except OrchError Unit) (target : VmStatus)
    (call : Call) (hcache : node.cache = some vm) :
    ((validateLiveTransition id vm.status target = .ok .Apply →
        call.supervisor.operation_gate ≠ .ok ()) ∧
      ∃ e, vmOp id op target call node = (.error e, node)) ∨
    (validateLiveTransition id vm.status target = .ok .Noop ∧
      vmOp id op target call node = (.ok vm, node)) ∨
    validateLiveTransition id vm.status target = .ok .Apply ∧
      vmOp id op target call node = applyTransition id op target call vm node := by
  unfold vmOp
  rw [run_bind, getLocal_eq hlifecycle hcache]
  dsimp only
  cases hvalid : validateLiveTransition id vm.status target with
  | error e => exact .inl ⟨nofun, e, rfl⟩
  | ok decision =>
    rw [ofExcept_ok]
    cases hgate : call.supervisor.operation_gate with
    | error e => exact .inl ⟨fun _ => nofun, e, rfl⟩
    | ok u =>
      rw [ofExcept_ok, run_bind, getLocal_eq hlifecycle hcache]
      dsimp only
      rw [hvalid]
      cases decision with
      | Noop => exact .inr (.inl ⟨rfl, rfl⟩)
      | Apply => exact .inr (.inr ⟨rfl, rfl⟩)

theorem vmOp_reconciling (hlifecycle : node.lifecycle = some (.Reconciling vm)) :
    vmOp id op target call node = (.error (.Unavailable ("vm " ++ displayUuid id ++
      " lifecycle reconciliation is pending")), node) := by
  have hget : getLocal id node = (.error (.Unavailable ("vm " ++ displayUuid id ++
      " lifecycle reconciliation is pending")), node) := by
    unfold getLocal
    rw [hlifecycle]
  unfold vmOp
  rw [run_bind, hget]

theorem Settled.vmOp (hsettled : Settled id node) (hkept : Kept node call)
    (op : Supervisor → Except OrchError Unit) (target : VmStatus) :
    Settled id (vmOp id op target call node).2 := by
  cases hsettled with
  | reconciling vm hid hlive hcache hbelow hlifecycle =>
    rw [vmOp_reconciling hlifecycle]
    exact .reconciling vm hid hlive hcache hbelow hlifecycle
  | published vm hid hlive hpublished hlifecycle =>
    have hsettled : Settled id node := .published vm hid hlive hpublished hlifecycle
    have hmax := hkept.revision vm hpublished.cache
    obtain ⟨-, e, hrun⟩ | ⟨-, hrun⟩ | ⟨hvalid, happly⟩ :=
      vmOp_cases hlifecycle id op target call hpublished.cache
    · rw [hrun]
      exact hsettled
    · rw [hrun]
      exact hsettled
    rw [happly]
    obtain ⟨-, e, hrun⟩ | ⟨primary, -, hrun⟩ | ⟨e, node', -, hrun, hbehind⟩ |
        ⟨record, node', hrun, hreplaced⟩ := applyTransition_cases hpublished (by omega)
    · rw [hrun]
      exact hsettled
    · rw [hrun, run_bind]
      obtain ⟨e, node', hreconcile, hnext⟩ :=
        reconcileFailedLiveOperation_settled hid hlive hlifecycle hpublished hkept primary
      rw [hreconcile]
      exact hnext
    · rw [hrun]
      obtain ⟨hbelow, hcache, hkeeps⟩ := hbehind
      obtain ⟨e', node'', hundo, hnext⟩ := undoTransition_settled hid hlive
        (fun r hr => hlifecycle r (hkeeps ▸ hr)) hcache hbelow ⟨hkept.compensation, hkept.rollback,
          fun vm' hvm' => hkept.revision vm' (hpublished.cache.trans (hcache.symm.trans hvm'))⟩
        target e
      rw [hundo]
      exact hnext
    · rw [hrun]
      exact hreplaced.settled hid hlifecycle (validateLiveTransition_apply hvalid)

/-- An operation that succeeds leaves its record in all three places. -/
theorem Settled.vmOp_ok (hsettled : Settled id node)
    (hmax : ∀ vm, node.cache = some vm → vm.revision.toNat + 1 < 2 ^ 63)
    {op : Supervisor → Except OrchError Unit} {target : VmStatus} {record : VmRecord} {node' : Node}
    (h : Node.vmOp id op target call node = (.ok record, node')) : Published record node' := by
  cases hsettled with
  | reconciling vm hid hlive hcache hbelow hlifecycle =>
    rw [vmOp_reconciling hlifecycle] at h
    cases h
  | published vm hid hlive hpublished hlifecycle =>
    obtain ⟨-, e, hrun⟩ | ⟨-, hrun⟩ | ⟨-, happly⟩ :=
      vmOp_cases hlifecycle id op target call hpublished.cache
    · rw [hrun] at h
      cases h
    · rw [hrun] at h
      cases h
      exact hpublished
    rw [happly] at h
    obtain ⟨-, e, hrun⟩ | ⟨primary, -, hrun⟩ | ⟨e, node', -, hrun, -⟩ |
        ⟨next, node', hrun, hnext⟩ :=
      applyTransition_cases hpublished (hmax vm hpublished.cache)
    · rw [hrun] at h
      cases h
    · rw [hrun, run_bind] at h
      revert h
      rcases reconcileFailedLiveOperation vm primary call node with ⟨e | e, node''⟩
      · exact nofun
      · exact nofun
    · rw [hrun] at h
      obtain ⟨e', hundo⟩ := undoTransition_error vm e node'
      rw [h] at hundo
      cases hundo
    · rw [hrun] at h
      cases h
      exact hnext.published

include hlifecycle in
theorem retryReconciling_of_not : retryReconciling call node = (.ok (), node) := by
  unfold retryReconciling
  split
  · next r hr => exact absurd hr (hlifecycle r)
  · rfl

/-- What the sweeper does keeps the copies settled as well. -/
theorem Settled.retryReconciling (hsettled : Settled id node) (hkept : Kept node call) :
    Settled id (retryReconciling call node).2 := by
  cases hsettled with
  | published vm hid hlive hpublished hlifecycle =>
    rw [retryReconciling_of_not hlifecycle]
    exact .published vm hid hlive hpublished hlifecycle
  | reconciling vm hid hlive hcache hbelow hlifecycle =>
    have hsettled : Settled id node := .reconciling vm hid hlive hcache hbelow hlifecycle
    unfold Node.retryReconciling
    rw [hlifecycle]
    dsimp only
    cases call.supervisor.operation_gate with
    | error e => exact hsettled
    | ok u =>
      rw [ofExcept_ok, run_bind]
      obtain ⟨-, e, hrun⟩ | ⟨record, node', hrun, hpublished, hrecord, hlive', -⟩ :=
        observeAndCompensateVmStatus_cases hcache hbelow (hkept.revision vm hcache)
          hkept.compensation
      · rw [hrun]
        exact hsettled
      · rw [hrun]
        exact .published record (hrecord.trans hid) hlive'
          { hpublished with } fun r hr => by cases hr

end Copies

/-! ## Runs -/

inductive Action where
  | operate (op : Supervisor → Except OrchError Unit) (target : VmStatus) (call : Call)
  | retry (call : Call)

def Action.call : Action → Call
  | .operate _ _ call => call
  | .retry call => call

def Action.run (id : Uuid) (node : Node) : Action → Node
  | .operate op target call => (vmOp id op target call node).2
  | .retry call => (retryReconciling call node).2

/-- The states a node reaches from `start` when every call meets `ok`. -/
inductive Reaches (id : Uuid) (ok : Node → Call → Prop) (start : Node) : Node → Prop where
  | init : Reaches id ok start start
  | step {node : Node} (action : Action) : Reaches id ok start node → ok node action.call →
      Reaches id ok start (action.run id node)

/-- A node that starts settled is settled after every call. -/
theorem Reaches.settled {id : Uuid} {start node : Node} (hstart : Settled id start)
    (h : Reaches id Kept start node) : Settled id node := by
  induction h with
  | init => exact hstart
  | step action _ hkept ih =>
    cases action with
    | operate op target call => exact ih.vmOp hkept op target
    | retry call => exact ih.retryReconciling hkept

structure Call.Works (call : Call) : Prop where
  gate : call.supervisor.operation_gate = .ok ()
  operation : call.joins.operation = none
  observes : call.Observes
  writes : call.writes.Work
  compensation : call.compensation.Work

/-- The VM can be operated: some transition is allowed, and each that is allowed succeeds when
all it depends on works. -/
def Operable (id : Uuid) (node : Node) : Prop :=
  ∃ vm, node.cache = some vm ∧
    (∃ target, validateLiveTransition id vm.status target = .ok .Apply) ∧
    ∀ op target call, validateLiveTransition id vm.status target = .ok .Apply → call.Works →
      op call.supervisor = .ok () → ∃ record node', vmOp id op target call node =
        (.ok record, node')

/-- The sweeper makes the VM operable when all it depends on works. -/
def Recoverable (id : Uuid) (node : Node) : Prop :=
  ∀ call, call.Works → ∃ node', retryReconciling call node = (.ok (), node') ∧ Operable id node'

theorem exists_allowedTransition (id : Uuid) {status : VmStatus}
    (h : status ∈ liveControlStatuses) :
    ∃ target, validateLiveTransition id status target = .ok .Apply := by
  cases status with
  | Running => exact ⟨.Paused, rfl⟩
  | Paused | Suspended => exact ⟨.Running, rfl⟩
  | _ => exact absurd h (by decide)

theorem operable_of_published {id : Uuid} {vm : VmRecord} {node : Node}
    (hlive : vm.status ∈ liveControlStatuses) (hpublished : Published vm node)
    (hlifecycle : ∀ r, node.lifecycle ≠ some (.Reconciling r))
    (hmax : vm.revision.toNat + 1 < 2 ^ 63) : Operable id node := by
  refine ⟨vm, hpublished.cache, exists_allowedTransition id hlive,
    fun op target call hvalid hworks hop => ?_⟩
  obtain ⟨hrefused, -⟩ | ⟨hnoop, -⟩ | ⟨-, happly⟩ :=
    vmOp_cases hlifecycle id op target call hpublished.cache
  · exact absurd hworks.gate (hrefused hvalid)
  · cases hvalid.symm.trans hnoop
  rw [happly]
  obtain ⟨hjoin, -⟩ | ⟨primary, hfails, -⟩ | ⟨e, node', hfails, -⟩ | ⟨record, node', hrun, -⟩ :=
    applyTransition_cases hpublished hmax
  · exact absurd hworks.operation hjoin
  · cases hop.symm.trans hfails
  · exact absurd hworks.writes hfails
  · exact ⟨record, node', hrun⟩

theorem Settled.recoverable {id : Uuid} {node : Node} (h : Settled id node)
    (hmax : ∀ vm, node.cache = some vm → vm.revision.toNat + 3 < 2 ^ 63) : Recoverable id node := by
  intro call hworks
  cases h with
  | published vm hid hlive hpublished hlifecycle =>
    refine ⟨node, retryReconciling_of_not hlifecycle,
      operable_of_published hlive hpublished hlifecycle ?_⟩
    have := hmax vm hpublished.cache
    omega
  | reconciling vm hid hlive hcache hbelow hlifecycle =>
    have hvm := hmax vm hcache
    obtain ⟨hfails, -⟩ | ⟨record, node', hrun, hpublished, -, hlive', hrevision⟩ :=
      observeAndCompensateVmStatus_cases hcache hbelow (by omega) hworks.compensation
    · exact absurd hworks.observes hfails
    refine ⟨{ node' with lifecycle := some (.Running record) }, ?_, ?_⟩
    · unfold Node.retryReconciling
      rw [hlifecycle, hworks.gate]
      dsimp only
      rw [ofExcept_ok, run_bind, hrun]
      rfl
    · refine operable_of_published hlive'
        { hpublished with } (fun r hr => by cases hr) ?_
      rw [hrevision, UInt64.toNat_add]
      show (vm.revision.toNat + 2) % 2 ^ 64 + 1 < 2 ^ 63
      omega

/-- In every run in which compensations are written, an operation that succeeds has left its
record in the fleet, in the store and in the cache, and the VM can be operated again. -/
theorem status_copies_agree {id : Uuid} {start node : Node} (hstart : Settled id start)
    (h : Reaches id Kept start node)
    (hmax : ∀ vm, node.cache = some vm → vm.revision.toNat + 3 < 2 ^ 63) :
    (∀ op target call record node', vmOp id op target call node = (.ok record, node') →
      Published record node') ∧ Recoverable id node := by
  have hsettled := h.settled hstart
  refine ⟨fun op target call record node' hrun => hsettled.vmOp_ok (fun vm hvm => ?_) hrun,
    hsettled.recoverable hmax⟩
  have := hmax vm hvm
  omega

def runningNode (vm : VmRecord) : Node where
  fleet := Function.update (fun _ => none) (.vm vm.id) (some (vmRow vm))
  store := { emptyTables with vms := Table.insert ∅ vm }
  cache := some vm
  lifecycle := some (.Running vm)

/-- A call in which only statements of the store fail. -/
def pauseCall (now : Timestamp) (faults compensation_faults : List Bool) : Call where
  supervisor := ⟨.ok (), .ok (), .ok (), .ok (), .ok .Running⟩
  joins := ⟨none, none, none⟩
  updated_at := now
  writes := ⟨.works, faults⟩
  compensated_at := now + 1000
  compensation := ⟨.works, compensation_faults⟩

theorem settled_runningNode : Settled 1 (runningNode (bootedVm "a" .Running 1)) :=
  .published _ rfl (by decide) ⟨⟨_, rfl, rfl, rfl, rfl, rfl⟩, rfl, rfl⟩ fun _ h => by cases h

/-- A pause whose write to the store fails is compensated; the next one succeeds. -/
theorem pause_after_compensation : ∃ record node',
    pauseLocal 1 (pauseCall 20000 [] []) (pauseLocal 1 (pauseCall 10000 [true] [])
      (runningNode (bootedVm "a" .Running 1))).2 = (.ok record, node') ∧
    (record.status, record.revision) = (.Paused, 4) ∧ Published record node' := by
  have hkept : Kept (runningNode (bootedVm "a" .Running 1)) (pauseCall 10000 [true] []) :=
    ⟨⟨rfl, nofun⟩, rfl, fun vm hvm => by cases hvm; decide⟩
  have hreaches : Reaches 1 Kept (runningNode (bootedVm "a" .Running 1)) _ :=
    .step (.operate Supervisor.pause_vm .Paused (pauseCall 10000 [true] [])) .init hkept
  have hagree := status_copies_agree settled_runningNode hreaches fun vm hvm => by
    cases hvm
    decide
  exact ⟨_, _, rfl, rfl, hagree.1 Supervisor.pause_vm .Paused (pauseCall 20000 [] []) _ _ rfl⟩

/-- The store fails during a pause: its record and the compensation reach the fleet only, as
revisions 2 and 3. The next pause publishes revision 2 and succeeds, and the fleet keeps
revision 3, at which the VM is running. -/
theorem fleet_keeps_compensation : ∃ record node',
    pauseLocal 1 (pauseCall 20000 [] []) (pauseLocal 1 (pauseCall 10000 [true] [true])
      (runningNode (bootedVm "a" .Running 1))).2 = (.ok record, node') ∧
    (record.status, record.revision) = (.Paused, 2) ∧ node'.cache = some record ∧
    (node'.fleet (.vm 1)).map (fun row => (row.status, row.revision)) = some (.Running, 3) :=
  ⟨_, _, rfl, rfl, rfl, rfl⟩

end Tarit.Node
