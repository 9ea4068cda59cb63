import Tarit.Node.Records

/-!
# Terminal transitions

A VM that is stopped or has failed goes through a terminal transition: its record is persisted,
the ownership in the fleet cleared, the cache updated, the reservation of the scheduler released
and what the VM leaves cleaned up. The lifecycle entry holds the record and the phase that is to
come, so a transition that failed part-way is resumed by whoever drives it next.

DELETE, a failed boot, the reconciler and the shutdown hold the terminal gate while they drive a
transition. The worker of a cancelled lifecycle does not: the reconciler may drive the same
transition beside it, and then steps are done again after the cleanup. When the process of a VM
exits, the watcher releases the reservation before the transition starts.
-/
namespace Tarit.Node.Terminal

open Lib Fleet Store Function Fallible List Option

/-! ## Phases -/

inductive TerminalPhase where
  | PersistRecordAndRelease | PersistRecordOnly
  | ClearFleetOwnershipAndRelease | ClearFleetOwnershipOnly
  | CommitCacheAndRelease | CommitCacheOnly
  | ReleaseReservation
  | Complete
  deriving DecidableEq

inductive Step where
  | persist | clear | cache | release | cleanUp
  deriving DecidableEq

def Step.rank : Step → Nat
  | .persist => 0
  | .clear => 1
  | .cache => 2
  | .release => 3
  | .cleanUp => 4

variable {phase : TerminalPhase} {α : Type}

namespace TerminalPhase

def step : TerminalPhase → Step
  | PersistRecordAndRelease | PersistRecordOnly => .persist
  | ClearFleetOwnershipAndRelease | ClearFleetOwnershipOnly => .clear
  | CommitCacheAndRelease | CommitCacheOnly => .cache
  | ReleaseReservation => .release
  | Complete => .cleanUp

/-- The phase that is set once the step is done; after the last the entry is removed. -/
def after : TerminalPhase → Option TerminalPhase
  | PersistRecordAndRelease => some ClearFleetOwnershipAndRelease
  | PersistRecordOnly => some ClearFleetOwnershipOnly
  | ClearFleetOwnershipAndRelease => some CommitCacheAndRelease
  | ClearFleetOwnershipOnly => some CommitCacheOnly
  | CommitCacheAndRelease => some ReleaseReservation
  | CommitCacheOnly => some Complete
  | ReleaseReservation => some Complete
  | Complete => none

theorem step_of_last (h : phase.after = none) : phase.step ≠ .release := by
  cases phase with
  | Complete => decide
  | _ => cases h

/-- The phase is one of a transition that releases the reservation, or that does not. -/
def Of (releases : Bool) : TerminalPhase → Prop
  | PersistRecordAndRelease | ClearFleetOwnershipAndRelease | CommitCacheAndRelease
  | ReleaseReservation => releases = true
  | PersistRecordOnly | ClearFleetOwnershipOnly | CommitCacheOnly => releases = false
  | Complete => True

end TerminalPhase

/-! ## Steps -/

/-- What a step meets: the failures of the store, the fleet and the cleanup. -/
structure Conditions where
  now : Timestamp
  store : List Bool
  fleet : Write
  keys : List FleetKey
  rounds : Nat
  hibernation : Option OrchError
  snapshots : Option OrchError

def record : LifecycleState → VmRecord
  | .Creating record | .Publishing record | .Running record | .Reconciling record
  | .Abandoned record | .Terminal record => record

def newest (node : Node) : Option VmRecord :=
  match node.lifecycle, node.cache with
  | some lifecycle, some cached =>
    some (if (record lifecycle).revision < cached.revision then cached else record lifecycle)
  | some lifecycle, none => some (record lifecycle)
  | none, cached => cached

def terminalRecord (id : Uuid) (status : VmStatus) (now : Timestamp) :
    Control VmRecord := fun node =>
  match newest node with
  | none => (.error (.NotFound ("vm " ++ displayUuid id ++ " not found")), node)
  | some record =>
    (do
      let revision ← checkedAdd id record.revision 1
      pure { record with
        status, revision, runtime_layout := none, socket_path := none, pid := none
        updated_at := now } : Control VmRecord) node

def persistVmRecord (x : Conditions) (record : VmRecord) : Control Unit :=
  runStore x.store (insertVm record)

/-- `clear_ownership`: the local record says which incarnation is deleted from the fleet. -/
def clearLifecycleOwnership (x : Conditions) (id : Uuid) : Control Unit := fun node =>
  match node.cache.or (node.store.vms.find? id) with
  | none =>
    (.error (.Internal ("refusing unfenced fleet ownership delete for VM " ++ displayUuid id ++
      ": local record missing")), node)
  | some record =>
    match x.fleet with
    | .fails => (.error (.Internal ("fleet delete_vm: " ++ displayFleetError .Postgres)), node)
    | write =>
      match Session.alone fleetSchema x.keys (Fleet.deleteVm record x.now x.rounds) node.fleet with
      | (.error e, _) => (.error (.Internal ("fleet delete_vm: " ++ displayFleetError e)), node)
      | (.ok _, fleet) =>
        (if write = .unacknowledged then
          .error (.Internal ("fleet delete_vm: " ++ displayFleetError .Postgres))
        else .ok (), { node with fleet })

def failWith : Option OrchError → Control Unit
  | none => pure ()
  | some error => throw error

/-- The hibernation and the volumes of the VM, and the snapshots that are leased to it. -/
def cleanUp (x : Conditions) (id : Uuid) (record : VmRecord) : Control Unit :=
  match record.owner_key with
  | none => failWith x.snapshots
  | some owner_key => do
    failWith x.hibernation
    runStore x.store (unbindVmVolumes owner_key id)
    failWith x.snapshots

/-- The step of the phase; the scheduler is not a part of `Node`. -/
def perform (x : Conditions) (id : Uuid) (record : VmRecord) : Step → Control Unit
  | .persist => persistVmRecord x record
  | .clear => clearLifecycleOwnership x id
  | .cache => commitVmRecord record
  | .release => pure ()
  | .cleanUp => cleanUp x id record

/-! ## Drivers -/

/-- A terminal transition, by the count of those before it. -/
structure Transition where
  number : Nat
  releases : Bool
  deriving DecidableEq

/-- Where a caller of `finish_terminal_transition` is. -/
inductive Driver where
  /-- In `start_terminal_transition`. -/
  | starting (status : VmStatus) (releases : Bool)
  /-- At the head of the loop. -/
  | reading
  | working (transition : Transition) (record : VmRecord) (phase : TerminalPhase)
  /-- Before `set_lifecycle_state`. -/
  | setting (transition : Transition) (record : VmRecord) (phase : TerminalPhase)
  /-- Before the entry is removed. -/
  | removing

inductive Role where
  /-- Under the terminal gate. -/
  | gated
  /-- The worker of a cancelled lifecycle. -/
  | worker
  deriving DecidableEq

inductive Entry where
  | step (transition : Transition) (step : Step) (ok : Bool)
  /-- The watcher of the process released the reservation. -/
  | watcher
  deriving DecidableEq

/-- One VM. `transition` and `phase` are of the lifecycle entry while it is terminal; `started`
counts the transitions, and `log` has what was done, the latest first. -/
structure State where
  node : Node
  transition : Transition
  phase : TerminalPhase
  reserved : Bool
  drivers : Role → Option Driver
  started : Nat
  log : List Entry

/-- The next section of a driver; `none` when it has returned. -/
def Driver.next (id : Uuid) (x : Conditions) (s : State) : Driver → Option Driver × State
  | starting status releases =>
    match terminalRecord id status x.now s.node with
    | (.error _, _) => (none, s)
    | (.ok record, _) =>
      (some (setting ⟨s.started, releases⟩ record
        (if releases then .PersistRecordAndRelease else .PersistRecordOnly)),
        { s with started := s.started + 1 })
  | reading =>
    match s.node.lifecycle with
    | some (.Terminal record) => (some (working s.transition record s.phase), s)
    | _ => (none, s)
  | working transition record phase =>
    match perform x id record phase.step s.node with
    | (.error _, node) => (none, { s with node, log := .step transition phase.step false :: s.log })
    | (.ok _, node) =>
      (some (match phase.after with
        | some phase => setting transition record phase
        | none => removing),
        { s with
          node, reserved := s.reserved && phase.step != .release
          log := .step transition phase.step true :: s.log })
  | setting transition record phase =>
    (some reading,
      { s with node := { s.node with lifecycle := some (.Terminal record) }, transition, phase })
  | removing => (none, { s with node := { s.node with lifecycle := none } })

inductive Event where
  /-- `start_terminal_transition` and `finish_terminal_transition` under the gate. -/
  | start (status : VmStatus) (releases : Bool)
  /-- `finish_terminal_transition` under the gate. -/
  | resume
  /-- `finish_cancelled_lifecycle` once the VM is torn down. -/
  | cancelled
  | drive (role : Role) (x : Conditions)
  /-- `reconcile_process_exit` -/
  | exit
  /-- The sections of other operations on the VM. -/
  | insert (record : VmRecord) (faults : List Bool)
  | claim (record : VmRecord) (write : Write)
  | commit (record : VmRecord)
  | enter (lifecycle : LifecycleState)
  | erase (faults : List Bool)

def State.call (s : State) (role : Role) (driver : Driver) : Option State :=
  if (s.drivers role).isNone then
    some { s with drivers := update s.drivers role (some driver) }
  else none

def isTerminal : LifecycleState → Bool
  | .Terminal _ => true
  | _ => false

def State.step (id : Uuid) (s : State) : Event → Option State
  | .start status releases => s.call .gated (.starting status releases)
  | .resume => s.call .gated .reading
  | .cancelled =>
    match s.node.lifecycle with
    | none => some s
    | some (.Terminal _) => s.call .worker .reading
    | some _ => s.call .worker (.starting .Stopped true)
  | .drive role x =>
    match s.drivers role with
    | none => none
    | some driver =>
      let (driver', s') := driver.next id x s
      some { s' with drivers := update s'.drivers role driver' }
  | .exit => some { s with reserved := false, log := .watcher :: s.log }
  | .insert record faults => some { s with node := (runStore faults (insertVm record) s.node).2 }
  | .claim record write => some { s with node := (claimLifecycleOwnership write record s.node).2 }
  | .commit record => some { s with node := (commitVmRecord record s.node).2 }
  | .enter lifecycle =>
    if isTerminal lifecycle then none
    else some { s with node := { s.node with lifecycle := some lifecycle } }
  | .erase faults =>
    match runStore faults (deleteVm id) s.node with
    | (.error _, node) => some { s with node }
    | (.ok _, node) => some { s with node := { node with cache := none } }

def run (id : Uuid) : State → List Event → Option State
  | s, [] => some s
  | s, event :: events => (s.step id event).bind fun s' => run id s' events

/-! ## Revisions -/

def NotLower (current next : Option VmRecord) : Prop :=
  ∀ r r', current = some r → next = some r' → r.revision ≤ r'.revision

theorem NotLower.refl (current : Option VmRecord) : NotLower current current := by
  intro r r' hr hr'
  rw [hr] at hr'
  cases hr'
  exact UInt64.le_refl _

/-- The records of the VM in the store and in the cache do not go back. -/
structure Raises (id : Uuid) (node node' : Node) : Prop where
  store : NotLower (node.store.vms.find? id) (node'.store.vms.find? id)
  cache : NotLower node.cache node'.cache

/-- Whether it fails or not, the call of the store does not lower the row of the VM. -/
def StoreRaises {α : Type} (id : Uuid) (p : Store α) : Prop :=
  ∀ t, Holds (· = t) p (fun _ t' => NotLower (t.vms.find? id) (t'.vms.find? id))
    fun t' => NotLower (t.vms.find? id) (t'.vms.find? id)

/-- So does an operation that leaves the lifecycle entry alone. -/
structure Keeps (id : Uuid) (node node' : Node) : Prop extends Raises id node node' where
  lifecycle : node'.lifecycle = node.lifecycle

variable {id : Uuid} {x : Conditions} {s : State}

section Revisions
variable {node : Node}

theorem Raises.refl (node : Node) : Raises id node node := ⟨.refl _, .refl _⟩

theorem Keeps.refl (node : Node) : Keeps id node node := ⟨.refl node, rfl⟩

theorem Keeps.fleet (fleet : Rows FleetRow) : Keeps id node { node with fleet } :=
  ⟨⟨.refl _, .refl _⟩, rfl⟩

theorem notLower_of_eq {t t' : Tables} (h : t' = t) :
    NotLower (t.vms.find? id) (t'.vms.find? id) := by
  rw [h]
  exact .refl _

theorem upsertVm_notLower (vm : VmRecord) (t : Tables) :
    NotLower (t.vms.find? id) ((Store.upsertVm vm t).2.vms.find? id) := by
  unfold Store.upsertVm
  cases hfind : t.vms.find? vm.id with
  | none =>
    rw [Table.find?_insert _ hfind]
    split
    · next hid =>
      intro r r' hr
      rw [hid, hfind] at hr
      cases hr
    · exact .refl _
  | some current =>
    dsimp only
    split
    swap
    · exact .refl _
    rw [Table.find?_update]
    intro r r' hr hr'
    rw [hr] at hr'
    cases hr'
    dsimp only
    split
    · next hreplaces =>
      simp only [replaces, Bool.and_eq_true, decide_eq_true_eq] at hreplaces
      exact UInt64.le_of_lt hreplaces.2
    · exact UInt64.le_refl _

theorem execute_raises {f : Tables → α × Tables}
    (h : ∀ t, NotLower (t.vms.find? id) ((f t).2.vms.find? id)) : StoreRaises id (execute f) := by
  intro t
  refine .step (fun t' ht => notLower_of_eq ht) ?_
  intro t' a t'' ht hf
  have hnext : (f t').2 = t'' := congrArg Prod.snd (Except.ok.inj hf)
  rw [← hnext, ← ht]
  exact h t'

theorem holds_getVm {I : Tables → Prop} (vm_id : Uuid) :
    Holds I (getVm vm_id) (fun _ => I) I := by
  refine .bind (Q := fun _ => I)
    (.read (fun _ h => h) fun _ h => h) fun found => ?_
  cases found with
  | none => exact .throw fun _ h => h
  | some vm => exact .pure fun _ h => h

theorem insertVm_raises (vm : VmRecord) : StoreRaises id (insertVm vm) := by
  intro t
  refine .bind (Q := fun _ t' => t' = t)
    (.ensure (fun t' ht => notLower_of_eq ht) fun _ h _ => h) fun _ => ?_
  refine .bind (execute_raises (upsertVm_notLower vm) t) fun changed => ?_
  split
  · exact .bind (holds_getVm _) fun _ => .bind
      (.ensure (fun _ h => h) fun _ h _ => h) fun _ =>
        .ensure (fun _ h => h) fun _ h _ => h
  · exact .pure fun _ h => h

theorem deleteVm_raises (vm_id : Uuid) : StoreRaises id (Store.deleteVm vm_id) := by
  intro t
  refine .bind (execute_raises ?_ t) fun _ =>
    .ensure (fun _ h => h) fun _ h _ => h
  intro t r r' hr hr'
  rw [Table.find?_filter, hr] at hr'
  cases (filter_eq_some_iff.mp hr').1
  exact UInt64.le_refl _

theorem unbindVmVolumes_raises (owner_key : String) (vm_id : Uuid) :
    StoreRaises id (unbindVmVolumes owner_key vm_id) :=
  execute_raises fun _ => .refl _

theorem runStore_keeps {p : Store α} (node : Node) (faults : List Bool) (h : StoreRaises id p) :
    Keeps id node (runStore faults p node).2 := by
  have hp := h node.store ⟨node.store, faults⟩ rfl
  unfold runStore
  revert hp
  rcases p ⟨node.store, faults⟩ with ⟨_ | _, x⟩ <;> exact fun hp => ⟨⟨hp, .refl _⟩, rfl⟩

theorem commitVmRecord_keeps (record : VmRecord) :
    Keeps id node (commitVmRecord record node).2 := by
  unfold commitVmRecord
  split
  · exact .refl _
  rename_i hnot
  refine ⟨⟨.refl _, ?_⟩, rfl⟩
  intro r r' hr hr'
  cases hr'
  rw [hr] at hnot
  exact UInt64.not_lt.mp fun hlt => hnot (by simpa using hlt)

theorem failWith_node (failure : Option OrchError) (node : Node) :
    (failWith failure node).2 = node := by
  cases failure <;> rfl

theorem cleanUp_keeps (record : VmRecord) : Keeps id node (cleanUp x id record node).2 := by
  unfold cleanUp
  cases record.owner_key with
  | none =>
    rw [failWith_node]
    exact .refl _
  | some owner_key =>
    dsimp only
    rw [run_bind]
    cases x.hibernation with
    | some error => exact .refl _
    | none =>
      show Keeps id node ((runStore x.store (unbindVmVolumes owner_key id) >>= fun _ =>
        failWith x.snapshots) node).2
      have hstore : Keeps id node _ :=
        runStore_keeps node x.store (unbindVmVolumes_raises owner_key id)
      rw [run_bind]
      revert hstore
      rcases runStore x.store (unbindVmVolumes owner_key id) node with ⟨_ | _, node'⟩
      · exact fun hstore => hstore
      · rw [failWith_node]
        exact fun hstore => hstore

theorem perform_keeps (record : VmRecord) (step : Step) :
    Keeps id node (perform x id record step node).2 := by
  cases step with
  | persist => exact runStore_keeps _ _ (insertVm_raises _)
  | clear =>
    show Keeps id node (clearLifecycleOwnership x id node).2
    unfold clearLifecycleOwnership
    split
    · exact .refl _
    split
    · exact .refl _
    split
    · exact .refl _
    · exact .fleet _
  | cache => exact commitVmRecord_keeps _
  | release => exact .refl _
  | cleanUp => exact cleanUp_keeps _

theorem Driver.next_frame (driver : Driver) (s : State) :
    (driver.next id x s).2.drivers = s.drivers ∧ Raises id s.node (driver.next id x s).2.node := by
  cases driver with
  | starting status releases | reading =>
    unfold Driver.next
    dsimp only
    split <;> exact ⟨rfl, .refl _⟩
  | working transition record phase =>
    have h : Keeps id s.node (perform x id record phase.step s.node).2 :=
      perform_keeps record phase.step
    unfold Driver.next
    dsimp only
    generalize perform x id record phase.step s.node = result at h
    rcases result with ⟨_ | _, node⟩ <;> exact ⟨rfl, h.toRaises⟩
  | setting transition record phase | removing => exact ⟨rfl, .refl _, .refl _⟩

end Revisions

/-! ## Order -/

def Done (log : List Entry) (transition : Transition) (step : Step) : Prop :=
  .step transition step true ∈ log

/-- After `older`, the entry is in its place: no later step of its transition was tried before it,
all earlier ones are done, and the reservation was not yet released. -/
def Entry.InPlace (older : List Entry) : Entry → Prop
  | .step transition what _ =>
    (∀ step ok, .step transition step ok ∈ older → step.rank ≤ what.rank) ∧
    (∀ step, step.rank < what.rank → (step = .release → transition.releases = true) →
      Done older transition step) ∧
    (what = .release → ∀ ok, .step transition .release ok ∉ older)
  | .watcher => False

def InOrder : List Entry → Prop
  | [] => True
  | entry :: older => entry.InPlace older ∧ InOrder older

structure At (log : List Entry) (transition : Transition) (phase : TerminalPhase) : Prop where
  notLater : ∀ step ok, .step transition step ok ∈ log → step.rank ≤ phase.step.rank
  done : ∀ step, step.rank < phase.step.rank → (step = .release → transition.releases = true) →
    Done log transition step
  unreleased : phase = .ReleaseReservation → ∀ ok, .step transition .release ok ∉ log
  of : phase.Of transition.releases

section Positions
variable {log : List Entry} {transition transition' : Transition} {phase' : TerminalPhase}
  {ok : Bool}

theorem At.inPlace (h : At log transition phase) :
    (Entry.step transition phase.step ok).InPlace log :=
  ⟨h.notLater, h.done, fun hrelease =>
    h.unreleased (by cases phase <;> first | rfl | cases hrelease)⟩

theorem At.first (hfresh : ∀ step ok, .step transition step ok ∉ log) :
    At log transition
      (if transition.releases then .PersistRecordAndRelease else .PersistRecordOnly) := by
  have hstep : ∀ releases : Bool, (if releases then TerminalPhase.PersistRecordAndRelease
      else .PersistRecordOnly).step = .persist := by decide
  constructor
  · exact fun step ok h => absurd h (hfresh step ok)
  · intro step h
    rw [hstep] at h
    cases h
  · intro _ ok
    exact hfresh .release ok
  · cases h : transition.releases <;> exact rfl

theorem At.cons_of_ne (h : At log transition phase) (hne : transition' ≠ transition) (step : Step)
    (ok : Bool) : At (.step transition' step ok :: log) transition phase := by
  have hmem : ∀ step' ok', .step transition step' ok' ∈ .step transition' step ok :: log →
      .step transition step' ok' ∈ log := by
    intro step' ok' hmem
    cases hmem with
    | head => exact absurd rfl hne
    | tail _ htail => exact htail
  exact ⟨fun step' ok' h' => h.notLater step' ok' (hmem step' ok' h'),
    fun step' hlt hreleases => mem_cons_of_mem _ (h.done step' hlt hreleases),
    fun hphase ok' h' => h.unreleased hphase ok' (hmem _ ok' h'), h.of⟩

/-- The step was tried; unless it is the release, it may be tried again. -/
theorem At.cons_self (h : At log transition phase) (hrelease : phase.step ≠ .release) (ok : Bool) :
    At (.step transition phase.step ok :: log) transition phase := by
  constructor
  · intro step ok' hmem
    cases hmem with
    | head => exact le_refl _
    | tail _ htail => exact h.notLater step ok' htail
  · exact fun step hlt hreleases => mem_cons_of_mem _ (h.done step hlt hreleases)
  · intro hphase
    subst hphase
    exact absurd rfl hrelease
  · exact h.of

theorem At.after (h : At log transition phase) (hafter : phase.after = some phase') :
    At (.step transition phase.step true :: log) transition phase' := by
  have hrank : phase.step.rank < phase'.step.rank := by
    cases phase <;> cases hafter <;> decide
  have hbetween : ∀ step : Step, step.rank < phase'.step.rank →
      (step = .release → transition.releases = true) →
      step.rank < phase.step.rank ∨ step = phase.step := by
    have hof := h.of
    intro step hlt hreleases
    cases phase <;> cases hafter <;> cases step <;>
      first
      | exact .inr rfl
      | exact .inl (by decide)
      | exact absurd hlt (by decide)
      | exact absurd (hof.symm.trans (hreleases rfl)) Bool.false_ne_true
  constructor
  · intro step ok hmem
    cases hmem with
    | head => exact le_of_lt hrank
    | tail _ htail => exact le_trans (h.notLater step ok htail) (le_of_lt hrank)
  · intro step hlt hreleases
    rcases hbetween step hlt hreleases with hlt' | rfl
    · exact mem_cons_of_mem _ (h.done step hlt' hreleases)
    · exact mem_cons_self
  · intro hphase ok hmem
    subst hphase
    rcases mem_cons.mp hmem with heq | htail
    · rw [← (Entry.step.inj heq).2.1] at hrank
      exact absurd hrank (lt_irrefl _)
    · exact absurd hrank (not_lt.mpr (h.notLater _ ok htail))
  · have hof := h.of
    cases phase <;> cases hafter <;> first | exact hof | exact trivial

end Positions

/-! ## One driver at a time -/

/-- The driver is where its transition is, and so is the entry it read. -/
def Driver.Fits (s : State) : Driver → Prop
  | .working transition _ phase =>
    At s.log transition phase ∧ transition.number < s.started ∧
      ∀ record, s.node.lifecycle = some (.Terminal record) → s.transition = transition →
        s.phase = phase
  | .setting transition _ phase => At s.log transition phase ∧ transition.number < s.started
  | _ => True

/-- A state in which `driver` is the only one. The entry is where its transition is, unless the
driver is about to set it. -/
structure Sound (driver : Option Driver) (s : State) : Prop where
  inOrder : InOrder s.log
  fresh : ∀ transition step ok, .step transition step ok ∈ s.log → transition.number < s.started
  fits : ∀ d, driver = some d → d.Fits s
  started : ∀ record, s.node.lifecycle = some (.Terminal record) → s.transition.number < s.started
  entry : ∀ record, s.node.lifecycle = some (.Terminal record) →
    (∀ record phase, driver ≠ some (.setting s.transition record phase)) →
    At s.log s.transition s.phase

def Driver.Arrives : Driver → Prop
  | .starting _ _ | .reading => True
  | _ => False

variable {d : Driver}

section Driver
variable {driver : Option Driver}

theorem Sound.drivers (h : Sound driver s) (drivers : Role → Option Driver) :
    Sound driver { s with drivers } := by
  refine { h with fits := fun d hd => ?_ }
  have hfits := h.fits d hd
  cases d <;> exact hfits

theorem Sound.node (h : Sound driver s) {node : Node}
    (hnode : ∀ record, node.lifecycle = some (.Terminal record) →
      s.node.lifecycle = some (.Terminal record)) : Sound driver { s with node } := by
  refine ⟨h.inOrder, h.fresh, fun d hd => ?_, fun record hr => h.started record (hnode record hr),
    fun record hr => h.entry record (hnode record hr)⟩
  have hfits := h.fits d hd
  cases d with
  | working transition record phase =>
    exact ⟨hfits.1, hfits.2.1, fun record hr => hfits.2.2 record (hnode record hr)⟩
  | starting | reading | setting | removing => exact hfits

theorem Sound.call (h : Sound none s) (hd : d.Arrives) : Sound (some d) s := by
  refine { h with fits := fun d' hd' => ?_, entry := fun record hr _ => ?_ }
  · cases hd'
    cases d with
    | starting | reading => exact trivial
    | working | setting | removing => exact hd.elim
  · exact h.entry record hr fun _ _ => (some_ne_none _).symm

theorem Sound.returns (h : Sound (some d) s)
    (hd : ∀ transition record phase, d ≠ .setting transition record phase) : Sound none s := by
  refine { h with fits := ?_, entry := fun record hr _ => h.entry record hr ?_ }
  · intro d hd
    cases hd
  · intro record phase heq
    exact hd _ _ _ (some.inj heq)

theorem Sound.starting {status : VmStatus} {releases : Bool}
    (h : Sound (some (.starting status releases)) s) :
    Sound ((Driver.starting status releases).next id x s).1
      ((Driver.starting status releases).next id x s).2 := by
  unfold Driver.next
  dsimp only
  split
  · exact h.returns fun _ _ _ => Driver.noConfusion
  rename_i record _ _
  have hnew : ∀ step ok, .step ⟨s.started, releases⟩ step ok ∉ s.log :=
    fun step ok hmem => lt_irrefl _ (h.fresh _ step ok hmem)
  refine ⟨h.inOrder, fun t step ok hmem => Nat.lt_succ_of_lt (h.fresh t step ok hmem), ?_,
    fun record hr => Nat.lt_succ_of_lt (h.started record hr), fun record hr _ =>
      h.entry record hr fun _ _ heq => Driver.noConfusion (some.inj heq)⟩
  intro d hd
  cases hd
  exact ⟨.first hnew, Nat.lt_succ_self _⟩

theorem Sound.reading (h : Sound (some .reading) s) :
    Sound (Driver.reading.next id x s).1 (Driver.reading.next id x s).2 := by
  unfold Driver.next
  dsimp only
  split
  · next record hr =>
    have hat := h.entry record hr fun _ _ heq => Driver.noConfusion (some.inj heq)
    refine { h with fits := ?_, entry := fun _ _ _ => hat }
    intro d hd
    cases hd
    exact ⟨hat, h.started record hr, fun _ _ _ => rfl⟩
  · exact h.returns fun _ _ _ => Driver.noConfusion

theorem Sound.removing (h : Sound (some .removing) s) :
    Sound (Driver.removing.next id x s).1 (Driver.removing.next id x s).2 := by
  refine ⟨h.inOrder, h.fresh, ?_, ?_, ?_⟩
  · intro d hd
    cases hd
  · intro record hr
    cases hr
  · intro record hr
    cases hr

theorem Sound.working {transition : Transition} {record : VmRecord}
    (h : Sound (some (.working transition record phase)) s) :
    Sound ((Driver.working transition record phase).next id x s).1
      ((Driver.working transition record phase).next id x s).2 := by
  obtain ⟨hat, hstarted, hsame⟩ := h.fits _ rfl
  have hentry : ∀ record', s.node.lifecycle = some (.Terminal record') →
      At s.log s.transition s.phase := fun record' hr =>
    h.entry record' hr fun _ _ heq => Driver.noConfusion (some.inj heq)
  have hlifecycle : (perform x id record phase.step s.node).2.lifecycle = s.node.lifecycle :=
    (perform_keeps record phase.step).lifecycle
  have hfresh : ∀ ok t step ok', .step t step ok' ∈ .step transition phase.step ok :: s.log →
      t.number < s.started := by
    intro ok t step ok' hmem
    rcases mem_cons.mp hmem with heq | hmem
    · rw [(Entry.step.inj heq).1]
      exact hstarted
    · exact h.fresh t step ok' hmem
  -- the entry that was read is still of this phase, and any other is of another transition
  have hkept : ∀ ok record', s.node.lifecycle = some (.Terminal record') →
      phase.step ≠ .release ∨ s.transition ≠ transition →
      At (.step transition phase.step ok :: s.log) s.transition s.phase := by
    intro ok record' hr hcase
    by_cases heq : s.transition = transition
    · have hphase := hsame record' hr heq
      rw [heq, hphase]
      exact hat.cons_self (hcase.resolve_right fun hne => hne heq) ok
    · exact (hentry record' hr).cons_of_ne (.symm heq) _ ok
  unfold Driver.next
  dsimp only
  generalize hperform : perform x id record phase.step s.node = result at hlifecycle
  rcases result with ⟨e | _, node⟩
  · refine ⟨⟨hat.inPlace, h.inOrder⟩, hfresh false, ?_, ?_, ?_⟩
    · intro d hd
      cases hd
    · intro record' hr
      exact h.started record' (hlifecycle ▸ hr)
    · intro record' hr _
      refine hkept false record' (hlifecycle ▸ hr) (.inl fun hrelease => ?_)
      rw [hrelease] at hperform
      cases hperform
  · refine ⟨⟨hat.inPlace, h.inOrder⟩, hfresh true, ?_, ?_, ?_⟩
    · intro d hd
      cases hafter : phase.after with
      | none =>
        rw [hafter] at hd
        cases hd
        exact trivial
      | some phase' =>
        rw [hafter] at hd
        cases hd
        exact ⟨hat.after hafter, hstarted⟩
    · intro record' hr
      exact h.started record' (hlifecycle ▸ hr)
    · intro record' hr hnotSetting
      refine hkept true record' (hlifecycle ▸ hr) ?_
      cases hafter : phase.after with
      | none => exact .inl (TerminalPhase.step_of_last hafter)
      | some phase' =>
        right
        intro heq
        refine hnotSetting record phase' ?_
        rw [hafter, ← heq]

theorem Sound.next (h : Sound (some d) s) : Sound (d.next id x s).1 (d.next id x s).2 := by
  cases d with
  | starting status releases => exact h.starting
  | reading => exact h.reading
  | working transition record phase => exact h.working
  | setting transition record phase =>
    obtain ⟨hat, hstarted⟩ := h.fits _ rfl
    refine ⟨h.inOrder, h.fresh, ?_, fun _ _ => hstarted, fun _ _ _ => hat⟩
    intro d hd
    cases hd
    exact trivial
  | removing => exact h.removing

end Driver

/-! ## Runs -/

/-- A transition is driven by one caller at a time, and the process of the VM does not exit by
itself. -/
def Event.Alone (s : State) : Event → Prop
  | .start _ _ | .resume => s.drivers .worker = none
  | .cancelled => s.drivers .gated = none
  | .exit => False
  | _ => True

def AloneIn (id : Uuid) : State → List Event → Prop
  | _, [] => True
  | s, event :: events =>
    event.Alone s ∧ ∀ s', s.step id event = some s' → AloneIn id s' events

/-- At most one driver is under way, and the state is sound for it. -/
def Inv (s : State) : Prop :=
  ∃ role, (∀ role', role' ≠ role → s.drivers role' = none) ∧ Sound (s.drivers role) s

structure State.Initial (s : State) : Prop where
  lifecycle : ∀ record, s.node.lifecycle ≠ some (.Terminal record)
  drivers : ∀ role, s.drivers role = none
  log : s.log = []

section Runs
variable {s' : State} {event : Event}

theorem State.Initial.inv (h : s.Initial) : Inv s := by
  refine ⟨.gated, fun role _ => h.drivers role, ?_⟩
  rw [h.drivers]
  refine ⟨?_, ?_, ?_, ?_, ?_⟩
  · rw [h.log]
    exact trivial
  · intro transition step ok hmem
    rw [h.log] at hmem
    cases hmem
  · intro d hd
    cases hd
  · exact fun record hr => absurd hr (h.lifecycle record)
  · exact fun record hr => absurd hr (h.lifecycle record)

theorem Inv.node (h : Inv s) {node : Node}
    (hnode : ∀ record, node.lifecycle = some (.Terminal record) →
      s.node.lifecycle = some (.Terminal record)) : Inv { s with node } := by
  obtain ⟨role, hother, hsound⟩ := h
  exact ⟨role, hother, hsound.node hnode⟩

theorem Inv.call (h : Inv s) {role : Role} (hcall : s.call role d = some s')
    (hother : ∀ role', role' ≠ role → s.drivers role' = none) (hd : d.Arrives) : Inv s' := by
  obtain ⟨role', hother', hsound⟩ := h
  unfold State.call at hcall
  split at hcall
  · next hidle =>
    cases hcall
    have hnone : s.drivers role' = none := by
      by_cases heq : role' = role
      · rw [heq]
        exact isNone_iff_eq_none.mp hidle
      · exact hother role' heq
    rw [hnone] at hsound
    refine ⟨role, fun role'' hne => ?_, ?_⟩
    · exact (update_of_ne hne _ _).trans (hother role'' hne)
    · show Sound (update s.drivers role (some d) role) _
      rw [update_self]
      exact (hsound.call hd).drivers _
  · cases hcall

/-- One step of a driver keeps the invariant. -/
theorem Inv.drive (h : Inv s) {role : Role} {x : Conditions} (hd : s.drivers role = some d) :
    Inv { (d.next id x s).2 with
      drivers := update (d.next id x s).2.drivers role (d.next id x s).1 } := by
  obtain ⟨role', hother, hsound⟩ := h
  have hrole : role = role' := by
    by_contra hne
    rw [hother role hne] at hd
    cases hd
  subst hrole
  rw [hd] at hsound
  refine ⟨role, fun role'' hne => ?_, ?_⟩
  · have hsame : (d.next id x s).2.drivers = s.drivers := (d.next_frame s).1
    exact (update_of_ne hne _ _).trans (hsame ▸ hother role'' hne)
  · show Sound (update (d.next id x s).2.drivers role (d.next id x s).1 role) _
    rw [update_self]
    exact hsound.next.drivers _

/-- An event calls a driver or drives one, is an exit, or is a section of another operation. -/
theorem State.step_cases (h : s.step id event = some s') :
    (∃ node, s' = { s with node } ∧ Raises id s.node node ∧ ∀ record,
      node.lifecycle = some (.Terminal record) → s.node.lifecycle = some (.Terminal record)) ∨
    (∃ role d, s.call role d = some s' ∧
      (event.Alone s → ∀ role', role' ≠ role → s.drivers role' = none) ∧ d.Arrives) ∨
    (∃ role x d, s.drivers role = some d ∧ s' = { (d.next id x s).2 with
      drivers := update (d.next id x s).2.drivers role (d.next id x s).1 }) ∨
    (event = .exit ∧ s'.node = s.node) := by
  have hgated : s.drivers .worker = none → ∀ role, role ≠ .gated → s.drivers role = none := by
    intro hnone role hne
    cases role with
    | gated => exact absurd rfl hne
    | worker => exact hnone
  have hworker : s.drivers .gated = none → ∀ role, role ≠ .worker → s.drivers role = none := by
    intro hnone role hne
    cases role with
    | gated => exact hnone
    | worker => exact absurd rfl hne
  have hkeeps : ∀ {node : Node}, Keeps id s.node node → ∀ record,
      node.lifecycle = some (.Terminal record) → s.node.lifecycle = some (.Terminal record) :=
    fun hkeeps record hr => hkeeps.lifecycle.symm.trans hr
  cases event with
  | start status releases | resume => exact .inr (.inl ⟨_, _, h, hgated, trivial⟩)
  | cancelled =>
    simp only [State.step] at h
    split at h
    · cases h
      exact .inl ⟨_, rfl, .refl _, fun _ hr => hr⟩
    · exact .inr (.inl ⟨_, _, h, hworker, trivial⟩)
    · exact .inr (.inl ⟨_, _, h, hworker, trivial⟩)
  | drive role x =>
    simp only [State.step] at h
    split at h
    · cases h
    · next d hd => exact .inr (.inr (.inl ⟨role, x, d, hd, (some.inj h).symm⟩))
  | exit =>
    cases h
    exact .inr (.inr (.inr ⟨rfl, rfl⟩))
  | insert record faults =>
    cases h
    have hnode : Keeps id s.node _ := runStore_keeps s.node faults (insertVm_raises record)
    exact .inl ⟨_, rfl, hnode.toRaises, hkeeps hnode⟩
  | claim record write =>
    cases h
    have hnode : Keeps id s.node (claimLifecycleOwnership write record s.node).2 := by
      unfold claimLifecycleOwnership
      split
      · exact .refl _
      split
      · exact .refl _
      · exact .fleet _
    exact .inl ⟨_, rfl, hnode.toRaises, hkeeps hnode⟩
  | commit record =>
    cases h
    have hnode : Keeps id s.node _ := commitVmRecord_keeps record
    exact .inl ⟨_, rfl, hnode.toRaises, hkeeps hnode⟩
  | enter lifecycle =>
    simp only [State.step] at h
    split at h
    · cases h
    rename_i hnot
    cases h
    refine .inl ⟨_, rfl, ⟨.refl _, .refl _⟩, fun record hr => ?_⟩
    cases hr
    exact absurd rfl hnot
  | erase faults =>
    have hdelete : Keeps id s.node _ := runStore_keeps s.node faults (deleteVm_raises id)
    simp only [State.step] at h
    generalize runStore faults (Store.deleteVm id) s.node = result at hdelete h
    rcases result with ⟨_ | _, node⟩
    · cases h
      exact .inl ⟨_, rfl, hdelete.toRaises, hkeeps hdelete⟩
    · cases h
      refine .inl ⟨_, rfl, ⟨hdelete.store, ?_⟩, fun record => hkeeps hdelete record⟩
      intro r r' _ hr'
      cases hr'

theorem State.step_raises (h : s.step id event = some s') : Raises id s.node s'.node := by
  obtain ⟨node, rfl, hnode, -⟩ | ⟨role, d, hcall, -⟩ | ⟨role, x, d, -, rfl⟩ | ⟨-, hnode⟩ :=
    State.step_cases h
  · exact hnode
  · unfold State.call at hcall
    split at hcall
    · cases hcall
      exact .refl _
    · cases hcall
  · exact (d.next_frame s).2
  · rw [hnode]
    exact .refl _

/-- The step lemma of the terminal transition. -/
theorem Inv.step (h : Inv s) (halone : event.Alone s) (hstep : s.step id event = some s') :
    Inv s' := by
  obtain ⟨node, rfl, -, hnode⟩ | ⟨role, d, hcall, hother, hd⟩ | ⟨role, x, d, hd, rfl⟩ | ⟨rfl, -⟩ :=
    State.step_cases hstep
  · exact h.node hnode
  · exact h.call hcall (hother halone) hd
  · exact h.drive hd
  · exact halone.elim

/-- By induction over the events, from `Inv.step`. -/
theorem Inv.run {events : List Event} (h : Inv s) (halone : AloneIn id s events)
    (hrun : run id s events = some s') : Inv s' := by
  induction events generalizing s with
  | nil =>
    cases hrun
    exact h
  | cons event events ih =>
    obtain ⟨next, hnext, hrest⟩ := bind_eq_some_iff.mp hrun
    exact ih (h.step halone.1 hnext) (halone.2 next hnext) hrest

end Runs

/-! ## Results -/

/-- In every run in which a transition is driven by one caller at a time and no process exits by
itself, whatever fails and however often it is resumed, every step of a terminal transition comes
after the steps before it have succeeded and after no later one; so the reservation is released at
most once by it, once the record is persisted and the ownership cleared. And no event lowers the
revision of the stored or of the cached record. -/
theorem terminal_transition_in_order {id : Uuid} {s s' : State} {events : List Event}
    (hinitial : s.Initial) (halone : AloneIn id s events) (hrun : run id s events = some s') :
    InOrder s'.log ∧ ∀ event s'', s'.step id event = some s'' →
      NotLower (s'.node.store.vms.find? id) (s''.node.store.vms.find? id) ∧
      NotLower s'.node.cache s''.node.cache := by
  obtain ⟨role, -, hsound⟩ := hinitial.inv.run halone hrun
  refine ⟨hsound.inOrder, fun event s'' hstep => ?_⟩
  have hraises := State.step_raises hstep
  exact ⟨hraises.store, hraises.cache⟩

section Example

def created : VmRecord where
  id := 1
  host_id := "a"
  owner_key := none
  api_key_id := none
  status := .Creating
  revision := 1
  startup_path := none
  memory_mib := 128
  vcpus := 1
  kernel_path := "k"
  rootfs_path := none
  rootfs_read_only := false
  cmdline := ""
  runtime_layout := none
  socket_path := none
  pid := none
  created_at := 0
  updated_at := 0

def creating : State where
  node := ⟨fun _ => none, ⟨∅, ∅, ∅⟩, some created, some (.Creating created)⟩
  transition := ⟨0, true⟩
  phase := .Complete
  reserved := true
  drivers := fun _ => none
  started := 0
  log := []

def calm : Conditions := ⟨5, [], .works, [], 0, none, none⟩

def sections (role : Role) (n : Nat) : List Event := replicate n (.drive role calm)

/-- The worker has read the first phase when the reconciler resumes the transition. -/
def overlapping : List Event :=
  .cancelled :: sections .worker 3 ++ .resume :: sections .gated 15 ++ sections .worker 10

end Example

/-- The worker of a cancelled create and the reconciler both drive the transition: the ownership is
cleared, the cache written and the reservation released once more after the cleanup. And when the
process of a VM exits, its reservation is released before any record is persisted. -/
theorem transition_driven_twice :
    ((run 1 creating overlapping).map fun s => s.log.reverse) = some
      ([.persist, .clear, .cache, .release, .cleanUp, .persist, .clear, .cache, .release].map
        fun step => .step ⟨0, true⟩ step true) ∧
    (∀ s, run 1 creating overlapping = some s → ¬ InOrder s.log) ∧
    ((run 1 creating [.exit]).map fun s => (s.reserved, s.log)) = some (false, [.watcher]) := by
  have hlog : ((run 1 creating overlapping).map fun s => s.log.reverse) = some
      ([.persist, .clear, .cache, .release, .cleanUp, .persist, .clear, .cache, .release].map
        fun step => .step ⟨0, true⟩ step true) := by rfl
  refine ⟨hlog, fun s hs hinOrder => ?_, by rfl⟩
  rw [hs] at hlog
  have hs' : s.log = _ := reverse_eq_iff.mp (some.inj hlog)
  rw [hs'] at hinOrder
  exact absurd (hinOrder.1.2.2 rfl true) (by decide)

theorem transition_of_one_worker :
    ∃ s, run 1 creating (.cancelled :: sections .worker 17) = some s ∧ InOrder s.log ∧
      s.reserved = false ∧ s.log.length = 5 := by
  have hrun : (run 1 creating (.cancelled :: sections .worker 17)).isSome := by rfl
  obtain ⟨s, hs⟩ := isSome_iff_exists.mp hrun
  have hends : ((run 1 creating (.cancelled :: sections .worker 17)).map fun s =>
      (s.reserved, s.log.length)) = some (false, 5) := by rfl
  rw [hs] at hends
  have hinitial : creating.Initial := by
    refine ⟨fun record h => ?_, fun _ => rfl, rfl⟩
    cases h
  have halone : AloneIn 1 creating (.cancelled :: sections .worker 17) :=
    ⟨rfl, fun s' hs' => by cases hs'; simp [AloneIn, sections, Event.Alone, replicate]⟩
  refine ⟨s, hs, (terminal_transition_in_order hinitial halone hs).1, ?_, ?_⟩
  · exact congrArg Prod.fst (some.inj hends)
  · exact congrArg Prod.snd (some.inj hends)

end Tarit.Node.Terminal
