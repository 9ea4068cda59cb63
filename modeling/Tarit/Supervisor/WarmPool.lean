import Tarit.Node.Records

/-!
# Claims of warm VMs

A create that asks for the configuration of a parked warm VM claims it: under the shared boot gate
it selects one that nobody claims, binds its own task to the id of the VM, registers the VM for the
user and moves the runtime to `running`. Reclaims, stops and the watcher of processes take a warm VM
out only under the exclusive gate, so no claim loses its VM.

If the registration fails, it is rolled back, and the VM is to stay parked. The rollback deletes the
row of the store, and a row that was never written cannot be deleted: then the rollback fails as
well, and the VM is moved to `running` with an abandoned registration.
-/
namespace Tarit.Supervisor.Warm

open Fleet Node Function

/-! ## State -/

inductive LifecycleState where
  | Creating | Publishing | Running | Abandoned | Terminal
  deriving DecidableEq

inductive RecordStatus where
  | Creating | Running | Stopped
  deriving DecidableEq

/-- What users can see of a VM. -/
structure Registration where
  lifecycle : Option LifecycleState
  cache : Option RecordStatus
  store : Option RecordStatus
  fleet : Bool
  deriving DecidableEq

/-- No lifecycle and no owner, and no record but that of a stopped VM. -/
def Registration.withdrawn (r : Registration) : Bool :=
  r.lifecycle.isNone && !r.fleet && r.cache.all (· == .Stopped) && r.store.all (· == .Stopped)

structure WarmVm (Config : Type) where
  id : Uuid
  spec : Config

inductive PublicationPhase where
  | NeedFleetUpdate | FleetUpdated | SQLitePersisted | CacheVisible
  deriving DecidableEq

/-- How far a claim got: its VM was not transferred, or it was but not published, or published. -/
inductive Ending where
  | unclaimed | retained | published
  deriving DecidableEq

inductive Pc (Config : Type) where
  | waiting
  | selecting
  | binding (vm : Uuid)
  /-- `register_creating_record`: the lifecycle entry with the cache, the store, the fleet. -/
  | creating (vm : Uuid)
  | persisting (vm : Uuid)
  | claiming (vm : Uuid)
  /-- Its rollback: the fleet, then the store with the cache and the entry. -/
  | clearing (vm : Uuid)
  | deleting (vm : Uuid)
  /-- `abandon_lifecycle`, and its runtime on the way to `running`. -/
  | abandoning (vm : Uuid)
  | moving (vm : WarmVm Config)
  | registered (vm : Uuid)
  | transferring (vm : Uuid)
  | inserting (vm : WarmVm Config)
  | publishing (vm : WarmVm Config) (phase : PublicationPhase)
  /-- The claim and the gate are still held. -/
  | dropping (vm : Uuid) (how : Ending)
  | dropped (vm : Uuid) (how : Ending)
  /-- `finish_cancelled_lifecycle`: `stop_vm`, its teardown, the terminal transition. -/
  | stopping (vm : Uuid) (how : Ending)
  | stoppingWarm (vm : Uuid) (how : Ending)
  | tearing (vm : Uuid) (wasRunning : Bool) (how : Ending)
  | withdrawing (vm : Uuid) (how : Ending)
  | ended (vm : Uuid) (how : Ending)
  /-- Without a VM: no warm VM matched, or the create is answered with an error. -/
  | noMatch
  | refused

/-- A create in progress; `key` is the id that `owned_tasks` has its task under. -/
structure Create (Config : Type) where
  key : Uuid
  want : Config
  cancelled : Bool
  pc : Pc Config

structure Publication (Config : Type) where
  vm : WarmVm Config
  task : Nat
  want : Config

/-- `claims` and `owned` have the task of each id. Of the rest that no code reads, `started` has the
tasks and `used` the ids that were parked, `published` has the VMs that creates published, and
`unclaimed` the VMs of claims that ended before the transfer, with whether they were left as they
should. -/
structure Pool (Config : Type) where
  warm : List (WarmVm Config)
  running : Uuid → Bool
  /-- Taken out of `warm` by `stop_all`, and out of `running` by it or a stop, until their teardown
  ends. -/
  drained : List (WarmVm Config)
  torn : Uuid → Bool
  claims : Uuid → Option Nat
  owned : Uuid → Option Nat
  /-- The creates that hold the boot gate. -/
  readers : List Nat
  shuttingDown : Bool
  /-- `stop_all` has had the exclusive gate. -/
  stopping : Bool
  registrations : Uuid → Registration
  creates : Nat → Option (Create Config)
  started : Nat → Bool
  used : Uuid → Bool
  published : List (Publication Config)
  unclaimed : List (Uuid × Bool)

def Pool.start (Config : Type) (registrations : Uuid → Registration) : Pool Config :=
  { warm := [], running := fun _ => false, drained := [], torn := fun _ => false,
    claims := fun _ => none, owned := fun _ => none, readers := [], shuttingDown := false,
    stopping := false, registrations, creates := fun _ => none, started := fun _ => false,
    used := fun _ => false, published := [], unclaimed := [] }

/-! ## Sections -/

variable {Config : Type}

def Pool.parked (s : Pool Config) (vm : Uuid) : Bool := s.warm.any fun w => w.id == vm

def Pool.unpark (s : Pool Config) (vm : Uuid) : Pool Config :=
  { s with warm := s.warm.eraseP fun w => w.id == vm }

def Pool.setRunning (s : Pool Config) (vm : Uuid) (present : Bool) : Pool Config :=
  { s with running := update s.running vm present }

def Pool.register (s : Pool Config) (vm : Uuid) (f : Registration → Registration) : Pool Config :=
  { s with registrations := update s.registrations vm (f (s.registrations vm)) }

def Pool.drop (s : Pool Config) (task : Nat) (vm : Uuid) : Pool Config :=
  { s with claims := update s.claims vm none, readers := s.readers.erase task }

def Pool.finish (s : Pool Config) (task : Nat) : Pool Config :=
  { s with owned := fun id => (s.owned id).filter (· ≠ task) }

/-- The VM is parked and a later create can claim it, or it is gone and so is its registration. -/
def Pool.isLeft (s : Pool Config) (task : Nat) (vm : Uuid) : Bool :=
  s.parked vm && s.claims vm == none && s.owned vm != some task ||
    !s.parked vm && !s.running vm && (s.registrations vm).withdrawn

/-- The claim of `task` on the VM ended before the transfer. -/
def Pool.leave (s : Pool Config) (task : Nat) (vm : Uuid) : Pool Config :=
  { s with unclaimed := (vm, s.isLeft task vm) :: s.unclaimed }

/-- `publish_running_record`, up to the next phase. -/
def publishPhase : PublicationPhase → Registration → Registration
  | .NeedFleetUpdate, r => { r with lifecycle := some .Publishing, fleet := true }
  | .FleetUpdated, r => { r with store := some .Running }
  | _, r => { r with cache := some .Running }

/-- The next section of the create of `task`. `write` says what becomes of a write to the fleet or
the store, and `ok` whether a teardown or a terminal transition succeeds, and after `NoMatch`
whether a warm VM was restored for another attempt. -/
def Create.next [DecidableEq Config] (c : Create Config) (task : Nat) (write : Write) (ok : Bool)
    (s : Pool Config) : Option (Option (Create Config) × Pool Config) :=
  let goto (pc : Pc Config) (s : Pool Config) := some (some { c with pc }, s)
  match c.pc with
  | .waiting =>
    if s.shuttingDown || c.cancelled then goto .noMatch s
    else goto .selecting { s with readers := task :: s.readers }
  | .selecting =>
    match s.warm.find? fun w =>
      w.spec = c.want && (s.claims w.id).isNone && (s.owned w.id).isNone with
    | none => goto .noMatch { s with readers := s.readers.erase task }
    | some w =>
      goto (.binding w.id) { s with claims := update s.claims w.id (some task) }
  | .binding vm =>
    if c.key = vm then goto (.creating vm) s
    else if (s.owned vm).isSome then goto .refused ((s.drop task vm).leave task vm)
    else some (some { c with key := vm, pc := .creating vm },
      { s with owned := update (update s.owned c.key none) vm (some task) })
  | .creating vm =>
    goto (.persisting vm)
      (s.register vm fun r => { r with lifecycle := some .Creating, cache := some .Creating })
  | .persisting vm =>
    match write with
    | .works => goto (.claiming vm) (s.register vm fun r => { r with store := some .Creating })
    | .fails => goto (.clearing vm) s
    | .unacknowledged =>
      goto (.clearing vm) (s.register vm fun r => { r with store := some .Creating })
  | .claiming vm =>
    match write with
    | .works => goto (.registered vm) (s.register vm fun r => { r with fleet := true })
    | .fails => goto (.clearing vm) s
    | .unacknowledged => goto (.clearing vm) (s.register vm fun r => { r with fleet := true })
  | .clearing vm =>
    match write with
    | .works => goto (.deleting vm) (s.register vm fun r => { r with fleet := false })
    | .fails => goto (.abandoning vm) s
    | .unacknowledged => goto (.abandoning vm) (s.register vm fun r => { r with fleet := false })
  | .deleting vm =>
    -- `delete_vm` answers NotFound if there is no row
    match write, (s.registrations vm).store with
    | .works, some _ =>
      goto (.dropping vm .unclaimed)
        (s.register vm fun r => { r with lifecycle := none, cache := none, store := none })
    | .unacknowledged, _ => goto (.abandoning vm) (s.register vm fun r => { r with store := none })
    | _, _ => goto (.abandoning vm) s
  | .abandoning vm =>
    let s := s.register vm fun r => { r with lifecycle := r.lifecycle.map fun _ => .Abandoned }
    match s.warm.find? fun w => w.id == vm with
    | some w => goto (.moving w) (s.unpark vm)
    | none => goto (.dropping vm .unclaimed) s
  | .moving w =>
    if s.running w.id then goto (.dropping w.id .unclaimed) { s with warm := s.warm ++ [w] }
    else goto (.dropping w.id .unclaimed) (s.setRunning w.id true)
  | .registered vm =>
    if c.cancelled then goto (.dropping vm .unclaimed) s else goto (.transferring vm) s
  | .transferring vm =>
    match s.warm.find? fun w => w.id == vm with
    | some w => goto (.inserting w) (s.unpark vm)
    | none => goto (.dropping vm .unclaimed) s
  | .inserting w => goto (.publishing w .NeedFleetUpdate) (s.setRunning w.id true)
  | .publishing w .CacheVisible =>
    if c.cancelled then goto (.dropping w.id .retained) s
    else goto (.dropping w.id .published) { s with published := ⟨w, task, c.want⟩ :: s.published }
  | .publishing w phase =>
    match write with
    | .works =>
      let next := match phase with
        | .NeedFleetUpdate => .FleetUpdated
        | .FleetUpdated => .SQLitePersisted
        | _ => .CacheVisible
      goto (.publishing w next) (s.register w.id (publishPhase phase))
    | .fails => goto (.dropping w.id .retained) s
    | .unacknowledged => goto (.dropping w.id .retained) (s.register w.id (publishPhase phase))
  | .dropping vm how => goto (.dropped vm how) (s.drop task vm)
  | .dropped vm how =>
    if c.cancelled then goto (.stopping vm how) s
    else if how = .published then
      goto (.ended vm how) (s.register vm fun r => { r with lifecycle := some .Running })
    else goto (.ended vm how) s
  | .stopping vm how =>
    -- `stop_vm` looks into `running` and into `warm` under the exclusive gate
    if !s.readers.isEmpty then none
    else if s.running vm then goto (.tearing vm true how) (s.setRunning vm false)
    else goto (.stoppingWarm vm how) s
  | .stoppingWarm vm how =>
    -- then the teardown of the warm VM or, without one, the cleanup by id
    if !s.readers.isEmpty then none else goto (.tearing vm false how) (s.unpark vm)
  | .tearing vm wasRunning how =>
    if ok then goto (.withdrawing vm how) s
    else if wasRunning then goto (.ended vm how) (s.setRunning vm true)
    else goto (.ended vm how) s
  | .withdrawing vm how =>
    if (s.registrations vm).lifecycle.isNone then goto (.ended vm how) s
    else if ok then
      goto (.ended vm how) (s.register vm fun _ => ⟨none, some .Stopped, some .Stopped, false⟩)
    else goto (.ended vm how) (s.register vm fun r => { r with lifecycle := some .Terminal })
  | .ended vm how =>
    if how = .unclaimed then some (none, (s.finish task).leave task vm)
    else some (none, s.finish task)
  | .noMatch => if ok && !c.cancelled then goto .waiting s else goto .refused s
  | .refused => some (none, s.finish task)

inductive Event (Config : Type) where
  /-- `publish_warm` for the task of a restore, and the end of that task. -/
  | park (id : Uuid) (spec : Config) (task : Nat)
  | restored (task : Nat)
  /-- `begin_owned_task` of a create. -/
  | create (task : Nat) (id : Uuid) (want : Config)
  | cancel (task : Nat)
  | advance (task : Nat) (write : Write) (ok : Bool)
  | reclaim (id : Uuid)
  /-- The two sections of `stop_vm`; an unexpected exit takes out a VM in the same way. -/
  | stopRunning (id : Uuid)
  | stopWarm (id : Uuid)
  /-- A teardown ends, and a failed one leaves the VM registered. -/
  | tornDown (id : Uuid) (ok : Bool)
  | beginShutdown
  /-- The first section of `stop_all`, the one that takes all VMs, and the end of the teardown of
  one of the warm ones. -/
  | stopAll
  | drain
  | drainedDown (id : Uuid) (ok : Bool)

def Pool.step [DecidableEq Config] (s : Pool Config) : Event Config → Option (Pool Config)
  | .park id spec task =>
    if !s.used id && (s.owned id).isNone && !s.started task && !s.shuttingDown then
      some { s with
        warm := s.warm ++ [⟨id, spec⟩], owned := update s.owned id (some task)
        started := update s.started task true, used := update s.used id true }
    else none
  | .restored task => if (s.creates task).isNone then some (s.finish task) else none
  | .create task id want =>
    if !s.shuttingDown && (s.owned id).isNone && !s.started task then
      some { s with
        owned := update s.owned id (some task)
        started := update s.started task true
        creates := update s.creates task (some ⟨id, want, false, .waiting⟩) }
    else none
  | .cancel task =>
    (s.creates task).map fun c =>
      { s with creates := update s.creates task (some { c with cancelled := true }) }
  | .advance task write ok =>
    match s.creates task with
    | none => none
    | some c => (c.next task write ok s).map fun (c', s') =>
      { s' with creates := update s'.creates task c' }
  | .reclaim id =>
    if s.readers.isEmpty && !s.shuttingDown && (s.claims id).isNone && (s.owned id).isNone then
      some (s.unpark id)
    else none
  | .stopRunning id =>
    if s.readers.isEmpty && s.running id then
      some { s.setRunning id false with torn := update s.torn id true }
    else none
  | .stopWarm id => if s.readers.isEmpty then some (s.unpark id) else none
  | .tornDown id ok =>
    if s.torn id then
      let s := { s with torn := update s.torn id false }
      some (if ok then s else s.setRunning id true)
    else none
  | .beginShutdown => some { s with shuttingDown := true }
  | .stopAll =>
    if s.readers.isEmpty then some { s with shuttingDown := true, stopping := true } else none
  | .drain =>
    if s.stopping then
      some { s with
        warm := [], drained := s.drained ++ s.warm, running := fun _ => false
        torn := fun id => s.torn id || s.running id }
    else none
  | .drainedDown id ok =>
    match s.drained.find? fun w => w.id == id with
    | none => none
    | some w =>
      let s := { s with drained := s.drained.eraseP fun w => w.id == id }
      some (if ok then s else { s with warm := s.warm ++ [w] })

def run [DecidableEq Config] : Pool Config → List (Event Config) → Option (Pool Config)
  | s, [] => some s
  | s, event :: events => (s.step event).bind fun s' => run s' events

end Tarit.Supervisor.Warm
