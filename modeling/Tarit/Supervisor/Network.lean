import Tarit.Fleet.Records
import Mathlib.Data.List.Sort

/-!
# Network allocations, leases and teardowns

A VM's tap and rules belong to a slot of the provisioner. Share connections hold leases on them, and
a stop that finds leases leaves its teardown in the lease record of the VM, for the last release to
run. A teardown names the tap after the slot and the rules after slot and VM.

A stop that finds no runtime tears down by the id of the VM, and it does not look at the leases; a
stop that fails after its network part keeps the runtime with an allocation that is no longer its
own; and a wake provisions the slot of a VM whose old teardown is still to come.
-/
namespace Tarit.Supervisor.Network

open Fleet Function List Option

/-! ## The provisioner -/

/-- `number` tells the provisionings apart; no code reads it. -/
structure NetAlloc where
  vm : Uuid
  idx : Nat
  number : Nat
  deriving DecidableEq

/-- The provisioning that put up a tap or rules. -/
structure Provision where
  vm : Uuid
  number : Nat
  deriving DecidableEq

/-- The allocator, and the taps and rules of each slot on the host. -/
structure Host where
  free : List Nat
  bySlot : Nat → Option Uuid
  byVm : Uuid → Option Nat
  taps : Nat → Option Provision
  rules : Nat → Option Provision

def Host.start (slots : Nat) : Host :=
  ⟨List.range slots, fun _ => none, fun _ => none, fun _ => none, fun _ => none⟩

/-- A freed slot goes back to the ordered set of free ones. -/
def putFree (slot : Nat) (free : List Nat) : List Nat :=
  if slot ∈ free then free else free.orderedInsert (· ≤ ·) slot

def Host.allocate (h : Host) (vm : Uuid) : Option (Nat × Host) :=
  match h.byVm vm with
  | some slot => some (slot, h)
  | none =>
    match h.free with
    | [] => none
    | slot :: free => some (slot, { h with
        free, bySlot := update h.bySlot slot (some vm)
        byVm := update h.byVm vm (some slot) })

def Host.release (h : Host) (a : NetAlloc) : Host :=
  match h.byVm a.vm with
  | some slot => { h with
      free := putFree slot h.free, bySlot := update h.bySlot slot none
      byVm := update h.byVm a.vm none }
  | none =>
    match h.bySlot a.idx with
    | some owner =>
      if owner = a.vm then
        { h with free := putFree a.idx h.free, bySlot := update h.bySlot a.idx none }
      else h
    | none => { h with free := putFree a.idx h.free }

/-- How far a removal gets before a command or a file write fails. -/
inductive Progress where
  | untouched | tap | someRules | rules | done
  deriving DecidableEq

/-- The tap of the slot is deleted by its name, and of its rules those that `which` selects; with
what was removed. -/
def Host.clear (h : Host) (idx : Nat) (which : Provision → Bool) : Progress → Host × List Provision
  | .untouched => (h, [])
  | .tap => ({ h with taps := update h.taps idx none }, (h.taps idx).toList)
  | .someRules =>
    ({ h with taps := update h.taps idx none },
      (h.taps idx).toList ++ ((h.rules idx).filter which).toList)
  | .rules | .done =>
    ({ h with
        taps := update h.taps idx none
        rules := update h.rules idx ((h.rules idx).filter fun p => !which p) },
      (h.taps idx).toList ++ ((h.rules idx).filter which).toList)

/-- `teardown_locked`: the slot is freed once the tap and the rules tagged with the slot and the VM
are gone. -/
def Host.teardown (h : Host) (a : NetAlloc) (progress : Progress) : Host × List Provision :=
  let cleared := h.clear a.idx (fun p => p.vm = a.vm) progress
  if progress = .done then (cleared.1.release a, cleared.2) else cleared

/-- What becomes of a provisioning: the new slot is not persisted, the slot cannot be prepared, the
host refuses something after the tap or the rules are up, or all works. -/
inductive Provisioning where
  | unpersisted
  | unprepared (progress : Progress)
  | failed (tap rules : Bool) (contained : Progress)
  | works
  deriving DecidableEq

def Host.putUp (h : Host) (idx : Nat) (tap rules : Bool) (p : Provision) : Host :=
  { h with
    taps := if tap then update h.taps idx (some p) else h.taps
    rules := if rules then update h.rules idx (some p) else h.rules }

/-- `provision_locked`. Whatever is on the slot is removed first. -/
def Host.provision (h : Host) (vm : Uuid) (number : Nat) (outcome : Provisioning) :
    Host × List Provision × Option NetAlloc :=
  match h.allocate vm with
  | none => (h, [], none)
  | some (idx, h) =>
    match outcome with
    | .unpersisted => (h, [], none)
    | .unprepared progress =>
      let prepared := h.clear idx (fun _ => true) progress
      (prepared.1, prepared.2, none)
    | .failed tap rules contained =>
      let prepared := h.clear idx (fun _ => true) .done
      let failed := (prepared.1.putUp idx tap rules ⟨vm, number⟩).clear idx
        (fun _ => true) contained
      (failed.1, prepared.2 ++ failed.2, none)
    | .works =>
      let prepared := h.clear idx (fun _ => true) .done
      (prepared.1.putUp idx true true ⟨vm, number⟩, prepared.2, some ⟨vm, idx, number⟩)

/-! ## Leases and operations -/

structure NetworkLeaseState where
  active : Nat
  pendingTeardown : Option NetAlloc
  teardownInProgress : Bool
  deriving DecidableEq

def NetworkLeaseState.acquire (r : NetworkLeaseState) : NetworkLeaseState :=
  { r with active := r.active + 1 }

def NetworkLeaseState.deferTeardown (r : NetworkLeaseState) (a : NetAlloc) :
    NetworkLeaseState × Option NetAlloc :=
  if r.active = 0 then (r, some a) else ({ r with pendingTeardown := some a }, none)

def NetworkLeaseState.release (r : NetworkLeaseState) : NetworkLeaseState × Option NetAlloc :=
  if r.active - 1 ≠ 0 then ({ r with active := r.active - 1 }, none)
  else (⟨0, none, r.pendingTeardown.isSome⟩, r.pendingTeardown)

/-- A record without leases goes unless its teardown is in progress. -/
def NetworkLeaseState.keep (r : NetworkLeaseState) : Option NetworkLeaseState :=
  if r.active = 0 ∧ r.teardownInProgress = false then none else some r

/-- An operation between two of its sections. -/
inductive Op where
  /-- `stop_vm` after it found nothing in `running`; `before` is the number of the next
  provisioning when it began. -/
  | lookingWarm (before : Nat)
  /-- A teardown by id, of `stop_vm` or of a boot. -/
  | byId (before : Nat)
  /-- `teardown_vm` with the runtime it took, before it asks the lease record, before it tears the
  network down, and after that; `kept` says whether a failure puts the runtime back. -/
  | deferring (a : NetAlloc) (kept : Bool)
  | tearing (a : NetAlloc) (kept : Bool)
  | puttingBack (a : NetAlloc)
  | finishing (a : NetAlloc) (kept : Bool)
  /-- The release of a last lease, before and after the teardown that was left to it. -/
  | deferred (a : NetAlloc)
  | completing
  /-- A boot or a wake after its provisioning. -/
  | booted (a : NetAlloc)
  deriving DecidableEq

/-- The network of one VM in the supervisor. `leases` has the provisioning of each lease that is
held. -/
structure VmNet where
  running : Option NetAlloc
  warm : Option NetAlloc
  record : Option NetworkLeaseState
  leases : List Nat
  ops : List Op

def VmNet.start : VmNet := ⟨none, none, none, [], []⟩

/-- What a section removed, and for which VM; a teardown is to remove what was provisioned before
`before`. -/
structure Removed where
  what : Provision
  vm : Uuid
  teardown : Bool
  before : Nat
  deriving DecidableEq

def removals (vm : Uuid) (teardown : Bool) (before : Nat) (what : List Provision) : List Removed :=
  what.map fun p => ⟨p, vm, teardown, before⟩

inductive Event where
  /-- Of a boot or a wake. -/
  | provision (outcome : Provisioning)
  | publish (a : NetAlloc) (warm : Bool)
  | abort (a : NetAlloc)
  /-- A boot or a recovery cleans up by id. -/
  | cleanup
  /-- A warm claim. -/
  | claim
  | acquire
  | release (number : Nat)
  /-- `stop_vm`, of a delete, a hibernation or a retry. -/
  | stop
  | advance (op : Op) (progress : Progress) (ok : Bool)
  deriving DecidableEq

/-- The next section of an operation; `ok` says whether the part of a stop outside the network
succeeds. -/
def VmNet.advance (v : VmNet) (vm : Uuid) (h : Host) (progress : Progress) (ok : Bool) :
    Op → VmNet × Host × List Removed
  | .lookingWarm before =>
    match v.warm with
    | some a => ({ v with warm := none, ops := .deferring a false :: v.ops }, h, [])
    | none => ({ v with ops := .byId before :: v.ops }, h, [])
  | .byId before =>
    -- the slot is looked up in the same transaction
    match h.byVm vm with
    | none => (v, h, [])
    | some idx =>
      let torn := h.teardown ⟨vm, idx, before⟩ progress
      (v, torn.1, removals vm true before torn.2)
  | .deferring a kept =>
    match v.record with
    | none => ({ v with ops := .tearing a kept :: v.ops }, h, [])
    | some r =>
      match r.deferTeardown a with
      | (r, some a) => ({ v with record := r.keep, ops := .tearing a kept :: v.ops }, h, [])
      | (r, none) => ({ v with record := r.keep, ops := .finishing a kept :: v.ops }, h, [])
  | .tearing a kept =>
    let torn := h.teardown a progress
    let next := if progress = .done then [Op.finishing a kept]
      else if kept then [Op.puttingBack a] else []
    ({ v with ops := next ++ v.ops }, torn.1, removals vm true (a.number + 1) torn.2)
  | .puttingBack a => ({ v with running := some a }, h, [])
  | .finishing a kept => if kept && !ok then ({ v with running := some a }, h, []) else (v, h, [])
  | .deferred a =>
    let torn := h.teardown a progress
    let next := if progress = .done then [Op.completing] else []
    ({ v with ops := next ++ v.ops }, torn.1, removals vm true (a.number + 1) torn.2)
  | .completing =>
    ({ v with record := v.record.bind fun r =>
        let r := { r with teardownInProgress := false }
        if r.active = 0 then none else some r }, h, [])
  | .booted a => ({ v with ops := .booted a :: v.ops }, h, [])

/-- One section on the network of `vm`; `next` is the number of the next provisioning. -/
def VmNet.step (v : VmNet) (vm : Uuid) (h : Host) (next : Nat) :
    Event → Option (VmNet × Host × List Removed)
  | .provision outcome =>
    let made := h.provision vm next outcome
    some ({ v with ops := (made.2.2.map Op.booted).toList ++ v.ops }, made.1,
      removals vm false next made.2.1)
  | .publish a warm =>
    if .booted a ∈ v.ops then
      let v := { v with ops := v.ops.erase (.booted a) }
      some (if warm then { v with warm := some a } else { v with running := some a }, h, [])
    else none
  | .abort a =>
    if .booted a ∈ v.ops then
      some ({ v with ops := .deferring a false :: v.ops.erase (.booted a) }, h, [])
    else none
  | .cleanup => some ({ v with ops := .byId next :: v.ops }, h, [])
  | .claim => v.warm.map fun a => ({ v with warm := none, running := some a }, h, [])
  | .acquire => v.running.map fun a =>
    ({ v with
        record := some (v.record.getD ⟨0, none, false⟩).acquire, leases := a.number :: v.leases },
      h, [])
  | .release number =>
    if number ∈ v.leases then
      let v := { v with leases := v.leases.erase number }
      match v.record with
      | none => some (v, h, [])
      | some r =>
        let released := r.release
        some ({ v with
            record := released.1.keep, ops := (released.2.map Op.deferred).toList ++ v.ops }, h, [])
    else none
  | .stop =>
    match v.running with
    | some a => some ({ v with running := none, ops := .deferring a true :: v.ops }, h, [])
    | none => some ({ v with ops := .lookingWarm next :: v.ops }, h, [])
  | .advance op progress ok =>
    if op ∈ v.ops then some ({ v with ops := v.ops.erase op }.advance vm h progress ok op) else none

/-! ## The host -/

/-- A removal, with whether a lease on what it removed was held. -/
structure Removal extends Removed where
  leased : Bool
  deriving DecidableEq

structure State where
  host : Host
  vms : Uuid → VmNet
  next : Nat
  removed : List Removal

def State.start (slots : Nat) : State := ⟨Host.start slots, fun _ => .start, 0, []⟩

def State.leased (s : State) (p : Provision) : Bool := decide (p.number ∈ (s.vms p.vm).leases)

def Event.nextNumber (next : Nat) : Event → Nat
  | .provision _ => next + 1
  | _ => next

def State.step (s : State) (vm : Uuid) (event : Event) : Option State :=
  ((s.vms vm).step vm s.host s.next event).map fun (v, host, removed) =>
    { host, vms := update s.vms vm v, next := event.nextNumber s.next
      removed := (removed.map fun r => ⟨r, s.leased r.what⟩) ++ s.removed }

def run : State → List (Uuid × Event) → Option State
  | s, [] => some s
  | s, (vm, event) :: events => (s.step vm event).bind fun s' => run s' events

/-! ## Slots -/

/-- The tap or rules of the slot that the VM has are of this provisioning. -/
def Host.Up (h : Host) (vm : Uuid) (p : Provision) : Prop :=
  ∃ idx, h.byVm vm = some idx ∧ (h.taps idx = some p ∨ h.rules idx = some p)

/-- Slots are owned by one VM, and what is up in a slot is of its owner. -/
structure HostInv (h : Host) (next : Nat) : Prop where
  slots : ∀ vm idx, h.byVm vm = some idx ↔ h.bySlot idx = some vm
  free : ∀ idx ∈ h.free, h.bySlot idx = none
  nodup : h.free.Nodup
  up : ∀ idx p, h.taps idx = some p ∨ h.rules idx = some p →
    h.bySlot idx = some p.vm ∧ p.number < next

/-- What a section leaves of the network of a VM. -/
structure Keeps (h h' : Host) (vm : Uuid) : Prop where
  byVm : h'.byVm vm = h.byVm vm
  up : ∀ p, h'.Up vm p → h.Up vm p

section Slots

variable {h h' : Host} {next : Nat} {vm other : Uuid} {idx : Nat} {p : Provision}
  {which : Provision → Bool} {progress : Progress}

theorem Keeps.refl : Keeps h h vm := ⟨rfl, fun _ hp => hp⟩

theorem Keeps.trans {h'' : Host} (hk : Keeps h h' vm) (hk' : Keeps h' h'' vm) : Keeps h h'' vm :=
  ⟨hk'.byVm.trans hk.byVm, fun p hp => hk.up p (hk'.up p hp)⟩

theorem HostInv.up_vm (hi : HostInv h next) (hp : h.Up vm p) : p.vm = vm ∧ p.number < next := by
  obtain ⟨idx, hidx, hp⟩ := hp
  obtain ⟨hslot, hnumber⟩ := hi.up idx p hp
  rw [(hi.slots vm idx).mp hidx] at hslot
  exact ⟨(some.inj hslot).symm, hnumber⟩

theorem HostInv.start (slots : Nat) : HostInv (Host.start slots) 0 := by
  refine ⟨fun vm idx => ?_, fun _ _ => rfl, nodup_range, fun idx p hp => ?_⟩
  · constructor <;> exact nofun
  · rcases hp with hp | hp <;> cases hp

/-- `clear` changes one slot, and only takes from it. -/
structure Clears (h : Host) (idx : Nat) (made : Host × List Provision) : Prop where
  allocator : made.1.free = h.free ∧ made.1.bySlot = h.bySlot ∧ made.1.byVm = h.byVm
  apart : ∀ slot, slot ≠ idx → made.1.taps slot = h.taps slot ∧ made.1.rules slot = h.rules slot
  left : ∀ p, made.1.taps idx = some p ∨ made.1.rules idx = some p →
    h.taps idx = some p ∨ h.rules idx = some p
  removed : ∀ p ∈ made.2, h.taps idx = some p ∨ h.rules idx = some p

theorem clear_clears : Clears h idx (h.clear idx which progress) := by
  have htaps : ∀ p, update h.taps idx none idx ≠ some p := by
    intro p hp
    rw [update_self] at hp
    cases hp
  have hother : ∀ slot, slot ≠ idx → update h.taps idx none slot = h.taps slot :=
    fun slot hne => update_of_ne hne ..
  have hremoved : ∀ p ∈ (h.taps idx).toList ++ ((h.rules idx).filter which).toList,
      h.taps idx = some p ∨ h.rules idx = some p := by
    intro p hp
    rcases mem_append.mp hp with hp | hp
    · exact .inl (mem_toList.mp hp)
    · exact .inr (filter_eq_some_iff.mp (mem_toList.mp hp)).1
  have hrules : Clears h idx (h.clear idx which .rules) := by
    refine ⟨⟨rfl, rfl, rfl⟩, fun slot hne => ⟨hother slot hne, update_of_ne hne ..⟩, ?_, hremoved⟩
    intro p hp
    rcases hp with hp | hp
    · exact absurd hp (htaps p)
    have hp : update h.rules idx _ idx = some p := hp
    rw [update_self] at hp
    exact .inr (filter_eq_some_iff.mp hp).1
  cases progress with
  | untouched =>
    exact ⟨⟨rfl, rfl, rfl⟩, fun _ _ => ⟨rfl, rfl⟩, fun _ hp => hp, nofun⟩
  | tap =>
    refine ⟨⟨rfl, rfl, rfl⟩, fun slot hne => ⟨hother slot hne, rfl⟩, fun p hp => ?_, fun p hp => ?_⟩
    · exact .inr (hp.resolve_left (htaps p))
    · exact .inl (mem_toList.mp hp)
  | someRules =>
    refine ⟨⟨rfl, rfl, rfl⟩, fun slot hne => ⟨hother slot hne, rfl⟩, fun p hp => ?_, hremoved⟩
    exact .inr (hp.resolve_left (htaps p))
  | rules | done => exact hrules

theorem Clears.inv {made : Host × List Provision} (hc : Clears h idx made) (hi : HostInv h next) :
    HostInv made.1 next := by
  obtain ⟨⟨hfree, hslot, hvm⟩, hapart, hleft, _⟩ := hc
  refine ⟨?_, ?_, ?_, fun slot p hp => ?_⟩
  · rw [hslot, hvm]
    exact hi.slots
  · rw [hslot, hfree]
    exact hi.free
  · rw [hfree]
    exact hi.nodup
  · rw [hslot]
    by_cases hne : slot = idx
    · subst hne
      exact hi.up slot p (hleft p hp)
    · rw [(hapart slot hne).1, (hapart slot hne).2] at hp
      exact hi.up slot p hp

theorem Clears.keeps {made : Host × List Provision} (hc : Clears h idx made) :
    Keeps h made.1 vm := by
  obtain ⟨⟨_, _, hvm⟩, hapart, hleft, _⟩ := hc
  refine ⟨by rw [hvm], fun p hp => ?_⟩
  obtain ⟨slot, hslot, hp⟩ := hp
  rw [hvm] at hslot
  refine ⟨slot, hslot, ?_⟩
  by_cases hne : slot = idx
  · subst hne
    exact hleft p hp
  · rw [(hapart slot hne).1, (hapart slot hne).2] at hp
    exact hp

theorem nodup_putFree {slot : Nat} {free : List Nat} (hnodup : free.Nodup) :
    (putFree slot free).Nodup := by
  unfold putFree
  split
  · exact hnodup
  · rename_i hnot
    exact (perm_orderedInsert (· ≤ ·) slot free).nodup_iff.mpr (nodup_cons.mpr ⟨hnot, hnodup⟩)

theorem mem_putFree {slot i : Nat} {free : List Nat} (hmem : i ∈ putFree slot free) :
    i = slot ∨ i ∈ free := by
  unfold putFree at hmem
  split at hmem
  · exact .inr hmem
  · exact mem_orderedInsert .. |>.mp hmem

theorem release_owned {a : NetAlloc} (hi : HostInv h next) (hown : h.byVm a.vm = some a.idx)
    (hclear : h.taps a.idx = none ∧ h.rules a.idx = none) :
    HostInv (h.release a) next ∧ (h.release a).byVm a.vm = none ∧
      ∀ other, other ≠ a.vm → Keeps h (h.release a) other := by
  have hslot := (hi.slots a.vm a.idx).mp hown
  have heq : h.release a = { h with
      free := putFree a.idx h.free, bySlot := update h.bySlot a.idx none
      byVm := update h.byVm a.vm none } := by
    unfold Host.release
    rw [hown]
  rw [heq]
  refine ⟨⟨fun vm idx => ?_, fun idx hidx => ?_, nodup_putFree hi.nodup, fun idx p hp => ?_⟩,
    update_self .., fun other hne => ⟨update_of_ne hne .., fun p hp => ?_⟩⟩
  · show update h.byVm a.vm none vm = some idx ↔ update h.bySlot a.idx none idx = some vm
    by_cases hvm : vm = a.vm
    · rw [hvm, update_self]
      by_cases hidx : idx = a.idx
      · rw [hidx, update_self]
        simp
      · rw [update_of_ne hidx, ← hi.slots, hown]
        exact ⟨nofun, fun h => absurd (some.inj h).symm hidx⟩
    · rw [update_of_ne hvm]
      by_cases hidx : idx = a.idx
      · rw [hidx, update_self, hi.slots, hslot]
        exact ⟨fun h => absurd (some.inj h).symm hvm, nofun⟩
      · rw [update_of_ne hidx]
        exact hi.slots vm idx
  · show update h.bySlot a.idx none idx = none
    by_cases he : idx = a.idx
    · rw [he, update_self]
    · rw [update_of_ne he]
      exact hi.free idx ((mem_putFree hidx).resolve_left he)
  · have hne : idx ≠ a.idx := by
      rintro rfl
      rcases hp with hp | hp
      · exact some_ne_none _ (hp.symm.trans hclear.1)
      · exact some_ne_none _ (hp.symm.trans hclear.2)
    show update h.bySlot a.idx none idx = some p.vm ∧ _
    rw [update_of_ne hne]
    exact hi.up idx p hp
  · obtain ⟨idx, hidx, hp⟩ := hp
    have hidx : update h.byVm a.vm none other = some idx := hidx
    rw [update_of_ne hne] at hidx
    exact ⟨idx, hidx, hp⟩

/-- A teardown by the VM that has the slot takes what is on the slot, and touches no other VM. -/
theorem teardown_owned {a : NetAlloc} (hi : HostInv h next) (hown : h.byVm a.vm = some a.idx) :
    HostInv (h.teardown a progress).1 next ∧
      (∀ p ∈ (h.teardown a progress).2, h.Up a.vm p) ∧
      (∀ other, other ≠ a.vm → Keeps h (h.teardown a progress).1 other) ∧
      (progress ≠ .done → Keeps h (h.teardown a progress).1 a.vm) ∧
      (progress = .done → (h.teardown a progress).1.byVm a.vm = none) := by
  have hc : Clears h a.idx (h.clear a.idx (fun p => p.vm = a.vm) progress) := clear_clears
  by_cases hdone : progress = .done
  swap
  · have heq : h.teardown a progress = h.clear a.idx (fun p => p.vm = a.vm) progress := if_neg hdone
    rw [heq]
    exact ⟨hc.inv hi, fun p hp => ⟨a.idx, hown, hc.removed p hp⟩, fun _ _ => hc.keeps,
      fun _ => hc.keeps, fun h => absurd h hdone⟩
  subst hdone
  have heq : h.teardown a .done = ((h.clear a.idx (fun p => p.vm = a.vm) .done).1.release a,
    (h.clear a.idx (fun p => p.vm = a.vm) .done).2) := rfl
  have hown' : (h.clear a.idx (fun p => p.vm = a.vm) .done).1.byVm a.vm = some a.idx := hown
  have hclear : (h.clear a.idx (fun p => p.vm = a.vm) .done).1.taps a.idx = none ∧
      (h.clear a.idx (fun p => p.vm = a.vm) .done).1.rules a.idx = none := by
    refine ⟨update_self .., ?_⟩
    refine (update_self ..).trans (filter_eq_none_iff.mpr fun p hp => ?_)
    -- the rules of the slot are those of the VM that has it
    obtain ⟨hvm, _⟩ := hi.up_vm ⟨a.idx, hown, .inr hp⟩
    simp [hvm]
  obtain ⟨hinv, hgone, hothers⟩ := release_owned (hc.inv hi) hown' hclear
  rw [heq]
  exact ⟨hinv, fun p hp => ⟨a.idx, hown, hc.removed p hp⟩,
    fun other hne => hc.keeps.trans (hothers other hne), fun h => absurd rfl h, fun _ => hgone⟩

theorem allocate_owned {made : Nat × Host} (hi : HostInv h next)
    (hmade : h.allocate vm = some made) :
    HostInv made.2 next ∧ made.2.byVm vm = some made.1 ∧
      ∀ other, other ≠ vm → Keeps h made.2 other := by
  unfold Host.allocate at hmade
  split at hmade
  · rename_i slot hslot
    cases hmade
    exact ⟨hi, hslot, fun _ _ => .refl⟩
  rename_i hnone
  split at hmade
  · cases hmade
  rename_i slot free hfree
  cases hmade
  have hslot : h.bySlot slot = none := hi.free slot (by rw [hfree]; exact mem_cons_self ..)
  have hempty : ∀ p, ¬(h.taps slot = some p ∨ h.rules slot = some p) := by
    intro p hp
    exact some_ne_none _ ((hi.up slot p hp).1.symm.trans hslot)
  have hnodup := hi.nodup
  rw [hfree] at hnodup
  refine ⟨⟨fun v idx => ?_, fun idx hidx => ?_, (nodup_cons.mp hnodup).2, fun idx p hp => ?_⟩,
    update_self .., fun other hne => ⟨update_of_ne hne .., fun p hp => ?_⟩⟩
  · show update h.byVm vm (some slot) v = some idx ↔ update h.bySlot slot (some vm) idx = some v
    by_cases hv : v = vm
    · rw [hv, update_self]
      by_cases hidx : idx = slot
      · rw [hidx, update_self]
        simp
      · rw [update_of_ne hidx, ← hi.slots, hnone]
        exact ⟨fun h => absurd (some.inj h).symm hidx, fun h => by cases h⟩
    · rw [update_of_ne hv]
      by_cases hidx : idx = slot
      · rw [hidx, update_self, hi.slots, hslot]
        exact ⟨fun h => (by cases h), fun h => absurd (some.inj h).symm hv⟩
      · rw [update_of_ne hidx]
        exact hi.slots v idx
  · have hne : idx ≠ slot := by
      rintro rfl
      exact (nodup_cons.mp hnodup).1 hidx
    show update h.bySlot slot (some vm) idx = none
    rw [update_of_ne hne]
    exact hi.free idx (by rw [hfree]; exact mem_cons_of_mem _ hidx)
  · have hne : idx ≠ slot := by
      rintro rfl
      exact hempty p hp
    show update h.bySlot slot (some vm) idx = some p.vm ∧ _
    rw [update_of_ne hne]
    exact hi.up idx p hp
  · obtain ⟨idx, hidx, hp⟩ := hp
    have hidx : update h.byVm vm (some slot) other = some idx := hidx
    rw [update_of_ne hne] at hidx
    exact ⟨idx, hidx, hp⟩

theorem putUp_owned {number : Nat} (hi : HostInv h next) (hown : h.byVm vm = some idx)
    (hnumber : number < next) (tap rules : Bool) :
    HostInv (h.putUp idx tap rules ⟨vm, number⟩) next ∧
      ∀ other, other ≠ vm → Keeps h (h.putUp idx tap rules ⟨vm, number⟩) other := by
  have hcases : ∀ slot p, (h.putUp idx tap rules ⟨vm, number⟩).taps slot = some p ∨
      (h.putUp idx tap rules ⟨vm, number⟩).rules slot = some p →
        (h.taps slot = some p ∨ h.rules slot = some p) ∨ slot = idx ∧ p = ⟨vm, number⟩ := by
    intro slot p hp
    by_cases hslot : slot = idx
    · cases tap <;> cases rules <;> simp [Host.putUp] at hp ⊢ <;> grind
    · cases tap <;> cases rules <;>
        simp [Host.putUp, update_of_ne hslot] at hp ⊢ <;> grind
  refine ⟨{ hi with up := fun slot p hp => ?_ }, fun other hne => ⟨rfl, fun p hp => ?_⟩⟩
  · rcases hcases slot p hp with hp | ⟨rfl, rfl⟩
    · exact hi.up slot p hp
    · exact ⟨(hi.slots vm slot).mp hown, hnumber⟩
  · obtain ⟨slot, hslot, hp⟩ := hp
    rcases hcases slot p hp with hp | ⟨rfl, _⟩
    · exact ⟨slot, hslot, hp⟩
    have hvm := (hi.slots vm slot).mp hown
    rw [(hi.slots other slot).mp hslot] at hvm
    exact absurd (some.inj hvm) hne

/-- A provisioning takes what is left on the slot of its VM, and touches no other VM. -/
theorem provision_owned (hi : HostInv h next) (vm : Uuid) (outcome : Provisioning) :
    HostInv (h.provision vm next outcome).1 (next + 1) ∧
      (∀ p ∈ (h.provision vm next outcome).2.1, p.vm = vm) ∧
      (∀ other, other ≠ vm → Keeps h (h.provision vm next outcome).1 other) ∧
      ∀ a, (h.provision vm next outcome).2.2 = some a →
        a.vm = vm ∧ a.number = next ∧ (h.provision vm next outcome).1.byVm vm = some a.idx := by
  have hlater : ∀ {g : Host}, HostInv g next → HostInv g (next + 1) := fun hg =>
    { hg with up := fun i p hp => ⟨(hg.up i p hp).1, Nat.lt_succ_of_lt (hg.up i p hp).2⟩ }
  unfold Host.provision
  cases hmade : h.allocate vm with
  | none => exact ⟨hlater hi, nofun, fun _ _ => .refl, nofun⟩
  | some made =>
    obtain ⟨idx, g⟩ := made
    obtain ⟨hg, hown, hothers⟩ := allocate_owned hi hmade
    have hvm : ∀ p, g.taps idx = some p ∨ g.rules idx = some p → p.vm = vm :=
      fun p hp => (hg.up_vm ⟨idx, hown, hp⟩).1
    have hc : Clears g idx (g.clear idx (fun _ => true) .done) := clear_clears
    have hcown : (g.clear idx (fun _ => true) .done).1.byVm vm = some idx := hown
    have hput := putUp_owned (hlater (hc.inv hg)) hcown (Nat.lt_succ_self next)
    cases outcome with
    | unpersisted =>
      exact ⟨hlater hg, nofun, hothers, nofun⟩
    | unprepared progress =>
      have hc : Clears g idx (g.clear idx (fun _ => true) progress) := clear_clears
      exact ⟨hlater (hc.inv hg), fun p hp => hvm p (hc.removed p hp),
        fun other hne => (hothers other hne).trans hc.keeps, nofun⟩
    | failed tap rules contained =>
      obtain ⟨hp, hpothers⟩ := hput tap rules
      have hc' : Clears _ idx (((g.clear idx (fun _ => true) .done).1.putUp idx tap rules
        ⟨vm, next⟩).clear idx (fun _ => true) contained) := clear_clears
      refine ⟨hc'.inv hp, fun p hmem => ?_,
        fun other hne => ((hothers other hne).trans hc.keeps).trans
          ((hpothers other hne).trans hc'.keeps), nofun⟩
      rcases mem_append.mp hmem with hmem | hmem
      · exact hvm p (hc.removed p hmem)
      · exact (hp.up_vm ⟨idx, hcown, hc'.removed p hmem⟩).1
    | works =>
      obtain ⟨hp, hpothers⟩ := hput true true
      refine ⟨hp, fun p hmem => hvm p (hc.removed p hmem),
        fun other hne => ((hothers other hne).trans hc.keeps).trans (hpothers other hne),
        fun a ha => ?_⟩
      cases ha
      exact ⟨rfl, rfl, hown⟩

end Slots

end Tarit.Supervisor.Network
