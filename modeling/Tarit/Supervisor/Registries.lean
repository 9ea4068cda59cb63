import Mathlib.Data.List.Perm.Basic
import Mathlib.Tactic.Common

/-!
# The registries of the supervisor

The supervisor keeps the runtime of a VM in one of three registries: `booting`, `running` and
`warm`. An operation that tears a runtime down takes it out of its registry first, and puts it
back if the teardown fails: `stop_vm` does so for a running VM and `stop_all` for all, but a
stopped warm VM, a reclaimed one and one whose process has exited are dropped.

The state is that of one VM. Each section under the locks of the supervisor is one step, and an
operation is in `ops` while it waits to take its next one.
-/
namespace Tarit.Supervisor

open List Option

inductive SpawnPurpose where
  | Live | Refill
  deriving DecidableEq

/-- Who tears a runtime down. -/
inductive Origin where
  | stop | stopWarm | reclaim | exit | shutdownRunning | shutdownWarm
  deriving DecidableEq

inductive Registry where
  | running | warm
  deriving DecidableEq

/-- The runtime is put back when its teardown fails. -/
def Origin.retains : Origin → Bool
  | stop | shutdownRunning | shutdownWarm => true
  | stopWarm | reclaim | exit => false

/-- What an operation does next. Runtimes are numbered by the boots before them. -/
inductive Op where
  /-- A boot up to its publication or cleanup. -/
  | boot (runtime : Nat) (purpose : SpawnPurpose)
  /-- `finish_cancelled_boot`, waiting for the boot. -/
  | stopBoot (runtime : Nat)
  /-- `stop_vm` before it looks into `running`, into `warm`, and before it cleans up by id. -/
  | stopRunning
  | stopWarm
  | stopById
  /-- The runtime is out of its registry, before `teardown_vm`. -/
  | teardown (runtime : Nat) (origin : Origin)
  | putBack (runtime : Nat) (registry : Registry)
  /-- A warm claim before the runtime is inserted into `running`, and `abandon_lifecycle`. -/
  | transfer (runtime : Nat)
  | abandon (runtime : Nat)
  /-- The VM is torn down; its terminal transition releases the reservation. -/
  | release
  deriving DecidableEq

structure BootingVm where
  runtime : Nat
  purpose : SpawnPurpose
  cancelled : Bool
  deriving DecidableEq

structure Vm where
  booting : Option BootingVm
  running : Option Nat
  warm : List Nat
  reserved : Bool
  artifactOwner : Bool
  shuttingDown : Bool
  /-- The boots that were completed with an error, before they ended or at their end. -/
  failed : List Nat
  ops : List Op
  /-- The runtimes whose teardown has not succeeded. -/
  live : List Nat
  booted : Nat

inductive BootEnd where
  | published | cleaned | retained
  deriving DecidableEq

inductive Event where
  /-- `begin_boot_with_registration` that registers the boot. -/
  | boot (purpose : SpawnPurpose)
  /-- A create is refused, and `fail_create_or_restore` starts a terminal transition of the VM. -/
  | refuse
  | bootEnds (runtime : Nat) (purpose : SpawnPurpose) (result : BootEnd)
  | stop
  | claim
  | abandon
  | reclaim
  /-- `reconcile_process_exit` -/
  | exit
  /-- `stop_all` signals boots, and then drains the registries. -/
  | shutdown
  | drain
  /-- The next section of an operation; `ok` says whether a teardown in it succeeds. -/
  | advance (op : Op) (ok : Bool)
  deriving DecidableEq

section Steps

def Vm.add (v : Vm) (op : Op) : Vm := { v with ops := op :: v.ops }

def Vm.tornDown (v : Vm) (runtime : Nat) : Vm :=
  { v with live := v.live.erase runtime, artifactOwner := false }

/-- `complete_booting` without an error -/
def Vm.completeBooting (v : Vm) (runtime : Nat) : Vm :=
  { v with booting := v.booting.filter fun b => b.runtime != runtime }

def BootingVm.cancel (b : BootingVm) : BootingVm := { b with cancelled := true }

def Vm.endBoot (v : Vm) (runtime : Nat) (purpose : SpawnPurpose) : BootEnd → Option Vm
  | .published =>
    match v.booting with
    | some b =>
      if b.runtime = runtime ∧ b.cancelled = false ∧ v.shuttingDown = false then
        some (match purpose with
          | .Live => { v with booting := none, running := some runtime }
          | .Refill => { v with booting := none, warm := v.warm ++ [runtime] })
      else none
    | none => none
  | .cleaned =>
    let v := (v.tornDown runtime).completeBooting runtime
    some (match purpose with
      | .Live => v.add .release
      | .Refill => { v with reserved := false })
  | .retained => some { v with failed := runtime :: v.failed }

def Vm.endTeardown (v : Vm) (runtime : Nat) : Origin → Vm
  | .stop | .stopWarm | .shutdownRunning | .shutdownWarm => (v.tornDown runtime).add .release
  | .reclaim | .exit => { v.tornDown runtime with reserved := false }

def Vm.failTeardown (v : Vm) (runtime : Nat) : Origin → Vm
  | .stop | .shutdownRunning => v.add (.putBack runtime .running)
  | .shutdownWarm => v.add (.putBack runtime .warm)
  | .stopWarm | .reclaim => v
  | .exit => { v with reserved := false }

def Op.boots (runtime : Nat) : Op → Bool
  | .boot runtime' _ => runtime' == runtime
  | _ => false

/-- A section of the operation, which is out of `ops`. -/
def Vm.advance (v : Vm) (ok : Bool) : Op → Option Vm
  | .boot _ _ => none
  | .stopBoot runtime =>
    if runtime ∈ v.failed then
      -- `retry_booting_cleanup`; an abandoned boot may still run, and keeps what it has
      if ok then
        let v := if v.ops.any (Op.boots runtime) then v else v.tornDown runtime
        some ((v.completeBooting runtime).add .release)
      else some v
    else if runtime ∈ v.booting.toList.map (·.runtime) then none
    else some (v.add .release)
  | .stopRunning =>
    match v.running with
    | some runtime => some (({ v with running := none }).add (.teardown runtime .stop))
    | none => some (v.add .stopWarm)
  | .stopWarm =>
    match v.warm with
    | runtime :: warm => some (({ v with warm }).add (.teardown runtime .stopWarm))
    | [] => some (v.add .stopById)
  | .stopById =>
    if ok then some (({ v with artifactOwner := false }).add .release) else some v
  | .teardown runtime origin =>
    if ok then some (v.endTeardown runtime origin) else some (v.failTeardown runtime origin)
  | .putBack runtime .running => some { v with running := some runtime }
  | .putBack runtime .warm => some { v with warm := v.warm ++ [runtime] }
  | .transfer runtime => some { v with running := some runtime }
  | .abandon runtime =>
    some (if v.running.isNone then { v with running := some runtime }
      else { v with warm := v.warm ++ [runtime] })
  | .release => some { v with reserved := false }

/-- One section of an operation, from its start on. -/
def Vm.step (v : Vm) : Event → Option Vm
  | .boot purpose =>
    if v.shuttingDown = false ∧ v.booting = none ∧ v.artifactOwner = false ∧ v.reserved = false then
      some (({ v with
        booting := some ⟨v.booted, purpose, false⟩, artifactOwner := true, reserved := true
        live := v.booted :: v.live, booted := v.booted + 1 }).add (.boot v.booted purpose))
    else none
  | .refuse => if v.shuttingDown = false then some (v.add .release) else none
  | .bootEnds runtime purpose result =>
    if .boot runtime purpose ∈ v.ops then
      ({ v with ops := v.ops.erase (.boot runtime purpose) }).endBoot runtime purpose result
    else none
  | .stop =>
    match v.booting with
    | some b => some (({ v with booting := some b.cancel }).add (.stopBoot b.runtime))
    | none => some (v.add .stopRunning)
  | .claim =>
    match v.warm with
    | runtime :: warm =>
      if v.shuttingDown = false then some (({ v with warm }).add (.transfer runtime)) else none
    | [] => none
  | .abandon =>
    let v := { v with
      booting := v.booting.map BootingVm.cancel
      failed := v.booting.toList.map BootingVm.runtime ++ v.failed }
    match v.warm with
    | runtime :: warm => some (({ v with warm }).add (.abandon runtime))
    | [] => some v
  | .reclaim =>
    match v.warm with
    | runtime :: warm =>
      if v.shuttingDown = false then some (({ v with warm }).add (.teardown runtime .reclaim))
      else none
    | [] => none
  | .exit =>
    match v.running, v.warm with
    | some runtime, _ => some (({ v with running := none }).add (.teardown runtime .exit))
    | none, runtime :: warm => some (({ v with warm }).add (.teardown runtime .exit))
    | none, [] => none
  | .shutdown =>
    let v := { v with shuttingDown := true }
    match v.booting with
    | some b => some (({ v with booting := some b.cancel }).add (.stopBoot b.runtime))
    | none => some v
  | .drain =>
    let ops := v.running.toList.map (fun runtime => .teardown runtime .shutdownRunning) ++
      v.warm.map fun runtime => .teardown runtime .shutdownWarm
    some { v with running := none, warm := [], ops := ops ++ v.ops }
  | .advance op ok =>
    if op ∈ v.ops then ({ v with ops := v.ops.erase op }).advance ok op else none

def run : Vm → List Event → Option Vm
  | v, [] => some v
  | v, event :: events => (v.step event).bind fun v' => run v' events

end Steps

/-! ## Places of a runtime -/

def Op.carried : Op → List Nat
  | .teardown runtime _ | .putBack runtime _ | .transfer runtime | .abandon runtime => [runtime]
  | _ => []

def Op.Holds (runtime : Nat) : Op → Prop
  | .boot runtime' _ | .stopBoot runtime' | .teardown runtime' _ | .putBack runtime' _
  | .transfer runtime' | .abandon runtime' => runtime' = runtime
  | _ => False

/-- The registries that have the runtime, each as often as it is in it. -/
def Vm.registered (v : Vm) : List Nat :=
  v.booting.toList.map (·.runtime) ++ (v.running.toList ++ v.warm)

def Vm.places (v : Vm) : List Nat := v.registered ++ v.ops.flatMap Op.carried

/-- A runtime whose teardown has not succeeded and that no operation holds is in one registry, once,
and its reservation is held. -/
def Vm.Kept (v : Vm) : Prop :=
  ∀ runtime ∈ v.live, (∀ op ∈ v.ops, ¬ op.Holds runtime) →
    v.registered.count runtime = 1 ∧ v.reserved = true

/-! ## Orderly runs -/

/-- Teardowns fail only where the runtime is put back, a stop that finds its VM gone is right, none
goes on beside the boot it has cancelled, no create is refused while a runtime of its VM is there,
and no boot starts while the release of the reservation is owed. -/
def Event.Orderly (v : Vm) : Event → Prop
  | .boot _ => .release ∉ v.ops
  | .refuse => v.live = []
  | .advance .stopById _ => v.live = []
  | .advance (.stopBoot runtime) _ =>
    v.ops.any (Op.boots runtime) = false ∧
      (runtime ∈ v.booting.toList.map (·.runtime) ∨ v.live = [])
  | .advance (.teardown _ origin) ok => ok = true ∨ origin.retains = true
  | _ => True

def OrderlyIn : Vm → List Event → Prop
  | _, [] => True
  | v, event :: events =>
    event.Orderly v ∧ (v.step event).elim True fun v' => OrderlyIn v' events

def Op.isBoot : Op → Bool
  | .boot _ _ => true
  | _ => false

/-- Every runtime that is not torn down is in one place, if the runtimes `out` are counted, which an
operation has taken and not yet put anywhere. -/
structure Inv (out : List Nat) (v : Vm) : Prop where
  places : (out ++ v.places).Perm v.live
  single : v.live.length ≤ 1
  reserved : v.live ≠ [] → v.reserved = true
  owed : .release ∈ v.ops → v.live = []
  boots : v.ops.countP Op.isBoot ≤ 1
  booting : ∀ runtime purpose, .boot runtime purpose ∈ v.ops →
    runtime ∈ v.booting.toList.map (·.runtime)

section Invariant
variable {out : List Nat} {v v' : Vm} {runtime : Nat} {op : Op}

theorem places_erase (h : op ∈ v.ops) :
    (op.carried ++ ({ v with ops := v.ops.erase op } : Vm).places).Perm v.places := by
  have hops := (perm_cons_erase h).flatMap_right Op.carried
  rw [flatMap_cons] at hops
  show (op.carried ++ (v.registered ++ (v.ops.erase op).flatMap Op.carried)).Perm
    (v.registered ++ v.ops.flatMap Op.carried)
  refine List.Perm.trans ?_ (hops.symm.append_left v.registered)
  rw [← append_assoc, ← append_assoc]
  exact perm_append_comm.append_right _

theorem Inv.take (h : Inv [] v) (hop : op ∈ v.ops) :
    Inv op.carried { v with ops := v.ops.erase op } where
  places := (places_erase hop).trans h.places
  single := h.single
  reserved := h.reserved
  owed hmem := h.owed (mem_of_mem_erase hmem)
  boots := Nat.le_trans (List.Sublist.countP_le erase_sublist) h.boots
  booting runtime purpose hmem := h.booting runtime purpose (mem_of_mem_erase hmem)

theorem Inv.add (h : Inv out v) (op : Op) (hout : op.carried = out)
    (hrelease : op = .release → v.live = []) (hboot : op.isBoot = false) : Inv [] (v.add op) where
  places := by
    refine List.Perm.trans ?_ h.places
    rw [← hout]
    show (v.registered ++ (op :: v.ops).flatMap Op.carried).Perm _
    rw [flatMap_cons]
    show (v.registered ++ (op.carried ++ v.ops.flatMap Op.carried)).Perm
      (op.carried ++ (v.registered ++ v.ops.flatMap Op.carried))
    rw [← append_assoc, ← append_assoc]
    exact perm_append_comm.append_right _
  single := h.single
  reserved := h.reserved
  owed hmem := by
    rcases mem_cons.mp hmem with heq | hmem
    · exact hrelease heq.symm
    · exact h.owed hmem
  boots := by
    show (op :: v.ops).countP Op.isBoot ≤ 1
    rw [countP_cons_of_neg (by rw [hboot]; exact Bool.false_ne_true)]
    exact h.boots
  booting runtime purpose hmem := by
    rcases mem_cons.mp hmem with heq | hmem
    · rw [← heq] at hboot
      cases hboot
    · exact h.booting runtime purpose hmem

theorem Inv.alone (h : Inv [runtime] v) : v.places = [] ∧ v.live = [runtime] := by
  have hlength := h.places.length_eq
  rw [length_append, length_singleton] at hlength
  have hnil : v.places = [] := eq_nil_of_length_eq_zero (by have := h.single; omega)
  refine ⟨hnil, ?_⟩
  have hplaces := h.places
  rw [hnil, append_nil] at hplaces
  exact perm_singleton.mp hplaces.symm

theorem Inv.move (h : Inv out v) {out' : List Nat} (hlive : v'.live = v.live)
    (hreserved : v'.reserved = v.reserved) (hops : v'.ops = v.ops)
    (hplaces : (out' ++ v'.registered).Perm (out ++ v.registered))
    (hbooting : v'.booting.toList.map (·.runtime) = v.booting.toList.map (·.runtime)) :
    Inv out' v' where
  places := by
    rw [hlive]
    refine List.Perm.trans ?_ h.places
    show (out' ++ (v'.registered ++ v'.ops.flatMap Op.carried)).Perm
      (out ++ (v.registered ++ v.ops.flatMap Op.carried))
    rw [hops, ← append_assoc, ← append_assoc]
    exact hplaces.append_right _
  single := hlive ▸ h.single
  reserved := by
    rw [hlive, hreserved]
    exact h.reserved
  owed := by
    rw [hops, hlive]
    exact h.owed
  boots := hops ▸ h.boots
  booting := by
    rw [hops, hbooting]
    exact h.booting

theorem Inv.tornDown_live (h : Inv [runtime] v) : (v.tornDown runtime).live = [] := by
  show v.live.erase runtime = []
  rw [h.alone.2, erase_cons_head]

theorem Inv.tornDown (h : Inv [runtime] v) : Inv [] (v.tornDown runtime) where
  places := by
    rw [h.tornDown_live]
    exact .of_eq h.alone.1
  single := Nat.le_trans erase_sublist.length_le h.single
  reserved hne := absurd h.tornDown_live hne
  owed _ := h.tornDown_live
  boots := h.boots
  booting := h.booting

theorem Inv.release (h : Inv [] v) (hlive : v.live = []) : Inv [] { v with reserved := false } :=
  { h with reserved := fun hne => absurd hlive hne }

theorem Inv.takeRunning (h : Inv [] v) (hrunning : v.running = some runtime) :
    Inv [runtime] { v with running := none } := by
  refine h.move rfl rfl rfl ?_ rfl
  show (runtime :: (v.booting.toList.map (·.runtime) ++ ([] ++ v.warm))).Perm
    (v.booting.toList.map (·.runtime) ++ (v.running.toList ++ v.warm))
  rw [hrunning]
  exact perm_middle.symm

theorem Inv.takeWarm (h : Inv [] v) {warm : List Nat} (hwarm : v.warm = runtime :: warm) :
    Inv [runtime] { v with warm } := by
  refine h.move rfl rfl rfl ?_ rfl
  show (runtime :: (v.booting.toList.map (·.runtime) ++ (v.running.toList ++ warm))).Perm
    (v.booting.toList.map (·.runtime) ++ (v.running.toList ++ v.warm))
  rw [hwarm, ← append_assoc, ← append_assoc]
  exact perm_middle.symm

theorem Inv.putRunning (h : Inv [runtime] v) : Inv [] { v with running := some runtime } := by
  have hnone : v.running = none := by
    have hnil := h.alone.1
    simp only [Vm.places, Vm.registered, append_eq_nil_iff, toList_eq_nil_iff] at hnil
    exact hnil.1.2.1
  refine h.move rfl rfl rfl ?_ rfl
  show (v.booting.toList.map (·.runtime) ++ ([runtime] ++ v.warm)).Perm
    (runtime :: (v.booting.toList.map (·.runtime) ++ (v.running.toList ++ v.warm)))
  rw [hnone]
  exact perm_middle

theorem Inv.putWarm (h : Inv [runtime] v) : Inv [] { v with warm := v.warm ++ [runtime] } := by
  refine h.move rfl rfl rfl ?_ rfl
  show (v.booting.toList.map (·.runtime) ++ (v.running.toList ++ (v.warm ++ [runtime]))).Perm
    ([runtime] ++ (v.booting.toList.map (·.runtime) ++ (v.running.toList ++ v.warm)))
  rw [← append_assoc v.running.toList, ← append_assoc]
  exact perm_append_comm

theorem Inv.takeBooting (h : Inv [] v) {b : BootingVm} (hbooting : v.booting = some b)
    (hended : ∀ runtime purpose, .boot runtime purpose ∉ v.ops) :
    Inv [b.runtime] { v with booting := none } := by
  refine { h with
    places := List.Perm.trans ?_ h.places
    booting := fun runtime purpose hmem => absurd hmem (hended runtime purpose) }
  show (b.runtime :: ((v.running.toList ++ v.warm) ++ v.ops.flatMap Op.carried)).Perm
    ((v.booting.toList.map (·.runtime) ++ (v.running.toList ++ v.warm)) ++ v.ops.flatMap Op.carried)
  rw [hbooting]
  exact List.Perm.refl _

theorem Inv.cancel (h : Inv out v) :
    Inv out { v with booting := v.booting.map BootingVm.cancel } := by
  have hsame : (v.booting.map BootingVm.cancel).toList.map (·.runtime) =
      v.booting.toList.map (·.runtime) := by
    cases v.booting <;> rfl
  refine h.move rfl rfl rfl ?_ hsame
  show (out ++ ((v.booting.map BootingVm.cancel).toList.map (·.runtime) ++ _)).Perm _
  rw [hsame]
  exact List.Perm.refl _

theorem completeBooting_eq {b : BootingVm} (hb : v.booting = some b)
    (hruntime : b.runtime = runtime) : v.completeBooting runtime = { v with booting := none } := by
  unfold Vm.completeBooting
  rw [hb]
  simp [Option.filter, hruntime]

theorem Inv.completeBooting (h : Inv [] v) (hlive : v.live = []) (runtime : Nat) :
    Inv [] ((v.tornDown runtime).completeBooting runtime) := by
  have hplaces := h.places
  rw [hlive] at hplaces
  have hnone : v.booting = none := by
    have hnil := hplaces.eq_nil
    simp only [Vm.places, Vm.registered, nil_append, append_eq_nil_iff, map_eq_nil_iff,
      toList_eq_nil_iff] at hnil
    exact hnil.1.1
  have herase : v.live.erase runtime = v.live := by
    rw [hlive]
    rfl
  have hsame : v.booting.filter (fun b => b.runtime != runtime) = v.booting := by
    rw [hnone]
    rfl
  refine h.move herase rfl rfl ?_ (congrArg (·.toList.map (·.runtime)) hsame)
  show ((v.booting.filter fun b => b.runtime != runtime).toList.map (·.runtime) ++ _).Perm _
  rw [hsame]
  exact List.Perm.refl _

theorem Inv.no_boot (h : Inv [] v) {purpose : SpawnPurpose} (hop : .boot runtime purpose ∈ v.ops)
    (runtime' : Nat) (purpose' : SpawnPurpose) :
    .boot runtime' purpose' ∉ v.ops.erase (.boot runtime purpose) := by
  intro hmem
  have hcount : v.ops.countP Op.isBoot =
      ((.boot runtime purpose) :: v.ops.erase (.boot runtime purpose)).countP Op.isBoot :=
    (perm_cons_erase hop).countP_eq _
  have hboots := h.boots
  rw [hcount, countP_cons_of_pos rfl] at hboots
  have hpos : 0 < (v.ops.erase (.boot runtime purpose)).countP Op.isBoot :=
    countP_pos_iff.mpr ⟨_, hmem, rfl⟩
  omega

end Invariant

/-! ## Steps -/

section Steps
variable {v v' : Vm} {runtime : Nat} {op : Op} {ok : Bool} {event : Event}

theorem Inv.endBoot (h : Inv [] v) {purpose : SpawnPurpose} {result : BootEnd}
    (hended : ∀ runtime purpose, .boot runtime purpose ∉ v.ops)
    (hentry : runtime ∈ v.booting.toList.map (·.runtime))
    (hstep : v.endBoot runtime purpose result = some v') : Inv [] v' := by
  obtain ⟨b, hb, hruntime⟩ := mem_map.mp hentry
  rw [mem_toList] at hb
  have htaken := h.takeBooting hb hended
  rw [hruntime] at htaken
  cases result with
  | published =>
    simp only [Vm.endBoot, hb] at hstep
    obtain ⟨-, ⟨⟩⟩ := ite_none_right_eq_some.mp hstep
    cases purpose with
    | Live => exact htaken.putRunning
    | Refill => exact htaken.putWarm
  | cleaned =>
    have hcomplete : (v.tornDown runtime).completeBooting runtime =
        Vm.tornDown { v with booting := none } runtime := completeBooting_eq hb hruntime
    simp only [Vm.endBoot, hcomplete] at hstep
    cases hstep
    have hdown := htaken.tornDown
    have hlive := htaken.tornDown_live
    cases purpose with
    | Live => exact hdown.add _ rfl (fun _ => hlive) rfl
    | Refill => exact hdown.release hlive
  | retained =>
    cases hstep
    exact h.move rfl rfl rfl (List.Perm.refl _) rfl

/-- One section of a task puts down the runtime it carries or tears it down. -/
theorem Inv.advance (h : Inv op.carried v) (horderly : (Event.advance op ok).Orderly v)
    (hreleased : op = .release → v.live = []) (hstep : v.advance ok op = some v') : Inv [] v' := by
  cases op with
  | boot runtime purpose => cases hstep
  | stopBoot runtime =>
    obtain ⟨hended, hgone⟩ := horderly
    simp only [Vm.advance, hended] at hstep
    split at hstep
    · split at hstep
      · cases hstep
        rcases hgone with hentry | hlive
        · obtain ⟨b, hb, hruntime⟩ := mem_map.mp hentry
          rw [mem_toList] at hb
          -- the boot of the entry has ended, so there is none
          have hnone : ∀ runtime' purpose, .boot runtime' purpose ∉ v.ops := by
            intro runtime' purpose hmem
            have hsame := h.booting runtime' purpose hmem
            rw [hb] at hsame
            rw [mem_singleton.mp hsame] at hmem
            exact any_eq_false.mp hended _ hmem (beq_iff_eq.mpr hruntime)
          have htaken := h.takeBooting hb hnone
          rw [hruntime] at htaken
          have hcomplete : (v.tornDown runtime).completeBooting runtime =
              Vm.tornDown { v with booting := none } runtime := completeBooting_eq hb hruntime
          show Inv [] (((v.tornDown runtime).completeBooting runtime).add .release)
          rw [hcomplete]
          exact htaken.tornDown.add _ rfl (fun _ => htaken.tornDown_live) rfl
        · refine (h.completeBooting hlive runtime).add _ rfl (fun _ => ?_) rfl
          show v.live.erase runtime = []
          rw [hlive]
          rfl
      · cases hstep
        exact h
    · split at hstep
      · cases hstep
      · next hentry =>
        cases hstep
        exact h.add _ rfl (fun _ => hgone.resolve_left hentry) rfl
  | stopRunning =>
    simp only [Vm.advance] at hstep
    split at hstep
    · next runtime hrunning =>
      cases hstep
      exact (h.takeRunning hrunning).add _ rfl (fun h => by cases h) rfl
    · cases hstep
      exact h.add _ rfl (fun h => by cases h) rfl
  | stopWarm =>
    simp only [Vm.advance] at hstep
    split at hstep
    · next runtime warm hwarm =>
      cases hstep
      exact (h.takeWarm hwarm).add _ rfl (fun h => by cases h) rfl
    · cases hstep
      exact h.add _ rfl (fun h => by cases h) rfl
  | stopById =>
    simp only [Vm.advance] at hstep
    split at hstep
    · cases hstep
      have hmoved : Inv [] { v with artifactOwner := false } :=
        h.move rfl rfl rfl (List.Perm.refl _) rfl
      exact hmoved.add _ rfl (fun _ => horderly) rfl
    · cases hstep
      exact h
  | teardown runtime origin =>
    simp only [Vm.advance] at hstep
    split at hstep
    · cases hstep
      have hdown := h.tornDown
      have hlive := h.tornDown_live
      cases origin with
      | reclaim | exit => exact hdown.release hlive
      | stop | stopWarm | shutdownRunning | shutdownWarm =>
        exact hdown.add _ rfl (fun _ => hlive) rfl
    · next hok =>
      have hretains := horderly.resolve_left hok
      cases hstep
      cases origin with
      | stop | shutdownRunning | shutdownWarm =>
        exact h.add _ rfl (fun h => by cases h) rfl
      | stopWarm | reclaim | exit => cases hretains
  | putBack runtime registry =>
    cases registry with
    | running =>
      cases hstep
      exact h.putRunning
    | warm =>
      cases hstep
      exact h.putWarm
  | transfer runtime =>
    cases hstep
    exact h.putRunning
  | abandon runtime =>
    cases hstep
    split
    · exact h.putRunning
    · exact h.putWarm
  | release =>
    cases hstep
    exact .release h (hreleased rfl)

theorem Inv.boot (h : Inv [] v) (horderly : .release ∉ v.ops) (hbooting : v.booting = none)
    (hreserved : v.reserved = false) (purpose : SpawnPurpose) :
    Inv [] (({ v with
      booting := some ⟨v.booted, purpose, false⟩, artifactOwner := true, reserved := true
      live := v.booted :: v.live, booted := v.booted + 1 }).add (.boot v.booted purpose)) := by
  have hlive : v.live = [] := by
    by_contra hne
    rw [h.reserved hne] at hreserved
    cases hreserved
  have hnone : ∀ op ∈ v.ops, op.isBoot = false := by
    intro op hop
    cases op with
    | boot runtime purpose =>
      have hentry := h.booting runtime purpose hop
      rw [hbooting] at hentry
      cases hentry
    | _ => rfl
  constructor
  · have hplaces := h.places
    simp only [Vm.places, Vm.registered, hbooting] at hplaces
    exact hplaces.cons _
  · rw [hlive]
    exact Nat.le_refl _
  · exact fun _ => rfl
  · intro hmem
    rcases mem_cons.mp hmem with heq | hmem
    · cases heq
    · exact absurd hmem horderly
  · have hcount : (.boot v.booted purpose :: v.ops).countP Op.isBoot = 1 := by
      rw [countP_cons_of_pos rfl, countP_eq_zero.mpr fun op hop => by simp [hnone op hop]]
    exact Nat.le_of_eq hcount
  · intro runtime purpose' hmem
    rcases mem_cons.mp hmem with heq | hmem
    · cases heq
      exact mem_singleton.mpr rfl
    · exact absurd (hnone _ hmem) (Bool.noConfusion : ¬ true = false)

theorem Inv.drain (h : Inv [] v) :
    Inv [] { v with
      running := none, warm := []
      ops := (v.running.toList.map (fun runtime => .teardown runtime .shutdownRunning) ++
        v.warm.map fun runtime => .teardown runtime .shutdownWarm) ++ v.ops } := by
  -- one runtime at most is in the registries
  have hsingle : (v.running.toList ++ v.warm).length ≤ 1 := by
    have hlength := h.places.length_eq
    simp only [Vm.places, Vm.registered, length_append, length_nil] at hlength ⊢
    have := h.single
    omega
  obtain ⟨_, running, warm, _, _, _, _, _, _, _⟩ := v
  match running, warm with
  | none, [] => exact h
  | some runtime, [] =>
    exact (h.takeRunning rfl).add (.teardown runtime .shutdownRunning) rfl nofun rfl
  | none, [runtime] => exact (h.takeWarm rfl).add (.teardown runtime .shutdownWarm) rfl nofun rfl
  | some _, _ :: _ | none, _ :: _ :: _ => simp at hsingle

theorem Inv.stopBoot (h : Inv [] v) {b : BootingVm} (hb : v.booting = some b) :
    Inv [] (({ v with booting := some b.cancel }).add (.stopBoot b.runtime)) := by
  have hcancel := h.cancel
  rw [hb] at hcancel
  exact hcancel.add _ rfl nofun rfl

/-- The step lemma: no event loses or doubles a runtime. -/
theorem Inv.step (h : Inv [] v) (horderly : event.Orderly v) (hstep : v.step event = some v') :
    Inv [] v' := by
  cases event with
  | boot purpose =>
    obtain ⟨hfree, ⟨⟩⟩ := ite_none_right_eq_some.mp hstep
    exact h.boot horderly hfree.2.1 hfree.2.2.2 purpose
  | refuse =>
    obtain ⟨-, ⟨⟩⟩ := ite_none_right_eq_some.mp hstep
    exact h.add _ rfl (fun _ => horderly) rfl
  | bootEnds runtime purpose result =>
    obtain ⟨hop, hstep⟩ := ite_none_right_eq_some.mp hstep
    have htaken : Inv [] _ := h.take hop
    exact htaken.endBoot (h.no_boot hop) (h.booting runtime purpose hop) hstep
  | stop =>
    simp only [Vm.step] at hstep
    split at hstep
    · next b hb =>
      cases hstep
      exact h.stopBoot hb
    · cases hstep
      exact h.add _ rfl nofun rfl
  | claim | reclaim =>
    simp only [Vm.step] at hstep
    split at hstep
    · next runtime warm hwarm =>
      obtain ⟨-, ⟨⟩⟩ := ite_none_right_eq_some.mp hstep
      exact (h.takeWarm hwarm).add _ rfl nofun rfl
    · cases hstep
  | abandon =>
    have hcancel : Inv [] { v with
        booting := v.booting.map BootingVm.cancel
        failed := v.booting.toList.map BootingVm.runtime ++ v.failed } :=
      h.cancel.move rfl rfl rfl (List.Perm.refl _) rfl
    simp only [Vm.step] at hstep
    split at hstep
    · next runtime warm hwarm =>
      cases hstep
      exact (hcancel.takeWarm hwarm).add _ rfl nofun rfl
    · cases hstep
      exact hcancel
  | exit =>
    simp only [Vm.step] at hstep
    split at hstep
    · next runtime hrunning =>
      cases hstep
      exact (h.takeRunning hrunning).add _ rfl nofun rfl
    · next runtime warm _ hwarm =>
      cases hstep
      exact (h.takeWarm hwarm).add _ rfl nofun rfl
    · cases hstep
  | shutdown =>
    have hdown : Inv [] { v with shuttingDown := true } := h.move rfl rfl rfl (List.Perm.refl _) rfl
    simp only [Vm.step] at hstep
    split at hstep
    · next b hb =>
      cases hstep
      exact hdown.stopBoot hb
    · cases hstep
      exact hdown
  | drain =>
    cases hstep
    exact h.drain
  | advance op ok =>
    obtain ⟨hop, hstep⟩ := ite_none_right_eq_some.mp hstep
    refine (h.take hop).advance ?_ (fun heq => h.owed (heq ▸ hop)) hstep
    cases op with
    | stopBoot runtime =>
      have hended : (v.ops.erase (.stopBoot runtime)).any (Op.boots runtime) = false :=
        any_eq_false.mpr fun op hmem => any_eq_false.mp horderly.1 op (mem_of_mem_erase hmem)
      exact ⟨hended, horderly.2⟩
    | _ => exact horderly

/-- By induction over the events, from `Inv.step`. -/
theorem Inv.run {events : List Event} (h : Inv [] v) (horderly : OrderlyIn v events)
    (hrun : run v events = some v') : Inv [] v' := by
  induction events generalizing v with
  | nil =>
    cases hrun
    exact h
  | cons event events ih =>
    obtain ⟨next, hnext, hrest⟩ := bind_eq_some_iff.mp hrun
    have hlater := horderly.2
    rw [hnext] at hlater
    exact ih (h.step horderly.1 hnext) hlater hrest

theorem Inv.kept (h : Inv [] v) : v.Kept := by
  intro runtime hlive hfree
  have hcarried : (v.ops.flatMap Op.carried).count runtime = 0 := by
    refine count_eq_zero.mpr fun hmem => ?_
    obtain ⟨op, hop, hop'⟩ := mem_flatMap.mp hmem
    refine hfree op hop ?_
    cases op <;> first | exact (mem_singleton.mp hop').symm | cases hop'
  have hone : v.live = [runtime] := by
    obtain ⟨n, hn⟩ := length_eq_one_iff.mp
      (Nat.le_antisymm h.single (length_pos_of_mem hlive))
    rw [hn] at hlive ⊢
    rw [mem_singleton.mp hlive]
  have hcount := h.places.count_eq runtime
  rw [nil_append, Vm.places, count_append, hcarried, hone, count_singleton_self] at hcount
  exact ⟨hcount, h.reserved (ne_nil_of_mem hlive)⟩

end Steps

/-! ## Results -/

def unbooted : Vm := ⟨none, none, [], false, false, false, [], [], [], 0⟩

theorem unbooted_inv : Inv [] unbooted where
  places := List.Perm.refl _
  single := Nat.zero_le _
  reserved hne := absurd rfl hne
  owed hmem := by cases hmem
  boots := Nat.zero_le _
  booting _ _ hmem := by cases hmem

def toWarm : List Event := [.boot .Refill, .bootEnds 0 .Refill .published]

def toRunning : List Event := [.boot .Live, .bootEnds 0 .Live .published]

end Tarit.Supervisor
