import Tarit.Supervisor.Network

/-!
# Runs of stops, wakes and leases

As long as provisionings and teardowns by id find a VM idle and stops do not fail after their
network part, one holder at a time has the allocation of a VM: its runtime, an operation, or the
lease record. `Stage` names the holder, and a teardown is run by it alone.
-/
namespace Tarit.Supervisor.Network

open Fleet Function List
open Option (some_ne_none ite_none_right_eq_some map_eq_some_iff)

/-! ## Who has the allocation of a VM -/

def Op.holds : Op → Bool
  | .deferring .. | .tearing .. | .puttingBack _ | .deferred _ | .booted _ => true
  | .lookingWarm _ | .byId _ | .finishing .. | .completing => false

def VmNet.pending (v : VmNet) : Option NetAlloc := v.record.bind (·.pendingTeardown)

/-- No lease on the VM is held, and nobody has an allocation of it: no runtime, no teardown left to
a release, and no operation under way. -/
def VmNet.Idle (v : VmNet) : Prop :=
  v.leases = [] ∧ v.running = none ∧ v.warm = none ∧ v.pending = none ∧
    ∀ op ∈ v.ops, op.holds = false

def Op.ofStop : Op → Bool
  | .lookingWarm _ | .byId _ => true
  | _ => false

/-- Provisionings and teardowns by id find the VM idle, no provisioning comes between the sections
of a stop, and a stop does not fail after its network part. -/
def Event.Orderly (v : VmNet) : Event → Prop
  | .provision _ => v.Idle ∧ ∀ op ∈ v.ops, op.ofStop = false
  | .cleanup => v.Idle
  | .advance (.lookingWarm _) _ _ => v.warm = none → v.Idle
  | .advance (.finishing _ kept) _ ok => kept = true → ok = true
  | _ => True

/-- In an orderly run at most one holder has the allocation of a VM. -/
inductive Stage where
  | idle
  | running (a : NetAlloc)
  | warm (a : NetAlloc)
  | pending (a : NetAlloc)
  | deferring (a : NetAlloc) (kept : Bool)
  | tearing (a : NetAlloc) (kept : Bool)
  | puttingBack (a : NetAlloc)
  | deferred (a : NetAlloc)
  | booted (a : NetAlloc)

namespace Stage

def alloc : Stage → Option NetAlloc
  | idle => none
  | running a | warm a | pending a | deferring a _ | tearing a _ | puttingBack a | deferred a
  | booted a => some a

def inRunning : Stage → Option NetAlloc
  | running a => some a
  | _ => none

def inWarm : Stage → Option NetAlloc
  | warm a => some a
  | _ => none

def inRecord : Stage → Option NetAlloc
  | pending a => some a
  | _ => none

def ops : Stage → List Op
  | deferring a kept => [.deferring a kept]
  | tearing a kept => [.tearing a kept]
  | puttingBack a => [.puttingBack a]
  | deferred a => [.deferred a]
  | booted a => [.booted a]
  | _ => []

def leasable : Stage → Bool
  | running _ | pending _ | deferring .. => true
  | _ => false

end Stage

def Op.stage : Op → Stage
  | .deferring a kept => .deferring a kept
  | .tearing a kept => .tearing a kept
  | .puttingBack a => .puttingBack a
  | .deferred a => .deferred a
  | .booted a => .booted a
  | _ => .idle

/-- The allocation is the one that the provisioner has for the VM, and the last one. -/
structure Owns (h : Host) (vm : Uuid) (a : NetAlloc) : Prop where
  of : a.vm = vm
  slot : h.byVm vm = some a.idx
  last : ∀ p, h.Up vm p → p.number ≤ a.number

def Op.before? : Op → Option Nat
  | .lookingWarm before | .byId before => some before
  | _ => none

/-- The allocation of the VM is in one place, which the stage names. -/
structure VmInv (h : Host) (vm : Uuid) (v : VmNet) (stage : Stage) : Prop where
  running : v.running = stage.inRunning
  warm : v.warm = stage.inWarm
  pending : v.pending = stage.inRecord
  ops : v.ops.filter Op.holds = stage.ops
  owns : ∀ a, stage.alloc = some a → Owns h vm a
  leases : v.leases ≠ [] → stage.leasable
  active : v.record.elim 0 (·.active) = v.leases.length
  last : ∀ a, stage = .pending a → v.leases ≠ []
  byId : ∀ before, .byId before ∈ v.ops → stage = .idle
  before : ∀ op ∈ v.ops, ∀ before, op.before? = some before → ∀ p, h.Up vm p → p.number < before

variable {h h' : Host} {vm : Uuid} {v v' : VmNet} {stage : Stage} {op : Op} {a : NetAlloc}
  {r : NetworkLeaseState}

section Stages

theorem Owns.keeps (ho : Owns h vm a) (hk : Keeps h h' vm) : Owns h' vm a :=
  ⟨ho.of, hk.byVm.trans ho.slot, fun p hp => ho.last p (hk.up p hp)⟩

theorem VmInv.start : VmInv h vm .start .idle :=
  ⟨rfl, rfl, rfl, rfl, nofun, fun hl => absurd rfl hl, rfl, nofun, nofun, nofun⟩

/-- A section passes the allocation on to the next stage. -/
structure Passes (v v' : VmNet) (stage' : Stage) : Prop where
  running : v'.running = stage'.inRunning
  warm : v'.warm = stage'.inWarm
  pending : v'.pending = stage'.inRecord
  ops : v'.ops.filter Op.holds = stage'.ops
  leases : v'.leases ≠ [] → stage'.leasable
  active : v'.record.elim 0 (·.active) = v'.leases.length
  waits : v'.leases = [] → stage'.inRecord = none
  stops : ∀ op ∈ v'.ops, op.before? ≠ none → op ∈ v.ops

theorem stops_erase : ∀ x ∈ v.ops.erase op, x.before? ≠ none → x ∈ v.ops :=
  fun _ hx _ => mem_of_mem_erase hx

theorem stops_cons {ops : List Op} (hnew : op.before? = none) (hops : ops ⊆ v.ops) :
    ∀ x ∈ op :: ops, x.before? ≠ none → x ∈ v.ops :=
  forall_mem_cons.mpr ⟨fun hb => absurd hnew hb, fun _ hx _ => hops hx⟩

theorem holds_cons {ops : List Op} (hrest : ops.filter Op.holds = []) (hholds : op.holds = true) :
    (op :: ops).filter Op.holds = [op] := by
  rw [filter_cons_of_pos hholds, hrest]

variable (hi : VmInv h vm v stage)

include hi

theorem VmInv.keeps (hk : Keeps h h' vm) : VmInv h' vm v stage :=
  { hi with
    owns := fun a ha => (hi.owns a ha).keeps hk
    before := fun op hop before hb p hp => hi.before op hop before hb p (hk.up p hp) }

theorem VmInv.pass {stage' : Stage} (hp : Passes v v' stage')
    (hhands : ∀ a, stage'.alloc = some a → stage.alloc = some a ∧ h'.byVm vm = h.byVm vm)
    (hup : ∀ p, h'.Up vm p → h.Up vm p) : VmInv h' vm v' stage' := by
  refine { hp with
    owns := fun a ha => ?_, last := fun a ha hl => ?_, byId := fun before hb => ?_
    before := fun op hop before hb p hp' => ?_ }
  · obtain ⟨ha, hvm⟩ := hhands a ha
    exact (hi.owns a ha).keeps ⟨hvm, hup⟩
  · have hnone := hp.waits hl
    rw [ha] at hnone
    cases hnone
  · have hidle := hi.byId before (hp.stops _ hb (some_ne_none _))
    rw [hidle] at hhands
    cases stage' with
    | idle => rfl
    | _ => cases (hhands _ rfl).1
  · exact hi.before op (hp.stops op hop (by rw [hb]; exact some_ne_none _)) before hb p
      (hup p hp')

theorem VmInv.of_idle (hidle : v.Idle) : stage = .idle := by
  obtain ⟨_, hrunning, hwarm, hpending, hops⟩ := hidle
  have hnone : stage.ops = [] := by
    rw [← hi.ops]
    exact filter_eq_nil_iff.mpr fun op hop => by rw [hops op hop]; exact Bool.false_ne_true
  cases stage with
  | idle => rfl
  | running a => exact absurd (hi.running.symm.trans hrunning) (some_ne_none a)
  | warm a => exact absurd (hi.warm.symm.trans hwarm) (some_ne_none a)
  | pending a => exact absurd (hi.pending.symm.trans hpending) (some_ne_none a)
  | deferring a kept | tearing a kept | puttingBack a | deferred a | booted a => cases hnone

theorem VmInv.of_running (ha : v.running = some a) : stage = .running a := by
  have hrunning := hi.running
  rw [ha] at hrunning
  cases stage <;> cases hrunning
  rfl

theorem VmInv.of_warm (ha : v.warm = some a) : stage = .warm a := by
  have hwarm := hi.warm
  rw [ha] at hwarm
  cases stage <;> cases hwarm
  rfl

theorem VmInv.of_record (hrecord : v.record = some r) :
    r.pendingTeardown = stage.inRecord ∧ r.active = v.leases.length := by
  have hpending := hi.pending
  have hactive := hi.active
  unfold VmNet.pending at hpending
  rw [hrecord] at hpending hactive
  exact ⟨hpending, hactive⟩

theorem VmInv.of_op (hop : op ∈ v.ops) (hholds : op.holds = true) :
    stage = op.stage ∧ (v.ops.erase op).filter Op.holds = [] := by
  have hmem : op ∈ stage.ops := by
    rw [← hi.ops]
    exact mem_filter.mpr ⟨hop, hholds⟩
  have hone : stage = op.stage ∧ stage.ops = [op] := by
    cases stage with
    | idle | running a | warm a | pending a => cases hmem
    | deferring a kept | tearing a kept | puttingBack a | deferred a | booted a =>
      rw [mem_singleton.mp hmem]
      exact ⟨rfl, rfl⟩
  refine ⟨hone.1, ?_⟩
  rw [← erase_filter, hi.ops, hone.2, erase_cons_head]

theorem VmInv.of_other (op : Op) (hholds : op.holds = false) :
    (v.ops.erase op).filter Op.holds = stage.ops := by
  rw [← erase_filter, erase_of_not_mem, hi.ops]
  intro hmem
  rw [(mem_filter.mp hmem).2] at hholds
  cases hholds

theorem VmInv.waits (hleases : v.leases = []) : stage.inRecord = none := by
  cases stage with
  | pending a => exact absurd hleases (hi.last a rfl)
  | _ => rfl

theorem VmInv.drop_op (op : Op) (hholds : op.holds = false) :
    Passes v { v with ops := v.ops.erase op } stage :=
  { hi with ops := hi.of_other op hholds, waits := hi.waits, stops := stops_erase }

theorem VmInv.no_leases (hstage : stage.leasable = false) : v.leases = [] := by
  by_contra hne
  rw [hi.leases hne] at hstage
  cases hstage

end Stages

section Sections

variable {next before : Nat} {kept ok : Bool} {progress : Progress}

/-- What a section on the network of `vm` does to the rest. -/
structure SectionOk (h : Host) (vm : Uuid) (v : VmNet) (next : Nat)
    (made : VmNet × Host × List Removed) : Prop where
  stage : ∃ stage, VmInv made.2.1 vm made.1 stage
  host : HostInv made.2.1 next
  others : ∀ other, other ≠ vm → Keeps h made.2.1 other
  removed : ∀ r ∈ made.2.2, r.what.vm = vm ∧ v.leases = [] ∧
    (r.teardown → r.vm = vm ∧ r.what.number < r.before)

def AdvanceOk (h : Host) (vm : Uuid) (v : VmNet) (next : Nat) (progress : Progress) (ok : Bool)
    (op : Op) : Prop :=
  SectionOk h vm v next (VmNet.advance { v with ops := v.ops.erase op } vm h progress ok op)

theorem keep_pending (hnone : r.active = 0 → r.pendingTeardown = none) :
    r.keep.bind (·.pendingTeardown) = r.pendingTeardown := by
  unfold NetworkLeaseState.keep
  split
  · rename_i hgone
    exact (hnone hgone.1).symm
  · rfl

theorem keep_active : r.keep.elim 0 (·.active) = r.active := by
  unfold NetworkLeaseState.keep
  split
  · rename_i hgone
    exact hgone.1.symm
  · rfl

variable (hhost : HostInv h next)

include hhost

theorem SectionOk.stay (hi : VmInv h vm v' stage) : SectionOk h vm v next (v', h, []) :=
  ⟨⟨stage, hi⟩, hhost, fun _ _ => .refl, nofun⟩

variable (hi : VmInv h vm v stage)

include hi

theorem SectionOk.quiet (stage' : Stage) (halloc : stage'.alloc = stage.alloc)
    (hp : Passes v v' stage') : SectionOk h vm v next (v', h, []) :=
  .stay hhost (hi.pass hp (fun _ ha => ⟨halloc ▸ ha, rfl⟩) fun _ hup => hup)

theorem SectionOk.remove (hvm : a.vm = vm) (hslot : h.byVm vm = some a.idx)
    (hbefore : ∀ p, h.Up vm p → p.number < before) (hleasable : stage.leasable = false)
    (stage' : Stage) (hstage' : stage' = .idle ∨ progress ≠ .done ∧ stage'.alloc = stage.alloc)
    (hp : Passes v v' stage') :
    SectionOk h vm v next
      (v', (h.teardown a progress).1, removals vm true before (h.teardown a progress).2) := by
  obtain rfl := hvm
  obtain ⟨hinv, hremoved, hothers, hkeeps, hgone⟩ := teardown_owned hhost hslot
  refine ⟨⟨stage', hi.pass hp (fun b hb => ?_) fun p hup => ?_⟩, hinv, hothers, fun r hr => ?_⟩
  · rcases hstage' with rfl | ⟨hne, halloc⟩
    · cases hb
    · exact ⟨halloc ▸ hb, (hkeeps hne).byVm⟩
  · by_cases hd : progress = .done
    · obtain ⟨idx, hidx, _⟩ := hup
      rw [hgone hd] at hidx
      cases hidx
    · exact (hkeeps hd).up p hup
  · obtain ⟨p, hp, rfl⟩ := mem_map.mp hr
    have hup := hremoved p hp
    exact ⟨(hhost.up_vm hup).1, hi.no_leases hleasable, fun _ => ⟨rfl, hbefore p hup⟩⟩

theorem SectionOk.teardown (ha : stage.alloc = some a) (hleasable : stage.leasable = false)
    (stage' : Stage) (hstage' : stage' = .idle ∨ progress ≠ .done ∧ stage'.alloc = stage.alloc)
    (hp : Passes v v' stage') :
    SectionOk h vm v next
      (v', (h.teardown a progress).1, removals vm true (a.number + 1) (h.teardown a progress).2) :=
  have howns := hi.owns a ha
  .remove hhost hi howns.of howns.slot (fun p hp => Nat.lt_succ_of_le (howns.last p hp)) hleasable
    stage' hstage' hp

theorem advance_lookingWarm (hop : .lookingWarm before ∈ v.ops) (hidle : v.warm = none → v.Idle) :
    AdvanceOk h vm v next progress ok (.lookingWarm before) := by
  have hops := hi.of_other (.lookingWarm before) rfl
  unfold AdvanceOk
  cases hwarm : v.warm with
  | some a =>
    obtain rfl := hi.of_warm hwarm
    exact .quiet hhost hi (.deferring a false) rfl { hi with
      warm := rfl, ops := holds_cons hops rfl, leases := fun _ => rfl
      waits := fun _ => rfl, stops := stops_cons rfl (erase_subset ..) }
  | none =>
    obtain rfl := hi.of_idle (hidle hwarm)
    refine .stay hhost { hi with
      warm := rfl, ops := ?_, byId := fun _ _ => rfl, before := ?_ }
    · rw [filter_cons_of_neg Bool.false_ne_true, hops]
    · exact forall_mem_cons.mpr
        ⟨fun b hb => hi.before _ hop b hb, fun x hx => hi.before x (mem_of_mem_erase hx)⟩

theorem advance_byId (hop : .byId before ∈ v.ops) :
    AdvanceOk h vm v next progress ok (.byId before) := by
  obtain rfl := hi.byId before hop
  simp only [AdvanceOk, VmNet.advance]
  cases hvm : h.byVm vm with
  | none => exact .quiet hhost hi .idle rfl (hi.drop_op _ rfl)
  | some idx =>
    exact .remove hhost hi rfl hvm (hi.before _ hop before rfl) rfl .idle
      (.inl rfl) (hi.drop_op _ rfl)

/-- A stop leaves its teardown to the last release, if leases are held. -/
theorem advance_deferring (hop : .deferring a kept ∈ v.ops) :
    AdvanceOk h vm v next progress ok (.deferring a kept) := by
  obtain ⟨rfl, hops⟩ := hi.of_op hop rfl
  have hactive := hi.active
  have htearing : ∀ record : Option NetworkLeaseState, v.leases = [] →
      record.bind (·.pendingTeardown) = none → record.elim 0 (·.active) = 0 →
      SectionOk h vm v next ({ v with
        record := record, ops := .tearing a kept :: v.ops.erase (.deferring a kept) }, h, []) := by
    intro record hleases hrecord hzero
    refine .quiet hhost hi (.tearing a kept) rfl { hi with
      pending := hrecord, ops := holds_cons hops rfl, leases := fun hl => absurd hleases hl
      active := ?_, waits := fun _ => rfl, stops := stops_cons rfl (erase_subset ..) }
    exact hzero.trans (by rw [hleases]; rfl)
  unfold AdvanceOk
  cases hrecord : v.record with
  | none =>
    rw [hrecord] at hactive
    exact htearing none (length_eq_zero_iff.mp hactive.symm) rfl rfl
  | some r =>
    obtain ⟨hr, hlength⟩ := hi.of_record hrecord
    by_cases hzero : r.active = 0
    · have hdefer : r.deferTeardown a = (r, some a) := if_pos hzero
      simp only [VmNet.advance, hdefer]
      refine htearing r.keep ?_ ((keep_pending fun _ => hr).trans hr) (keep_active.trans hzero)
      exact length_eq_zero_iff.mp (hlength.symm.trans hzero)
    · have hdefer : r.deferTeardown a = ({ r with pendingTeardown := some a }, none) := if_neg hzero
      simp only [VmNet.advance, hdefer]
      refine .quiet hhost hi (.pending a) rfl { hi with
        pending := ?_, ops := ?_, leases := fun _ => rfl, active := ?_, waits := fun hl => ?_
        stops := stops_cons rfl (erase_subset ..) }
      · exact keep_pending fun hc => absurd hc hzero
      · rw [filter_cons_of_neg Bool.false_ne_true, hops]
        rfl
      · exact keep_active.trans hlength
      · rw [show v.leases = [] from hl] at hlength
        exact absurd hlength hzero

theorem advance_tearing (hop : .tearing a kept ∈ v.ops) :
    AdvanceOk h vm v next progress ok (.tearing a kept) := by
  obtain ⟨rfl, hops⟩ := hi.of_op hop rfl
  have hleases := hi.no_leases rfl
  simp only [AdvanceOk, VmNet.advance]
  by_cases hdone : progress = .done
  · rw [if_pos hdone]
    exact .teardown hhost hi rfl rfl .idle (.inl rfl) { hi with
      ops := (filter_cons_of_neg Bool.false_ne_true).trans hops
      leases := fun hl => absurd hleases hl, waits := fun _ => rfl
      stops := stops_cons rfl (erase_subset ..) }
  · rw [if_neg hdone]
    cases kept with
    | true =>
      exact .teardown hhost hi rfl rfl (.puttingBack a) (.inr ⟨hdone, rfl⟩) { hi with
        ops := holds_cons hops rfl, leases := fun hl => absurd hleases hl
        waits := fun _ => rfl, stops := stops_cons rfl (erase_subset ..) }
    | false =>
      exact .teardown hhost hi rfl rfl .idle (.inl rfl) { hi with
        ops := hops, leases := fun hl => absurd hleases hl, waits := fun _ => rfl
        stops := stops_erase }

theorem advance_deferred (hop : .deferred a ∈ v.ops) :
    AdvanceOk h vm v next progress ok (.deferred a) := by
  obtain ⟨rfl, hops⟩ := hi.of_op hop rfl
  have hleases := hi.no_leases rfl
  simp only [AdvanceOk, VmNet.advance]
  by_cases hdone : progress = .done
  · rw [if_pos hdone]
    exact .teardown hhost hi rfl rfl .idle (.inl rfl) { hi with
      ops := (filter_cons_of_neg Bool.false_ne_true).trans hops
      leases := fun hl => absurd hleases hl, waits := fun _ => rfl
      stops := stops_cons rfl (erase_subset ..) }
  · rw [if_neg hdone]
    exact .teardown hhost hi rfl rfl .idle (.inl rfl) { hi with
      ops := hops, leases := fun hl => absurd hleases hl, waits := fun _ => rfl
      stops := stops_erase }

theorem advance_puttingBack (hop : .puttingBack a ∈ v.ops) :
    AdvanceOk h vm v next progress ok (.puttingBack a) := by
  obtain ⟨rfl, hops⟩ := hi.of_op hop rfl
  exact .quiet hhost hi (.running a) rfl { hi with
    running := rfl, ops := hops, leases := fun _ => rfl, waits := fun _ => rfl
    stops := stops_erase }

theorem advance_finishing (hok : kept = true → ok = true) :
    AdvanceOk h vm v next progress ok (.finishing a kept) := by
  simp only [AdvanceOk, VmNet.advance]
  rw [if_neg]
  · exact .quiet hhost hi stage rfl (hi.drop_op _ rfl)
  intro hfails
  rw [Bool.and_eq_true, Bool.not_eq_true'] at hfails
  rw [hok hfails.1] at hfails
  cases hfails.2

/-- The record of a VM goes only if no lease is held, and then no teardown is left to it. -/
theorem advance_completing : AdvanceOk h vm v next progress ok .completing := by
  have hdrop := hi.drop_op .completing rfl
  simp only [AdvanceOk, VmNet.advance]
  cases hrecord : v.record with
  | none =>
    rw [hrecord] at hdrop
    exact .quiet hhost hi stage rfl hdrop
  | some r =>
    obtain ⟨hpending, hactive⟩ := hi.of_record hrecord
    refine .quiet hhost hi stage rfl { hdrop with pending := ?_, active := ?_ }
    · show (if r.active = 0 then none else some _).bind _ = _
      split
      · rename_i hzero
        exact (hi.waits (length_eq_zero_iff.mp (hactive.symm.trans hzero))).symm
      · exact hpending
    · show (if r.active = 0 then none else some _).elim 0 _ = _
      split
      · rename_i hzero
        exact hzero.symm.trans hactive
      · exact hactive

theorem advance_booted (hop : .booted a ∈ v.ops) :
    AdvanceOk h vm v next progress ok (.booted a) := by
  obtain ⟨rfl, hops⟩ := hi.of_op hop rfl
  exact .quiet hhost hi (.booted a) rfl { hi with
    ops := holds_cons hops rfl, waits := fun _ => rfl, stops := stops_cons rfl (erase_subset ..) }

theorem advance_ok (hop : op ∈ v.ops) (horderly : Event.Orderly v (.advance op progress ok)) :
    AdvanceOk h vm v next progress ok op := by
  cases op with
  | lookingWarm before => exact advance_lookingWarm hhost hi hop horderly
  | byId before => exact advance_byId hhost hi hop
  | deferring a kept => exact advance_deferring hhost hi hop
  | tearing a kept => exact advance_tearing hhost hi hop
  | puttingBack a => exact advance_puttingBack hhost hi hop
  | finishing a kept => exact advance_finishing hhost hi horderly
  | deferred a => exact advance_deferred hhost hi hop
  | completing => exact advance_completing hhost hi
  | booted a => exact advance_booted hhost hi hop

theorem step_provision (outcome : Provisioning) (hidle : v.Idle)
    (hstops : ∀ op ∈ v.ops, op.ofStop = false) :
    SectionOk h vm v (next + 1)
      ({ v with ops := ((h.provision vm next outcome).2.2.map Op.booted).toList ++ v.ops },
        (h.provision vm next outcome).1,
        removals vm false next (h.provision vm next outcome).2.1) := by
  obtain rfl := hi.of_idle hidle
  obtain ⟨hinv, hremoved, hothers, hmade⟩ := provision_owned hhost vm outcome
  have hnone : ∀ op ∈ v.ops, op.before? = none := by
    intro op hop
    have := hstops op hop
    cases op <;> first | rfl | cases this
  refine ⟨?_, hinv, hothers, fun r hr => ?_⟩
  · cases ha : (h.provision vm next outcome).2.2 with
    | none =>
      exact ⟨.idle, { hi with
        owns := nofun
        before := fun x hx b hb => (some_ne_none _ (hb.symm.trans (hnone x hx))).elim }⟩
    | some a =>
      obtain ⟨hvm, hnumber, hslot⟩ := hmade a ha
      refine ⟨.booted a, { hi with
        ops := holds_cons hi.ops rfl, owns := fun b hb => ?_
        leases := fun hl => absurd hidle.1 hl, last := nofun
        byId := fun b hb => ?_, before := fun x hx b hb => ?_ }⟩
      · cases hb
        exact ⟨hvm, hslot, fun p hp => hnumber ▸ Nat.lt_succ_iff.mp (hinv.up_vm hp).2⟩
      · rcases mem_cons.mp hb with hb | hb
        · cases hb
        · exact (some_ne_none _ (hnone _ hb)).elim
      · rcases mem_cons.mp hx with rfl | hx
        · cases hb
        · exact (some_ne_none _ (hb.symm.trans (hnone x hx))).elim
  · obtain ⟨p, hp, rfl⟩ := mem_map.mp hr
    exact ⟨hremoved p hp, hidle.1, nofun⟩

/-- A new stop looks back at what has been provisioned so far. -/
theorem VmInv.begin_stop (new : Op)
    (hnew : new = .lookingWarm next ∨ new = .byId next ∧ stage = .idle) :
    VmInv h vm { v with ops := new :: v.ops } stage := by
  have hholds : new.holds = false := by
    rcases hnew with rfl | ⟨rfl, _⟩ <;> rfl
  refine { hi with ops := ?_, byId := fun before hb => ?_, before := fun x hx before hb p hp => ?_ }
  · rw [filter_cons_of_neg (by rw [hholds]; exact Bool.false_ne_true)]
    exact hi.ops
  · rcases mem_cons.mp hb with hb | hb
    · rcases hnew with rfl | ⟨_, hidle⟩
      · cases hb
      · exact hidle
    · exact hi.byId before hb
  · rcases mem_cons.mp hx with rfl | hx
    · rcases hnew with rfl | ⟨rfl, _⟩ <;>
      · cases hb
        exact (hhost.up_vm hp).2
    · exact hi.before x hx before hb p hp

theorem step_acquire (ha : v.running = some a) :
    SectionOk h vm v next ({ v with
      record := some (v.record.getD ⟨0, none, false⟩).acquire, leases := a.number :: v.leases }, h,
        []) := by
  obtain rfl := hi.of_running ha
  have hpending := hi.pending
  have hactive := hi.active
  unfold VmNet.pending at hpending
  refine .quiet hhost hi (.running a) rfl { hi with
    pending := ?_, leases := fun _ => rfl, active := ?_, waits := fun _ => rfl
    stops := fun _ hx _ => hx }
  · cases hrecord : v.record with
    | none => rfl
    | some r =>
      rw [hrecord] at hpending
      exact hpending
  · cases hrecord : v.record with
    | none | some r =>
      rw [hrecord] at hactive
      exact congrArg (· + 1) hactive

/-- The last release takes over a teardown that was left to it. -/
theorem step_release {number : Nat} (hmem : number ∈ v.leases) (hrecord : v.record = some r) :
    SectionOk h vm v next ({ v with
      leases := v.leases.erase number, record := r.release.1.keep
      ops := (r.release.2.map Op.deferred).toList ++ v.ops }, h, []) := by
  obtain ⟨hpending, hactive⟩ := hi.of_record hrecord
  have herase : (v.leases.erase number).length = v.leases.length - 1 := length_erase_of_mem hmem
  have hleasable := hi.leases (ne_nil_of_mem hmem)
  by_cases hmore : r.active - 1 ≠ 0
  · have hrelease : r.release = ({ r with active := r.active - 1 }, none) := if_pos hmore
    rw [hrelease]
    refine .quiet hhost hi stage rfl { hi with
      pending := ?_, leases := fun _ => hleasable, active := ?_, waits := fun hl => ?_
      stops := fun _ hx _ => hx }
    · exact (keep_pending fun hc => absurd hc hmore).trans hpending
    · exact keep_active.trans (by rw [hactive]; exact herase.symm)
    · have hl : v.leases.erase number = [] := hl
      rw [hl, length_nil, ← hactive] at herase
      exact absurd herase.symm hmore
  · have hzero : r.active - 1 = 0 := not_not.mp hmore
    have hrelease : r.release = (⟨0, none, r.pendingTeardown.isSome⟩, r.pendingTeardown) :=
      if_neg hmore
    have hempty : v.leases.erase number = [] :=
      length_eq_zero_iff.mp (by rw [herase, ← hactive, hzero])
    rw [hrelease, hpending]
    have hnone : ∀ stage' : Stage, stage'.inRecord = none →
        (NetworkLeaseState.keep ⟨0, none, stage.inRecord.isSome⟩).bind (·.pendingTeardown) =
          stage'.inRecord :=
      fun stage' hs => (keep_pending fun _ => rfl).trans hs.symm
    have hlength : (NetworkLeaseState.keep ⟨0, none, stage.inRecord.isSome⟩).elim 0 (·.active) =
        (v.leases.erase number).length := keep_active.trans (by rw [hempty]; rfl)
    by_cases hstage : ∃ a, stage = .pending a
    · obtain ⟨a, rfl⟩ := hstage
      exact .quiet hhost hi (.deferred a) rfl { hi with
        pending := hnone _ rfl, ops := holds_cons hi.ops rfl, leases := fun hl => absurd hempty hl
        active := hlength, waits := fun _ => rfl, stops := stops_cons rfl fun _ hx => hx }
    · have hnot : stage.inRecord = none := by
        cases stage with
        | pending a => exact absurd ⟨a, rfl⟩ hstage
        | _ => rfl
      rw [hnot] at hnone hlength ⊢
      exact .quiet hhost hi stage rfl { hi with
        pending := hnone stage hnot, leases := fun _ => hleasable, active := hlength
        waits := fun _ => hnot, stops := fun _ hx _ => hx }

/-- A section keeps the invariants of its VM and the host, and leaves the other VMs alone. -/
theorem step_ok {event : Event} {made : VmNet × Host × List Removed} (horderly : event.Orderly v)
    (hstep : v.step vm h next event = some made) :
    SectionOk h vm v (event.nextNumber next) made := by
  cases event with
  | provision outcome =>
    cases hstep
    exact step_provision hhost hi outcome horderly.1 horderly.2
  | publish a warm =>
    obtain ⟨hop, hmade⟩ := ite_none_right_eq_some.mp hstep
    cases hmade
    obtain ⟨rfl, hops⟩ := hi.of_op hop rfl
    cases warm with
    | true =>
      have hleases := hi.no_leases rfl
      exact .quiet hhost hi (.warm a) rfl { hi with
        warm := rfl, ops := hops, leases := fun hl => absurd hleases hl, waits := fun _ => rfl
        stops := stops_erase }
    | false =>
      exact .quiet hhost hi (.running a) rfl { hi with
        running := rfl, ops := hops, leases := fun _ => rfl, waits := fun _ => rfl
        stops := stops_erase }
  | abort a =>
    obtain ⟨hop, hmade⟩ := ite_none_right_eq_some.mp hstep
    cases hmade
    obtain ⟨rfl, hops⟩ := hi.of_op hop rfl
    exact .quiet hhost hi (.deferring a false) rfl { hi with
      ops := holds_cons hops rfl, leases := fun _ => rfl, waits := fun _ => rfl
      stops := stops_cons rfl (erase_subset ..) }
  | cleanup =>
    cases hstep
    exact .stay hhost (hi.begin_stop hhost _ (.inr ⟨rfl, hi.of_idle horderly⟩))
  | claim =>
    obtain ⟨a, ha, rfl⟩ := map_eq_some_iff.mp hstep
    obtain rfl := hi.of_warm ha
    exact .quiet hhost hi (.running a) rfl { hi with
      running := rfl, warm := rfl, leases := fun _ => rfl, waits := fun _ => rfl
      stops := fun _ hx _ => hx }
  | acquire =>
    obtain ⟨a, ha, rfl⟩ := map_eq_some_iff.mp hstep
    exact step_acquire hhost hi ha
  | release number =>
    obtain ⟨hmem, hmade⟩ := ite_none_right_eq_some.mp hstep
    cases hrecord : v.record with
    | none =>
      have hactive := hi.active
      rw [hrecord] at hactive
      exact absurd (length_eq_zero_iff.mp hactive.symm) (ne_nil_of_mem hmem)
    | some r =>
      simp only [hrecord] at hmade
      cases hmade
      exact step_release hhost hi hmem hrecord
  | stop =>
    simp only [VmNet.step] at hstep
    cases hrunning : v.running with
    | some a =>
      obtain rfl := hi.of_running hrunning
      simp only [hrunning] at hstep
      cases hstep
      exact .quiet hhost hi (.deferring a true) rfl { hi with
        running := rfl, ops := holds_cons hi.ops rfl, leases := fun _ => rfl, waits := fun _ => rfl
        stops := stops_cons rfl fun _ hx => hx }
    | none =>
      simp only [hrunning] at hstep
      cases hstep
      have hbegin := hi.begin_stop hhost (.lookingWarm next) (.inl rfl)
      rw [hrunning] at hbegin
      exact .stay hhost hbegin
  | advance op progress ok =>
    obtain ⟨hop, hmade⟩ := ite_none_right_eq_some.mp hstep
    cases hmade
    exact advance_ok hhost hi hop horderly

end Sections

/-! ## Runs -/

/-- No removal was made under a lease or hit a later provisioning. -/
structure Inv (s : State) : Prop where
  host : HostInv s.host s.next
  vms : ∀ vm, ∃ stage, VmInv s.host vm (s.vms vm) stage
  removed : ∀ r ∈ s.removed, r.leased = false ∧
    (r.teardown → r.what.vm = r.vm ∧ r.what.number < r.before)

theorem Inv.start (slots : Nat) : Inv (.start slots) :=
  ⟨.start slots, fun _ => ⟨.idle, .start⟩, nofun⟩

/-- The step lemma: the section of one VM leaves the other VMs as they are. -/
theorem Inv.step {s s' : State} {vm : Uuid} {event : Event} (hi : Inv s)
    (horderly : event.Orderly (s.vms vm)) (hstep : s.step vm event = some s') : Inv s' := by
  obtain ⟨⟨v, host, removed⟩, hmade, rfl⟩ := map_eq_some_iff.mp hstep
  obtain ⟨stage, hvm⟩ := hi.vms vm
  obtain ⟨hstage, hhost, hothers, hremoved⟩ := step_ok hi.host hvm horderly hmade
  refine ⟨hhost, fun other => ?_, fun r hr => ?_⟩
  · show ∃ stage, VmInv host other (update s.vms vm v other) stage
    by_cases hne : other = vm
    · rw [hne, update_self]
      exact hstage
    · rw [update_of_ne hne]
      obtain ⟨stage', hother⟩ := hi.vms other
      exact ⟨stage', hother.keeps (hothers other hne)⟩
  · rcases mem_append.mp hr with hr | hr
    · obtain ⟨x, hx, rfl⟩ := mem_map.mp hr
      obtain ⟨hwhat, hleases, hteardown⟩ := hremoved x hx
      refine ⟨?_, fun ht => ?_⟩
      · unfold State.leased
        rw [hwhat, hleases]
        rfl
      · obtain ⟨hby, hnumber⟩ := hteardown ht
        exact ⟨hwhat.trans hby.symm, hnumber⟩
    · exact hi.removed r hr

def OrderlyIn : State → List (Uuid × Event) → Prop
  | _, [] => True
  | s, (vm, event) :: events =>
    event.Orderly (s.vms vm) ∧ (s.step vm event).elim True fun s' => OrderlyIn s' events

/-- By induction over the events, from `Inv.step`. -/
theorem Inv.run {s s' : State} {events : List (Uuid × Event)} (hi : Inv s)
    (horderly : OrderlyIn s events) (hrun : run s events = some s') : Inv s' := by
  induction events generalizing s with
  | nil =>
    cases hrun
    exact hi
  | cons event events ih =>
    obtain ⟨next, hstep, hrest⟩ := Option.bind_eq_some_iff.mp hrun
    have hnext := horderly.2
    rw [hstep] at hnext
    exact ih (hi.step horderly.1 hstep) hnext hrest

/-- In every orderly run no tap or rules are removed while a lease on them is held, and a teardown
removes only what the VM it is for was given before the teardown's own allocation or stop. -/
theorem teardowns_keep_to_own (slots : Nat) (events : List (Uuid × Event)) {s : State}
    (horderly : OrderlyIn (.start slots) events) (hrun : run (.start slots) events = some s) :
    ∀ r ∈ s.removed, r.leased = false ∧
      (r.teardown → r.what.vm = r.vm ∧ r.what.number < r.before) :=
  ((Inv.start slots).run horderly hrun).removed

/-- VM 1 runs with a lease on its first allocation and is stopped: the teardown is left to the
release. -/
def stoppedUnderLease : List (Uuid × Event) :=
  [(1, .provision .works), (1, .publish ⟨1, 0, 0⟩ false), (1, .acquire), (1, .stop),
    (1, .advance (.deferring ⟨1, 0, 0⟩ true) .untouched true),
    (1, .advance (.finishing ⟨1, 0, 0⟩ true) .untouched true)]

def releasedRun : List (Uuid × Event) :=
  stoppedUnderLease ++
    [(1, .release 0), (1, .advance (.deferred ⟨1, 0, 0⟩) .done true),
      (1, .advance .completing .done true)]

theorem released_then_torn_down : ∃ s, run (.start 2) releasedRun = some s ∧
    s.host.byVm 1 = none ∧ s.removed ≠ [] ∧ ∀ r ∈ s.removed, r.leased = false ∧
      (r.teardown → r.what.vm = r.vm ∧ r.what.number < r.before) := by
  refine ⟨_, rfl, rfl, cons_ne_nil _ _, teardowns_keep_to_own 2 releasedRun ?_ rfl⟩
  exact ⟨⟨⟨rfl, rfl, rfl, rfl, nofun⟩, nofun⟩, trivial, trivial, trivial, trivial, fun _ => rfl,
    trivial, trivial, trivial, trivial⟩

/-- The stop is retried: it finds no runtime and tears down by id. -/
def retriedRun : List (Uuid × Event) :=
  stoppedUnderLease ++
    [(1, .stop), (1, .advance (.lookingWarm 1) .untouched true), (1, .advance (.byId 1) .done true)]

/-- The VM wakes before the release, and the release runs the teardown of the old allocation. -/
def wokenRun : List (Uuid × Event) :=
  stoppedUnderLease ++
    [(1, .provision .works), (1, .publish ⟨1, 0, 1⟩ false), (1, .release 0),
      (1, .advance (.deferred ⟨1, 0, 0⟩) .done true)]

/-- A stop of VM 1 fails after its network is gone; VM 2 gets the slot, and the stop is retried. -/
def reusedRun : List (Uuid × Event) :=
  [(1, .provision .works), (1, .publish ⟨1, 0, 0⟩ false), (1, .stop),
    (1, .advance (.deferring ⟨1, 0, 0⟩ true) .untouched true),
    (1, .advance (.tearing ⟨1, 0, 0⟩ true) .done true),
    (1, .advance (.finishing ⟨1, 0, 0⟩ true) .untouched false),
    (2, .provision .works), (2, .publish ⟨2, 0, 1⟩ false), (1, .stop),
    (1, .advance (.deferring ⟨1, 0, 0⟩ true) .untouched true),
    (1, .advance (.tearing ⟨1, 0, 0⟩ true) .done true)]

theorem teardowns_of_others :
    (∃ s, run (.start 2) retriedRun = some s ∧ ∃ r ∈ s.removed, r.leased = true) ∧
    (∃ s, run (.start 2) wokenRun = some s ∧
      ∃ r ∈ s.removed, r.teardown = true ∧ r.what.vm = r.vm ∧ r.before ≤ r.what.number) ∧
    ∃ s, run (.start 2) reusedRun = some s ∧
      ∃ r ∈ s.removed, r.teardown = true ∧ r.vm = 1 ∧ r.what.vm = 2 :=
  ⟨⟨_, rfl, _, .head _, rfl⟩, ⟨_, rfl, _, .head _, rfl, rfl, Nat.le_refl 1⟩,
    ⟨_, rfl, _, .head _, rfl, rfl, rfl⟩⟩

end Tarit.Supervisor.Network
