import Mathlib.Data.List.Pairwise
import Tarit.Fleet.Ownership
import Tarit.Usage.Outbox

/-!
# Runtime windows of a VM

The meter bills a VM for the time from its watermark, or from its creation if it has none, to
now, and advances the watermark. A deletion meters a last time and clears the watermark while
the VM is still recorded as it was.

The life of one VM is a sequence of whole meterings and of records of its status, at times
that do not decrease; every store call of a metering may fail. What is billed need not be what
was recorded: a tick between the last metering and the record of the stop, or after a stop
that failed, bills from the creation again, and so does one whose read of the watermark fails;
one whose write of the watermark fails is repeated; the time that a VM was hibernated is billed
with the window in which it lies. The creation is recorded before the boot, so the first window
always has the boot in it.
-/
namespace Tarit.Usage

open Lib Fleet

/-! ## Metering -/

/-- The store calls of a metering that fail. -/
structure MeterFaults where
  get : Bool
  enqueue : Bool
  set : Bool
  clear : Bool

/-- The watermark of the VM and the events that were enqueued for it, newest first. -/
structure Billing where
  watermark : Option Timestamp
  usage : List UsageEvent

def runtimeEvent (host_id : String) (id vm_id : Uuid) (api_key_id owner_key : String)
    (start stop created_at : Timestamp) : UsageEvent where
  id := id
  api_key_id := api_key_id
  owner_key := owner_key
  host_id := host_id
  vm_id := vm_id
  kind := .VmRuntime
  seconds := some ((stop - start).tdiv 1000000)
  duration_ms := none
  window_start := start
  window_end := stop
  created_at := created_at

def billable (status : VmStatus) : Bool :=
  status == .Running || status == .Paused || status == .Suspended

/-- `store.get_billing_watermark(vm_id).ok().flatten().unwrap_or(created_at)` -/
def startOf (faults : MeterFaults) (vm : VmRecord) (billing : Billing) : Timestamp :=
  (if faults.get then none else billing.watermark).getD vm.created_at

/-- `num_milliseconds`, which the meter divides by 1000, is positive. -/
def elapsed (start now : Timestamp) : Bool := 0 < (now - start).tdiv 1000000

/-- What `meter_runtime_once` does for one VM. `id` is that of the event. -/
def meterRuntimeOnce (host_id : String) (faults : MeterFaults) (id : Uuid) (now : Timestamp)
    (vm : VmRecord) (billing : Billing) : Billing :=
  if vm.host_id == host_id && billable vm.status then
    match vm.api_key_id, vm.owner_key with
    | some api_key_id, some owner_key =>
      let start := startOf faults vm billing
      if elapsed start now && !faults.enqueue then
        { watermark := if faults.set then billing.watermark else some now
          usage := runtimeEvent host_id id vm.id api_key_id owner_key start now now ::
            billing.usage }
      else billing
    | _, _ => billing
  else billing

def meterVmFinal (host_id : String) (faults : MeterFaults) (id : Uuid) (now : Timestamp)
    (vm : VmRecord) (billing : Billing) : Billing :=
  if vm.host_id == host_id then
    match vm.api_key_id, vm.owner_key with
    | some api_key_id, some owner_key =>
      let start := startOf faults vm billing
      { watermark := if faults.clear then billing.watermark else none
        usage :=
          if elapsed start now && !faults.enqueue then
            runtimeEvent host_id id vm.id api_key_id owner_key start now now :: billing.usage
          else billing.usage }
    | _, _ => billing
  else billing

/-! ## The life of a VM -/

/-- `history` are the statuses that were recorded, newest first, each with its time, and
`final` is whether the last metering of a deletion has been made. -/
structure Life where
  clock : Timestamp
  record : Option VmRecord
  billing : Billing
  history : List (Timestamp × VmStatus)
  final : Bool

inductive Op where
  | create (vm : VmRecord)
  /-- The status becomes another one: the boot is published, the VM is paused, suspended,
  resumed, hibernated, woken or stopped. -/
  | record (status : VmStatus)
  | tick (faults : MeterFaults) (id : Uuid)
  | final (faults : MeterFaults) (id : Uuid)

def unborn (now : Timestamp) : Life := ⟨now, none, ⟨none, []⟩, [], false⟩

/-- One event in the life of the VM at time `now`. -/
def Life.step (host_id : String) (life : Life) (now : Timestamp) : Op → Life
  | .create vm =>
    match life.record with
    | some _ => { life with clock := now }
    | none =>
      { life with
        clock := now
        record := some { vm with status := .Creating, created_at := now }
        history := (now, .Creating) :: life.history }
  | .record status =>
    match life.record with
    | none => { life with clock := now }
    | some vm =>
      { life with
        clock := now, record := some { vm with status }
        history := (now, status) :: life.history }
  | .tick faults id =>
    match life.record with
    | none => { life with clock := now }
    | some vm =>
      { life with
        clock := now, billing := meterRuntimeOnce host_id faults id now vm life.billing }
  | .final faults id =>
    match life.record with
    | none => { life with clock := now }
    | some vm =>
      { life with
        clock := now, billing := meterVmFinal host_id faults id now vm life.billing, final := true }

def statusAt (history : List (Timestamp × VmStatus)) (time : Timestamp) : Option VmStatus :=
  (history.find? fun entry => entry.1 ≤ time).map Prod.snd

/-- The VM was recorded running, paused or suspended from `start` until `stop`. -/
def Alive (history : List (Timestamp × VmStatus)) (start stop : Timestamp) : Prop :=
  ∀ time, start ≤ time → time < stop → (statusAt history time).any billable = true

/-- The windows are disjoint and lie inside the times the VM was alive. -/
structure WellBilled (life : Life) : Prop where
  disjoint : life.billing.usage.Pairwise fun later earlier =>
    earlier.window_end ≤ later.window_start ∨ later.window_end ≤ earlier.window_start
  alive : ∀ event ∈ life.billing.usage, Alive life.history event.window_start event.window_end

/-- The VM has been recorded running, paused or suspended by that time. -/
def Ran (history : List (Timestamp × VmStatus)) (time : Timestamp) : Prop :=
  ∃ entry ∈ history, entry.1 ≤ time ∧ billable entry.2 = true

/-- Once it ran, the VM was recorded running, paused or suspended from `start` until `stop`. -/
def Runs (history : List (Timestamp × VmStatus)) (start stop : Timestamp) : Prop :=
  ∀ time, start ≤ time → time < stop → Ran history time →
    (statusAt history time).any billable = true

/-- The windows are disjoint and, but for the boot, lie inside the times the VM was alive. -/
structure BilledFromBoot (life : Life) : Prop where
  disjoint : life.billing.usage.Pairwise fun later earlier =>
    earlier.window_end ≤ later.window_start ∨ later.window_end ≤ earlier.window_start
  runs : ∀ event ∈ life.billing.usage, Runs life.history event.window_start event.window_end

/-- The condition on a step. A VM that ran does not come back from hibernation or a stop; a
metering that counts finds its watermark, writes it if it has enqueued a window, comes before the
last one, and meters a VM that is alive. -/
def Orderly (life : Life) : Op → Prop
  | .create _ => True
  | .record status => ∀ vm, life.record = some vm → billable status = true →
      billable vm.status = true ∨ ∀ entry ∈ life.history, billable entry.2 = false
  | .tick faults _ => ∀ vm, life.record = some vm → billable vm.status = true →
      life.final = false ∧ faults.get = false ∧ faults.set = false
  | .final faults _ => ∀ vm, life.record = some vm →
      life.final = false ∧ faults.get = false ∧ billable vm.status = true

/-- The lives of a VM on a host whose steps all meet `ok`. -/
inductive Lives (host_id : String) (ok : Life → Op → Prop) : Life → Prop where
  | init (now : Timestamp) : Lives host_id ok (unborn now)
  | step {life : Life} (now : Timestamp) (op : Op) : Lives host_id ok life →
      life.clock ≤ now → ok life op → Lives host_id ok (life.step host_id now op)

/-! ## The invariant -/

variable {now : Timestamp}

theorem statusAt_cons (status : VmStatus) (history : List (Timestamp × VmStatus))
    (time : Timestamp) : statusAt ((now, status) :: history) time =
      if now ≤ time then some status else statusAt history time := by
  unfold statusAt
  rw [List.find?_cons]
  split
  · next h => rw [if_pos (of_decide_eq_true h), Option.map_some]
  · next h => rw [if_neg (of_decide_eq_false h)]

/-- A later record changes nothing before it. -/
theorem Runs.extend {history : List (Timestamp × VmStatus)} {start stop now : Timestamp}
    (h : Runs history start stop) (hstop : stop ≤ now) (status : VmStatus) :
    Runs ((now, status) :: history) start stop := by
  intro time hstart htime hran
  have hlater : ¬ now ≤ time := Int.not_le.mpr (Int.lt_of_lt_of_le htime hstop)
  rw [statusAt_cons, if_neg hlater]
  obtain ⟨entry, hentry, hbefore, hbillable⟩ := hran
  obtain rfl | hentry := List.mem_cons.mp hentry
  · exact absurd hbefore hlater
  · exact h time hstart htime ⟨entry, hentry, hbefore, hbillable⟩

/-- What holds of a life between its steps. -/
structure Accounted (life : Life) : Prop where
  billed : BilledFromBoot life
  past : ∀ event ∈ life.billing.usage, event.window_end ≤ life.clock
  unborn : life.record = none → life.billing = ⟨none, []⟩
  latest : ∀ vm, life.record = some vm → ∀ time, life.clock ≤ time →
    statusAt life.history time = some vm.status
  created : ∀ vm, life.record = some vm → vm.created_at ≤ life.clock
  alive : ∀ vm, life.record = some vm → billable vm.status = true →
    Runs life.history vm.created_at life.clock
  /-- The watermark, or the creation, is behind every window and not ahead of the clock. -/
  watermark : ∀ vm, life.record = some vm → life.final = false →
    vm.created_at ≤ life.billing.watermark.getD vm.created_at ∧
    life.billing.watermark.getD vm.created_at ≤ life.clock ∧
    ∀ event ∈ life.billing.usage, event.window_end ≤ life.billing.watermark.getD vm.created_at

variable {host_id : String} {life : Life} {now : Timestamp}

theorem accounted_unborn : Accounted (unborn now) where
  billed := ⟨List.Pairwise.nil, nofun⟩
  past _ h := by cases h
  unborn _ := rfl
  latest _ h := by cases h
  created _ h := by cases h
  alive _ h := by cases h
  watermark _ h := by cases h

theorem Accounted.alive_until (h : Accounted life) {vm : VmRecord} (hvm : life.record = some vm)
    (hbillable : billable vm.status = true) : Runs life.history vm.created_at now := by
  intro time hstart _ hran
  by_cases htime : time < life.clock
  · exact h.alive vm hvm hbillable time hstart htime hran
  · rw [h.latest vm hvm time (Int.not_lt.mp htime)]
    exact hbillable

section Later

variable (h : Accounted life) (hnow : life.clock ≤ now)

include h hnow

theorem Accounted.wait : Accounted { life with clock := now } where
  billed := { h.billed with }
  past event he := Int.le_trans (h.past event he) hnow
  unborn := h.unborn
  latest vm hvm time htime := h.latest vm hvm time (Int.le_trans hnow htime)
  created vm hvm := Int.le_trans (h.created vm hvm) hnow
  alive _ hvm hbillable := h.alive_until hvm hbillable
  watermark vm hvm hfinal :=
    ⟨(h.watermark vm hvm hfinal).1, Int.le_trans (h.watermark vm hvm hfinal).2.1 hnow,
      (h.watermark vm hvm hfinal).2.2⟩

theorem Accounted.create (vm : VmRecord) :
    Accounted (life.step host_id now (.create vm)) := by
  unfold Life.step
  cases hrecord : life.record with
  | some vm =>
    have hwait := h.wait hnow
    rw [hrecord] at hwait
    exact hwait
  | none =>
    have hbilling := h.unborn hrecord
    constructor
    · refine ⟨?_, fun event he => ?_⟩
      · rw [hbilling]
        exact List.Pairwise.nil
      · rw [hbilling] at he
        cases he
    · intro event he
      rw [hbilling] at he
      cases he
    · exact fun _ => hbilling
    · intro vm' hvm time htime
      cases hvm
      rw [statusAt_cons, if_pos htime]
    · intro vm' hvm
      cases hvm
      exact Int.le_refl now
    · intro vm' hvm hbillable
      cases hvm
      cases hbillable
    · intro vm' hvm _
      cases hvm
      rw [hbilling]
      exact ⟨Int.le_refl now, Int.le_refl now, nofun⟩

theorem Accounted.record {status : VmStatus}
    (hok : Orderly life (.record status)) :
    Accounted (life.step host_id now (.record status)) := by
  unfold Life.step
  cases hrecord : life.record with
  | none =>
    have hwait := h.wait hnow
    rw [hrecord] at hwait
    exact hwait
  | some vm =>
    constructor
    · refine ⟨h.billed.disjoint, fun event he => ?_⟩
      exact (h.billed.runs event he).extend (Int.le_trans (h.past event he) hnow) status
    · exact fun event he => Int.le_trans (h.past event he) hnow
    · exact nofun
    · intro vm' hvm time htime
      cases hvm
      rw [statusAt_cons, if_pos htime]
    · intro vm' hvm
      cases hvm
      exact Int.le_trans (h.created vm hrecord) hnow
    · intro vm' hvm hbillable
      cases hvm
      obtain halive | hfirst := hok vm hrecord hbillable
      · exact (h.alive_until hrecord halive).extend (Int.le_refl now) status
      · -- it runs for the first time, so there is no earlier time to account for
        have hnever : Runs life.history vm.created_at now := by
          rintro time - - ⟨entry, hentry, -, hran⟩
          rw [hfirst entry hentry] at hran
          cases hran
        exact hnever.extend (Int.le_refl now) status
    · intro vm' hvm hfinal
      cases hvm
      have hw := h.watermark vm hrecord hfinal
      exact ⟨hw.1, Int.le_trans hw.2.1 hnow, hw.2.2⟩

/-- A metered window starts where the last one ended. -/
theorem Accounted.window {vm : VmRecord}
    (hrecord : life.record = some vm) (hbillable : billable vm.status = true)
    (hfinal : life.final = false) {event : UsageEvent}
    (hstart : event.window_start = life.billing.watermark.getD vm.created_at)
    (hend : event.window_end = now) {watermark : Option Timestamp} {final : Bool}
    (hwatermark : final = false → watermark = some now) :
    Accounted { life with
      clock := now, billing := ⟨watermark, event :: life.billing.usage⟩, final } := by
  have hw := h.watermark vm hrecord hfinal
  have hpast : ∀ e ∈ event :: life.billing.usage, e.window_end ≤ now :=
    List.forall_mem_cons.mpr ⟨Int.le_of_eq hend, fun e he => Int.le_trans (h.past e he) hnow⟩
  constructor
  · constructor
    · refine List.pairwise_cons.mpr ⟨fun e he => .inl ?_, h.billed.disjoint⟩
      rw [hstart]
      exact hw.2.2 e he
    · refine List.forall_mem_cons.mpr ⟨fun time htime => ?_, h.billed.runs⟩
      exact h.alive_until hrecord hbillable time (Int.le_trans hw.1 (hstart ▸ htime))
  · exact hpast
  · intro hnone
    rw [hrecord] at hnone
    cases hnone
  · exact fun vm' hvm time htime => h.latest vm' hvm time (Int.le_trans hnow htime)
  · exact fun vm' hvm => Int.le_trans (h.created vm' hvm) hnow
  · exact fun vm' hvm hbillable' => h.alive_until hvm hbillable'
  · intro vm' hvm hopen
    rw [hwatermark hopen]
    exact ⟨Int.le_trans (h.created vm' hvm) hnow, Int.le_refl now, hpast⟩

theorem Accounted.tick {faults : MeterFaults}
    {id : Uuid} (hok : Orderly life (.tick faults id)) :
    Accounted (life.step host_id now (.tick faults id)) := by
  unfold Life.step
  cases hrecord : life.record with
  | none =>
    have hwait := h.wait hnow
    rw [hrecord] at hwait
    exact hwait
  | some vm =>
    have hwait := h.wait hnow
    show Accounted { life with
      clock := now, record := some vm, billing :=
        meterRuntimeOnce host_id faults id now vm life.billing }
    rw [← hrecord]
    unfold meterRuntimeOnce
    dsimp only
    split
    swap
    · exact hwait
    rename_i hmetered
    have hbillable : billable vm.status = true := (Bool.and_eq_true_iff.mp hmetered).2
    obtain ⟨hfinal, hget, hset⟩ := hok vm hrecord hbillable
    split
    · split
      · refine h.window hnow hrecord hbillable hfinal ?_ rfl fun _ => ?_
        · rw [startOf, hget]
          rfl
        · rw [hset]
          rfl
      · exact hwait
    · exact hwait

theorem Accounted.final {faults : MeterFaults}
    {id : Uuid} (hok : Orderly life (.final faults id)) :
    Accounted (life.step host_id now (.final faults id)) := by
  unfold Life.step
  cases hrecord : life.record with
  | none =>
    have hwait := h.wait hnow
    rw [hrecord] at hwait
    exact hwait
  | some vm =>
    obtain ⟨hfinal, hget, hbillable⟩ := hok vm hrecord
    have hclose (watermark : Option Timestamp) : Accounted { life with
        clock := now, billing := ⟨watermark, life.billing.usage⟩, final := true } := by
      have hwait := h.wait hnow
      refine { hwait with
        billed := { hwait.billed with }
        unborn := fun hnone => ?_
        watermark := fun _ _ hopen => by cases hopen }
      rw [hrecord] at hnone
      cases hnone
    show Accounted { life with
      clock := now, record := some vm, billing := meterVmFinal host_id faults id now vm life.billing
      final := true }
    rw [← hrecord]
    unfold meterVmFinal
    dsimp only
    split
    · split
      · generalize (if faults.clear = true then life.billing.watermark else none) = watermark
        split
        · refine h.window hnow hrecord hbillable hfinal ?_ rfl nofun
          rw [startOf, hget]
          rfl
        · exact hclose _
      · exact hclose _
    · exact hclose _

end Later

/-- By induction over the events of the VM. -/
theorem Lives.accounted (h : Lives host_id Orderly life) : Accounted life := by
  induction h with
  | init now => exact accounted_unborn
  | step now op _ hnow hok ih =>
    cases op with
    | create vm => exact ih.create hnow vm
    | record status => exact ih.record hnow hok
    | tick faults id => exact ih.tick hnow hok
    | final faults id => exact ih.final hnow hok

def meteredVm : VmRecord :=
  { bootedVm "a" .Creating 1 with owner_key := some "tenant", api_key_id := some "key" }

def noFaults : MeterFaults := ⟨false, false, false, false⟩

abbrev second : Timestamp := 1000000000

end Tarit.Usage
