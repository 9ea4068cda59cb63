import Tarit.Supervisor.WarmPool

/-!
# Sections of a warm claim

`Create.Facts` says what a create relies on at each of its steps: the gate keeps the VM it selected
parked until it takes the runtime, and the claim and then the entry of its task keep other creates
away from it. Each section of a create establishes the facts of the next one and touches no other
VM.
-/
namespace Tarit.Supervisor.Warm

open Fleet Node Function List Option

variable {Config : Type}

/-! ## What a create relies on -/

def Pc.vm? : Pc Config → Option Uuid
  | .waiting | .selecting | .noMatch | .refused => none
  | .binding vm | .creating vm | .persisting vm | .claiming vm | .clearing vm | .deleting vm
  | .abandoning vm | .registered vm | .transferring vm => some vm
  | .moving w | .inserting w | .publishing w _ => some w.id
  | .dropping vm _ | .dropped vm _ | .stopping vm _ | .stoppingWarm vm _ | .tearing vm _ _
  | .withdrawing vm _ | .ended vm _ => some vm

def Pool.vms (s : Pool Config) : List (WarmVm Config) := s.warm ++ s.drained

def Pool.busy (s : Pool Config) (vm : Uuid) : Bool := s.running vm || s.torn vm

def Pool.Unpublished (s : Pool Config) (vm : Uuid) : Prop := ∀ p ∈ s.published, p.vm.id ≠ vm

structure Claimed (s : Pool Config) (task : Nat) (vm : Uuid) : Prop where
  used : s.used vm
  claim : s.claims vm = some task
  reads : task ∈ s.readers

structure Selected (s : Pool Config) (want : Config) (vm : Uuid) : Prop where
  unpublished : s.Unpublished vm
  spec : ∀ w ∈ s.vms, w.id = vm → w.spec = want

def Parked (s : Pool Config) (vm : Uuid) : Prop := s.parked vm ∧ s.busy vm = false

/-- The task has the runtime of the VM in its hands. -/
structure Carried (s : Pool Config) (want : Config) (w : WarmVm Config) : Prop where
  unpublished : s.Unpublished w.id
  spec : w.spec = want
  alone : ∀ w' ∈ s.vms, w'.id ≠ w.id

/-- The VM is to be withdrawn if it is not. -/
def Withdrawable (s : Pool Config) (cancelled : Bool) (vm : Uuid) : Prop :=
  cancelled = true ∧ (s.registrations vm).lifecycle.isSome ∨ (s.registrations vm).withdrawn

/-- The VM is not claimed any more; if it was not transferred, it never ran. -/
def Released (clean : Bool) (s : Pool Config) (c : Create Config) (vm : Uuid) (how : Ending) :
    Prop :=
  s.used vm ∧ s.claims vm = none ∧ c.key = vm ∧
    (clean → how = .unclaimed → s.busy vm = false ∧ Withdrawable s c.cancelled vm)

/-- What holds where a create is. The parts under `clean` need the writes and teardowns of claims
to succeed as `Event.Clean` says. -/
def Create.Holds (clean : Bool) (s : Pool Config) (task : Nat) (c : Create Config) :
    Pc Config → Prop
  | .waiting | .noMatch | .refused => True
  | .selecting => task ∈ s.readers
  | .binding vm => Claimed s task vm ∧ Selected s c.want vm ∧ (clean → Parked s vm)
  | .creating vm =>
    Claimed s task vm ∧ Selected s c.want vm ∧ c.key = vm ∧ (clean → Parked s vm)
  | .persisting vm | .registered vm | .transferring vm =>
    Claimed s task vm ∧ Selected s c.want vm ∧ c.key = vm ∧
      (clean → Parked s vm ∧ (s.registrations vm).lifecycle.isSome)
  | .claiming vm | .clearing vm =>
    Claimed s task vm ∧ Selected s c.want vm ∧ c.key = vm ∧
      (clean → Parked s vm ∧ (s.registrations vm).lifecycle.isSome ∧
        (s.registrations vm).store.isSome)
  | .deleting vm =>
    Claimed s task vm ∧ Selected s c.want vm ∧ c.key = vm ∧
      (clean → Parked s vm ∧ (s.registrations vm).store.isSome ∧ (s.registrations vm).fleet = false)
  | .abandoning vm =>
    Claimed s task vm ∧ Selected s c.want vm ∧ c.key = vm ∧ clean = false
  | .moving w =>
    Claimed s task w.id ∧ Carried s c.want w ∧ c.key = w.id ∧ s.busy w.id = false ∧ clean = false
  | .inserting w => Claimed s task w.id ∧ Carried s c.want w ∧ c.key = w.id ∧ s.busy w.id = false
  | .publishing w _ => Claimed s task w.id ∧ Carried s c.want w ∧ c.key = w.id
  | .dropping vm how =>
    Claimed s task vm ∧ c.key = vm ∧
      (clean → how = .unclaimed → s.busy vm = false ∧ Withdrawable s c.cancelled vm)
  | .dropped vm how | .stopping vm how | .stoppingWarm vm how | .withdrawing vm how =>
    Released clean s c vm how
  | .tearing vm wasRunning how =>
    Released clean s c vm how ∧ (clean → how = .unclaimed → wasRunning = false) ∧
      (wasRunning → ∀ w ∈ s.vms, w.id ≠ vm)
  | .ended vm how =>
    Released clean s c vm how ∧ (clean → how = .unclaimed → (s.registrations vm).withdrawn)

def Create.Facts (clean : Bool) (s : Pool Config) (task : Nat) (c : Create Config) : Prop :=
  (∀ key, s.owned key = some task ↔ key = c.key) ∧ c.Holds clean s task c.pc

/-- What a step leaves as it is for the creates of other VMs. -/
structure Frame (s s' : Pool Config) (vm : Uuid) : Prop where
  claims : s'.claims vm = s.claims vm
  registrations : s'.registrations vm = s.registrations vm
  used : s.used vm → s'.used vm
  vms : ∀ w ∈ s'.vms, w.id = vm → w ∈ s.vms
  busy : s.busy vm = false → s'.busy vm = false
  unpublished : s.Unpublished vm → s'.Unpublished vm

variable {s s' : Pool Config} {task : Nat} {vm v : Uuid} {want : Config} {clean : Bool}
  {w : WarmVm Config} {c : Create Config}

theorem Claimed.frame (h : Claimed s task vm) (hframe : Frame s s' vm)
    (hreads : task ∈ s.readers → task ∈ s'.readers) : Claimed s' task vm :=
  ⟨hframe.used h.used, hframe.claims.trans h.claim, hreads h.reads⟩

theorem Selected.frame (h : Selected s want vm) (hframe : Frame s s' vm) : Selected s' want vm :=
  ⟨hframe.unpublished h.unpublished, fun w hw hid => h.spec w (hframe.vms w hw hid) hid⟩

theorem Parked.frame (h : Parked s vm) (hframe : Frame s s' vm)
    (hparked : s.parked vm → s'.parked vm) : Parked s' vm :=
  ⟨hparked h.1, hframe.busy h.2⟩

theorem Carried.frame {w : WarmVm Config} (h : Carried s want w) (hframe : Frame s s' w.id) :
    Carried s' want w :=
  ⟨hframe.unpublished h.unpublished, h.spec,
    fun w' hw' hid => h.alone w' (hframe.vms w' hw' hid) hid⟩

theorem Withdrawable.frame {cancelled : Bool} (h : Withdrawable s cancelled vm)
    (hframe : Frame s s' vm) : Withdrawable s' cancelled vm := by
  unfold Withdrawable
  rw [hframe.registrations]
  exact h

theorem Released.frame {c : Create Config} {how : Ending} (h : Released clean s c vm how)
    (hframe : Frame s s' vm) : Released clean s' c vm how := by
  obtain ⟨hused, hclaim, hkey, hclean⟩ := h
  refine ⟨hframe.used hused, hframe.claims.trans hclaim, hkey, fun hc hhow => ?_⟩
  obtain ⟨hbusy, hwithdraw⟩ := hclean hc hhow
  exact ⟨hframe.busy hbusy, hwithdraw.frame hframe⟩

/-- A create keeps what it relies on if the step frames its VM. -/
theorem Create.Facts.frame {c : Create Config} (h : c.Facts clean s task)
    (howned : ∀ key, s'.owned key = some task ↔ s.owned key = some task)
    (hreads : task ∈ s.readers → task ∈ s'.readers)
    (hparked : task ∈ s.readers → ∀ vm, c.pc.vm? = some vm → s.parked vm → s'.parked vm)
    (hframe : ∀ vm, c.pc.vm? = some vm → Frame s s' vm) : c.Facts clean s' task := by
  refine ⟨fun key => (howned key).trans (h.1 key), ?_⟩
  have hholds := h.2
  generalize c.pc = here at hholds hframe hparked ⊢
  cases here with
  | waiting | noMatch | refused => trivial
  | selecting =>
    exact hreads hholds
  | binding vm =>
    obtain ⟨hclaimed, hselected, hclean⟩ := hholds
    have hf := hframe vm rfl
    exact ⟨hclaimed.frame hf hreads, hselected.frame hf,
      fun hc => (hclean hc).frame hf (hparked hclaimed.reads vm rfl)⟩
  | creating vm =>
    obtain ⟨hclaimed, hselected, hkey, hclean⟩ := hholds
    have hf := hframe vm rfl
    exact ⟨hclaimed.frame hf hreads, hselected.frame hf, hkey,
      fun hc => (hclean hc).frame hf (hparked hclaimed.reads vm rfl)⟩
  | persisting vm | registered vm | transferring vm | claiming vm | clearing vm | deleting vm =>
    obtain ⟨hclaimed, hselected, hkey, hclean⟩ := hholds
    have hf := hframe vm rfl
    refine ⟨hclaimed.frame hf hreads, hselected.frame hf, hkey, fun hc => ?_⟩
    rw [hf.registrations]
    exact ⟨(hclean hc).1.frame hf (hparked hclaimed.reads vm rfl), (hclean hc).2⟩
  | abandoning vm =>
    obtain ⟨hclaimed, hselected, hkey, hclean⟩ := hholds
    have hf := hframe vm rfl
    exact ⟨hclaimed.frame hf hreads, hselected.frame hf, hkey, hclean⟩
  | moving w =>
    obtain ⟨hclaimed, hcarried, hkey, hbusy, hclean⟩ := hholds
    have hf := hframe w.id rfl
    exact ⟨hclaimed.frame hf hreads, hcarried.frame hf, hkey, hf.busy hbusy, hclean⟩
  | inserting w =>
    obtain ⟨hclaimed, hcarried, hkey, hbusy⟩ := hholds
    have hf := hframe w.id rfl
    exact ⟨hclaimed.frame hf hreads, hcarried.frame hf, hkey, hf.busy hbusy⟩
  | publishing w phase =>
    obtain ⟨hclaimed, hcarried, hkey⟩ := hholds
    have hf := hframe w.id rfl
    exact ⟨hclaimed.frame hf hreads, hcarried.frame hf, hkey⟩
  | dropping vm how =>
    obtain ⟨hclaimed, hkey, hclean⟩ := hholds
    have hf := hframe vm rfl
    exact ⟨hclaimed.frame hf hreads, hkey,
      fun hc hhow => ⟨hf.busy (hclean hc hhow).1, (hclean hc hhow).2.frame hf⟩⟩
  | dropped vm how | stopping vm how | stoppingWarm vm how | withdrawing vm how =>
    exact .frame hholds (hframe vm rfl)
  | tearing vm wasRunning how =>
    have hf := hframe vm rfl
    exact ⟨hholds.1.frame hf, hholds.2.1,
      fun hwas w hw hid => hholds.2.2 hwas w (hf.vms w hw hid) hid⟩
  | ended vm how =>
    have hf := hframe vm rfl
    refine ⟨hholds.1.frame hf, ?_⟩
    rw [hf.registrations]
    exact hholds.2

/-! ## Steps of a create -/

structure Global (clean : Bool) (s : Pool Config) : Prop where
  ids : (s.vms.map WarmVm.id).Nodup
  vm : ∀ w ∈ s.vms, s.used w.id ∧ s.busy w.id = false ∧ s.Unpublished w.id
  busy : ∀ vm, s.busy vm → s.used vm
  published : ∀ p ∈ s.published, s.used p.vm.id ∧ p.vm.spec = p.want
  once : (s.published.map fun p => p.vm.id).Nodup
  stopping : s.stopping → s.shuttingDown ∧ s.readers = []
  started : ∀ key task, s.owned key = some task → s.started task
  left : clean → ∀ e ∈ s.unclaimed, e.2 = true

/-- A step of the create of `task` changes what other creates see of at most one VM. -/
structure Touches (s s' : Pool Config) (task : Nat) (vm : Option Uuid) : Prop where
  creates : s'.creates = s.creates
  owned : ∀ key other, other ≠ task → (s'.owned key = some other ↔ s.owned key = some other)
  reads : ∀ other, other ≠ task → other ∈ s.readers → other ∈ s'.readers
  frame : ∀ v, vm ≠ some v → Frame s s' v
  parked : ∀ v, vm ≠ some v → s.parked v → s'.parked v

/-- The create goes on with the VM it had, or with one that no create had. -/
structure Advance (clean : Bool) (s s' : Pool Config) (task : Nat) (c : Create Config)
    (c' : Option (Create Config)) (vm : Option Uuid) : Prop where
  global : Global clean s'
  facts : ∀ x, c' = some x → x.Facts clean s' task
  touches : Touches s s' task vm
  next : ∀ x, c' = some x → x.pc.vm? = none ∨ x.pc.vm? = vm
  own : ∀ v, vm = some v → c.pc.vm? = some v ∨ s.claims v = none ∧ s.owned v = none

section Sections

variable {f : Registration → Registration} {present : Bool}

theorem Frame.refl : Frame s s v := ⟨rfl, rfl, id, fun _ h _ => h, id, id⟩

theorem Touches.refl (vm : Option Uuid) : Touches s s task vm :=
  ⟨rfl, fun _ _ _ => .rfl, fun _ _ h => h, fun _ _ => .refl, fun _ _ h => h⟩

@[simp] theorem register_registrations :
    (s.register vm f).registrations vm = f (s.registrations vm) := update_self ..

theorem Global.register (h : Global clean s) : Global clean (s.register vm f) := { h with }

theorem touches_register : Touches s (s.register vm f) task (some vm) := by
  refine ⟨rfl, fun _ _ _ => .rfl, fun _ _ h => h, fun v hv => ?_, fun _ _ h => h⟩
  have hne : v ≠ vm := fun h => hv (by rw [h])
  exact ⟨rfl, update_of_ne hne .., id, fun _ h _ => h, id, id⟩

theorem Claimed.register (h : Claimed s task vm) : Claimed (s.register v f) task vm :=
  { h with }

theorem Selected.register (h : Selected s want vm) : Selected (s.register v f) want vm :=
  { h with }

theorem mem_unpark (hw : w ∈ (s.unpark vm).vms) : w ∈ s.vms := by
  rcases mem_append.mp hw with hw | hw
  · exact mem_append_left _ (mem_of_mem_eraseP hw)
  · exact mem_append_right _ hw

theorem Global.unpark (h : Global clean s) : Global clean (s.unpark vm) := by
  refine { h with ids := ?_, vm := fun w hw => h.vm w (mem_unpark hw) }
  have hsub : (s.unpark vm).vms.Sublist s.vms := (eraseP_sublist).append_right _
  exact h.ids.sublist (hsub.map _)

theorem touches_unpark : Touches s (s.unpark vm) task (some vm) := by
  refine ⟨rfl, fun _ _ _ => .rfl, fun _ _ h => h, fun v _ => ?_, fun v hv h => ?_⟩
  · exact ⟨rfl, rfl, id, fun _ h _ => mem_unpark h, id, id⟩
  · obtain ⟨w, hw, hid⟩ := any_eq_true.mp h
    refine any_eq_true.mpr ⟨w, (mem_eraseP_of_neg ?_).mpr hw, hid⟩
    intro hvm
    exact hv (by rw [← eq_of_beq hid, ← eq_of_beq hvm])

theorem Claimed.unpark (h : Claimed s task vm) : Claimed (s.unpark v) task vm :=
  { h with }

theorem unpark_alone (h : Global clean s) (hw : w ∈ s.warm) :
    ∀ w' ∈ (s.unpark w.id).vms, w'.id ≠ w.id := by
  obtain ⟨a, l₁, l₂, -, ha, hwarm, herase⟩ :=
    exists_of_eraseP (p := fun x : WarmVm Config => x.id == w.id) hw (beq_self_eq_true _)
  have hids := h.ids
  unfold Pool.vms at hids
  rw [hwarm] at hids
  intro w' hw' hid
  have hmem : w' ∈ l₁ ++ l₂ ++ s.drained := by
    unfold Pool.vms Pool.unpark at hw'
    rwa [herase] at hw'
  have hperm : (l₁ ++ a :: l₂ ++ s.drained).Perm (a :: (l₁ ++ l₂ ++ s.drained)) := by
    rw [append_assoc, cons_append, append_assoc]
    exact perm_middle
  have hnodup := (hperm.map WarmVm.id).nodup_iff.mp hids
  refine (nodup_cons.mp hnodup).1 (mem_map.mpr ⟨w', hmem, ?_⟩)
  rw [hid, eq_of_beq ha]

theorem setRunning_busy (h : s.busy v = false) (hne : v ≠ vm) :
    (s.setRunning vm present).busy v = false := by
  have hrunning : (s.setRunning vm present).running v = s.running v := update_of_ne hne ..
  unfold Pool.busy at h ⊢
  rw [hrunning]
  exact h

theorem touches_setRunning : Touches s (s.setRunning vm present) task (some vm) := by
  refine ⟨rfl, fun _ _ _ => .rfl, fun _ _ h => h, fun v hv => ?_, fun _ _ h => h⟩
  exact ⟨rfl, rfl, id, fun _ h _ => h, fun h => setRunning_busy h (fun he => hv (by rw [he])), id⟩

theorem Global.setRunning (h : Global clean s) (hused : s.used vm) (hout : ∀ w ∈ s.vms, w.id ≠ vm) :
    Global clean (s.setRunning vm present) := by
  refine { h with vm := fun w hw => ?_, busy := fun v hv => ?_ }
  · obtain ⟨hu, hb, hp⟩ := h.vm w hw
    exact ⟨hu, setRunning_busy hb (hout w hw), hp⟩
  · by_cases hvm : v = vm
    · rw [hvm]
      exact hused
    · refine h.busy v ?_
      by_contra hb
      rw [setRunning_busy (Bool.eq_false_iff.mpr hb) hvm] at hv
      cases hv

theorem Global.stopped (h : Global clean s) : Global clean (s.setRunning vm false) := by
  have hbusy : ∀ v, s.busy v = false → (s.setRunning vm false).busy v = false := by
    intro v hv
    by_cases hvm : v = vm
    · rw [hvm] at hv ⊢
      unfold Pool.busy at hv ⊢
      rw [Bool.or_eq_false_iff] at hv ⊢
      exact ⟨update_self .., hv.2⟩
    · exact setRunning_busy hv hvm
  refine { h with vm := fun w hw => ?_, busy := fun v hv => ?_ }
  · obtain ⟨hu, hb, hp⟩ := h.vm w hw
    exact ⟨hu, hbusy _ hb, hp⟩
  · refine h.busy v ?_
    by_contra hb
    rw [hbusy v (Bool.eq_false_iff.mpr hb)] at hv
    cases hv

theorem Global.drop (h : Global clean s) : Global clean (s.drop task vm) := by
  refine { h with stopping := fun hs => ?_ }
  refine ⟨(h.stopping hs).1, ?_⟩
  show s.readers.erase task = []
  rw [(h.stopping hs).2]
  rfl

theorem touches_drop : Touches s (s.drop task vm) task (some vm) := by
  refine ⟨rfl, fun _ _ _ => .rfl, fun other hne h => ?_, fun v hv => ?_, fun _ _ h => h⟩
  · exact (mem_erase_of_ne hne).mpr h
  · have hne : v ≠ vm := fun h => hv (by rw [h])
    exact ⟨update_of_ne hne .., rfl, id, fun _ h _ => h, id, id⟩

theorem Global.finish (h : Global clean s) : Global clean (s.finish task) :=
  { h with started := fun key other ho => h.started key other (filter_eq_some_iff.mp ho).1 }

theorem touches_finish (vm : Option Uuid) : Touches s (s.finish task) task vm := by
  refine ⟨rfl, fun key other hne => ?_, fun _ _ h => h, fun v _ => ?_, fun _ _ h => h⟩
  · show (s.owned key).filter (· ≠ task) = some other ↔ _
    rw [filter_eq_some_iff]
    exact and_iff_left (decide_eq_true hne)
  · exact ⟨rfl, rfl, id, fun _ h _ => h, id, id⟩

theorem Global.leave (h : Global clean s) (hleft : clean → s.isLeft task vm) :
    Global clean (s.leave task vm) :=
  { h with left := fun hc => forall_mem_cons.mpr ⟨hleft hc, h.left hc⟩ }

theorem Frame.trans {s' s'' : Pool Config} (h : Frame s s' v) (h' : Frame s' s'' v) :
    Frame s s'' v :=
  ⟨h'.claims.trans h.claims, h'.registrations.trans h.registrations, fun hu => h'.used (h.used hu),
    fun w hw hid => h.vms w (h'.vms w hw hid) hid, fun hb => h'.busy (h.busy hb),
    fun hp => h'.unpublished (h.unpublished hp)⟩

theorem Touches.trans {s' s'' : Pool Config} {vm : Option Uuid} (h : Touches s s' task vm)
    (h' : Touches s' s'' task vm) : Touches s s'' task vm :=
  ⟨h'.creates.trans h.creates, fun k o hne => (h'.owned k o hne).trans (h.owned k o hne),
    fun o hne ho => h'.reads o hne (h.reads o hne ho),
    fun v hv => (h.frame v hv).trans (h'.frame v hv),
    fun v hv hp => h'.parked v hv (h.parked v hv hp)⟩

theorem touches_leave (vm : Option Uuid) : Touches s (s.leave task v) task vm :=
  ⟨rfl, fun _ _ _ => .rfl, fun _ _ h => h, fun _ _ => ⟨rfl, rfl, id, fun _ h _ => h, id, id⟩,
    fun _ _ h => h⟩

end Sections

/-- What the claims of a clean run need: the store takes the record of the registration if its
write fails at all, no write of a rollback fails, and a cancelled claim can tear its VM down and
withdraw its registration. -/
def Create.Clean (c : Create Config) (write : Write) (ok : Bool) : Prop :=
  match c.pc with
  | .persisting _ => write ≠ .fails
  | .clearing _ | .deleting _ => write = .works
  | .tearing _ _ .unclaimed | .withdrawing _ .unclaimed => ok = true
  | _ => True

instance decidableClean (c : Create Config) (write : Write) (ok : Bool) :
    Decidable (c.Clean write ok) := by
  unfold Create.Clean
  split <;> infer_instance

/-- Every result of a section advances the create on the VM. -/
def Create.Goes (clean : Bool) (s : Pool Config) (task : Nat) (c : Create Config)
    (vm : Option Uuid) (r : Option (Option (Create Config) × Pool Config)) : Prop :=
  ∀ c' s', r = some (c', s') → Advance clean s s' task c c' vm

/-- The section of a create that is at `here` advances it on the VM. -/
def Create.Advances [DecidableEq Config] (clean : Bool) (s : Pool Config) (task : Nat)
    (c : Create Config) (write : Write) (ok : Bool) (here : Pc Config) (vm : Option Uuid) : Prop :=
  c.pc = here → c.Holds clean s task here → (clean → c.Clean write ok) →
    c.Goes clean s task vm (c.next task write ok s)

section Rules

variable {pc : Pc Config}

theorem Create.Goes.stuck {vm : Option Uuid} : c.Goes clean s task vm none :=
  fun _ _ h => (some_ne_none _ h.symm).elim

theorem Create.Goes.goto {here : Pc Config} (hpc : c.pc = here) (hvm : here.vm? = some vm)
    (hnext : pc.vm? = some vm) (hglobal : Global clean s') (htouches : Touches s s' task (some vm))
    (howned : ∀ key, s'.owned key = some task ↔ key = c.key)
    (hholds : Create.Holds clean s' task { c with pc := pc } pc) :
    c.Goes clean s task (some vm) (some (some { c with pc := pc }, s')) := by
  intro c' s'' h
  obtain ⟨rfl, rfl⟩ := Prod.mk.inj (some.inj h)
  refine ⟨hglobal, fun x hx => ?_, htouches, fun x hx => ?_, fun v hv => ?_⟩
  · cases hx
    exact ⟨howned, hholds⟩
  · cases hx
    exact .inr hnext
  · rw [hpc, hvm]
    exact .inl hv

theorem Create.Goes.free (hnext : pc.vm? = none) (hglobal : Global clean s')
    (htouches : Touches s s' task none)
    (howned : ∀ key, s'.owned key = some task ↔ key = c.key)
    (hholds : Create.Holds clean s' task { c with pc := pc } pc) :
    c.Goes clean s task none (some (some { c with pc := pc }, s')) := by
  intro c' s'' h
  obtain ⟨rfl, rfl⟩ := Prod.mk.inj (some.inj h)
  refine ⟨hglobal, fun x hx => ?_, htouches, fun x hx => ?_, nofun⟩
  · cases hx
    exact ⟨howned, hholds⟩
  · cases hx
    exact .inl hnext

theorem Create.Goes.gone {vm : Option Uuid} (hglobal : Global clean s')
    (htouches : Touches s s' task vm)
    (hown : ∀ v, vm = some v → c.pc.vm? = some v ∨ s.claims v = none ∧ s.owned v = none) :
    c.Goes clean s task vm (some (none, s')) := by
  intro c' s'' h
  obtain ⟨rfl, rfl⟩ := Prod.mk.inj (some.inj h)
  exact ⟨hglobal, fun _ hx => (some_ne_none _ hx.symm).elim, htouches,
    fun _ hx => (some_ne_none _ hx.symm).elim, hown⟩

theorem find_warm {p : WarmVm Config → Bool} (h : s.warm.find? p = some w) :
    w ∈ s.warm ∧ w ∈ s.vms ∧ p w = true := by
  have hmem := mem_of_find?_eq_some h
  exact ⟨hmem, mem_append_left _ hmem, List.find?_some h⟩

theorem Carried.unpark {want : Config} (hg : Global clean s) (hw : w ∈ s.warm)
    (hspec : w.spec = want) : Carried (s.unpark w.id) want w :=
  ⟨(hg.vm w (mem_append_left _ hw)).2.2, hspec, unpark_alone hg hw⟩

theorem Global.publish (hg : Global clean s) (hused : s.used w.id) (hcarried : Carried s c.want w) :
    Global clean { s with published := ⟨w, task, c.want⟩ :: s.published } := by
  refine { hg with vm := fun x hx => ?_, published := ?_, once := ?_ }
  · obtain ⟨hu, hb, hp⟩ := hg.vm x hx
    exact ⟨hu, hb, forall_mem_cons.mpr ⟨(hcarried.alone x hx).symm, hp⟩⟩
  · exact forall_mem_cons.mpr ⟨⟨hused, hcarried.spec⟩, hg.published⟩
  · refine nodup_cons.mpr ⟨fun hmem => ?_, hg.once⟩
    obtain ⟨p, hp, hid⟩ := mem_map.mp hmem
    exact hcarried.unpublished p hp hid

theorem touches_publish (p : Publication Config) :
    Touches s { s with published := p :: s.published } task (some p.vm.id) := by
  refine ⟨rfl, fun _ _ _ => .rfl, fun _ _ h => h, fun v hv => ?_, fun _ _ h => h⟩
  exact ⟨rfl, rfl, id, fun _ h _ => h, id,
    fun h => forall_mem_cons.mpr ⟨fun he => hv (by rw [he]), h⟩⟩

/-- A task that ends without a transfer leaves the VM as it should: nobody claims it or has its id,
and it does not run. -/
theorem isLeft_of_released (h : Released clean s c vm .unclaimed) (hc : clean = true)
    (hwithdrawn : (s.registrations vm).withdrawn) : (s.finish task).isLeft task vm := by
  obtain ⟨_, hclaim, _, hclean⟩ := h
  have hrunning : s.running vm = false := (Bool.or_eq_false_iff.mp (hclean hc rfl).1).1
  have howned : (s.finish task).owned vm ≠ some task := by
    intro h
    have := (filter_eq_some_iff.mp h).2
    simp at this
  have hfclaim : (s.finish task).claims vm = none := hclaim
  have hfrunning : (s.finish task).running vm = false := hrunning
  have hfwithdrawn : ((s.finish task).registrations vm).withdrawn = true := hwithdrawn
  unfold Pool.isLeft
  rw [hfclaim, hfrunning, hfwithdrawn, bne_iff_ne.mpr howned]
  cases (s.finish task).parked vm <;> rfl

theorem bind_owned {old : Uuid} (howned : ∀ key, s.owned key = some task ↔ key = old)
    (hfree : s.owned vm = none) (key : Uuid) (other : Nat) :
    update (update s.owned old none) vm (some task) key = some other ↔
      other = task ∧ key = vm ∨ other ≠ task ∧ s.owned key = some other := by
  by_cases hvm : key = vm
  · rw [hvm, update_self, hfree]
    simp [eq_comm]
  rw [update_of_ne hvm]
  by_cases hold : key = old
  · rw [hold, update_self, (howned old).mpr rfl]
    simp only [reduceCtorEq, some.injEq, false_iff, not_or, not_and]
    exact ⟨fun _ => hold ▸ hvm, fun hne h => hne h.symm⟩
  rw [update_of_ne hold]
  constructor
  · intro ho
    refine .inr ⟨?_, ho⟩
    rintro rfl
    exact hold ((howned key).mp ho)
  · rintro (⟨_, h⟩ | ⟨_, ho⟩)
    · exact absurd h hvm
    · exact ho

end Rules

section Advances

variable [DecidableEq Config] {ok : Bool} {write : Write} {how : Ending}
  (hg : Global clean s) (howned : ∀ key, s.owned key = some task ↔ key = c.key)

include hg howned

theorem advance_creating : c.Advances clean s task write ok (.creating vm) (some vm) := by
  rintro hpc ⟨hclaimed, hselected, hkey, hclean⟩ _
  simp only [Create.next, hpc]
  refine .goto hpc rfl rfl hg.register touches_register howned ?_
  exact ⟨hclaimed.register, hselected.register, hkey, fun hc => ⟨hclean hc, by simp⟩⟩

theorem advance_persisting : c.Advances clean s task write ok (.persisting vm) (some vm) := by
  rintro hpc ⟨hclaimed, hselected, hkey, hclean⟩ hok
  simp only [Create.Clean, hpc] at hok
  simp only [Create.next, hpc]
  cases write with
  | works | unacknowledged =>
    refine .goto hpc rfl rfl hg.register touches_register howned ?_
    exact ⟨hclaimed.register, hselected.register, hkey,
      fun hc => ⟨(hclean hc).1, by simpa using (hclean hc).2, by simp⟩⟩
  | fails =>
    exact .goto hpc rfl rfl hg (.refl _) howned
      ⟨hclaimed, hselected, hkey, fun hc => absurd rfl (hok hc)⟩

theorem advance_claiming : c.Advances clean s task write ok (.claiming vm) (some vm) := by
  rintro hpc ⟨hclaimed, hselected, hkey, hclean⟩ _
  simp only [Create.next, hpc]
  cases write with
  | works =>
    refine .goto hpc rfl rfl hg.register touches_register howned ?_
    exact ⟨hclaimed.register, hselected.register, hkey,
      fun hc => ⟨(hclean hc).1, by simpa using (hclean hc).2.1⟩⟩
  | unacknowledged =>
    refine .goto hpc rfl rfl hg.register touches_register howned ?_
    exact ⟨hclaimed.register, hselected.register, hkey,
      fun hc => ⟨(hclean hc).1, by simpa using (hclean hc).2⟩⟩
  | fails => exact .goto hpc rfl rfl hg (.refl _) howned ⟨hclaimed, hselected, hkey, hclean⟩

theorem advance_clearing : c.Advances clean s task write ok (.clearing vm) (some vm) := by
  rintro hpc ⟨hclaimed, hselected, hkey, hclean⟩ hok
  simp only [Create.Clean, hpc] at hok
  simp only [Create.next, hpc]
  cases write with
  | works =>
    refine .goto hpc rfl rfl hg.register touches_register howned ?_
    exact ⟨hclaimed.register, hselected.register, hkey,
      fun hc => ⟨(hclean hc).1, by simpa using (hclean hc).2.2, by simp⟩⟩
  | unacknowledged =>
    refine .goto hpc rfl rfl hg.register touches_register howned ?_
    exact ⟨hclaimed.register, hselected.register, hkey,
      Bool.eq_false_iff.mpr fun hc => Write.noConfusion (hok hc)⟩
  | fails =>
    refine .goto hpc rfl rfl hg (.refl _) howned ?_
    exact ⟨hclaimed, hselected, hkey, Bool.eq_false_iff.mpr fun hc => Write.noConfusion (hok hc)⟩

/-- In a clean run the row that the rollback deletes is there. -/
theorem advance_deleting : c.Advances clean s task write ok (.deleting vm) (some vm) := by
  rintro hpc ⟨hclaimed, hselected, hkey, hclean⟩ hok
  simp only [Create.Clean, hpc] at hok
  simp only [Create.next, hpc]
  split
  case h_1 row hrow =>
    refine .goto hpc rfl rfl hg.register touches_register howned ?_
    refine ⟨hclaimed.register, hkey, fun hc _ => ⟨(hclean hc).1.2, .inr ?_⟩⟩
    simp [Registration.withdrawn, (hclean hc).2.2]
  case h_2 =>
    refine .goto hpc rfl rfl hg.register touches_register howned ?_
    exact ⟨hclaimed.register, hselected.register, hkey,
      Bool.eq_false_iff.mpr fun hc => Write.noConfusion (hok hc)⟩
  case h_3 hunacknowledged hworks =>
    refine .goto hpc rfl rfl hg (.refl _) howned ?_
    refine ⟨hclaimed, hselected, hkey, Bool.eq_false_iff.mpr fun hc => ?_⟩
    obtain ⟨row, hrow⟩ := isSome_iff_exists.mp (hclean hc).2.1
    exact hworks row (hok hc) hrow

theorem advance_abandoning : c.Advances clean s task write ok (.abandoning vm) (some vm) := by
  rintro hpc ⟨hclaimed, hselected, hkey, hclean⟩ _
  simp only [Create.next, hpc]
  generalize hr : (s.register vm fun r =>
    { r with lifecycle := r.lifecycle.map fun _ => .Abandoned })
    = r
  have hgr : Global clean r := by rw [← hr]; exact hg.register
  have htr : Touches s r task (some vm) := by rw [← hr]; exact touches_register
  have hclaimedr : Claimed r task vm := by rw [← hr]; exact hclaimed.register
  have hselectedr : Selected r c.want vm := by rw [← hr]; exact hselected.register
  have hownedr : ∀ key, r.owned key = some task ↔ key = c.key := by rw [← hr]; exact howned
  split
  · rename_i w hw
    obtain ⟨hwarm, hvms, hid⟩ := find_warm hw
    obtain rfl : w.id = vm := eq_of_beq hid
    refine .goto hpc rfl rfl hgr.unpark (htr.trans touches_unpark) hownedr ?_
    exact ⟨hclaimedr.unpark, .unpark hgr hwarm (hselectedr.spec w hvms rfl), hkey,
      (hgr.vm w hvms).2.1, hclean⟩
  · refine .goto hpc rfl rfl hgr htr hownedr ⟨hclaimedr, hkey, fun hc => ?_⟩
    rw [hclean] at hc
    cases hc

theorem advance_moving : c.Advances clean s task write ok (.moving w) (some w.id) := by
  rintro hpc ⟨hclaimed, hcarried, hkey, hbusy, hclean⟩ _
  simp only [Create.next, hpc]
  rw [if_neg (by rw [(Bool.or_eq_false_iff.mp hbusy).1]; exact Bool.false_ne_true)]
  refine .goto hpc rfl rfl (hg.setRunning hclaimed.used hcarried.alone) touches_setRunning
    howned ⟨{ hclaimed with }, hkey, fun hc => ?_⟩
  rw [hclean] at hc
  cases hc

theorem advance_registered : c.Advances clean s task write ok (.registered vm) (some vm) := by
  rintro hpc ⟨hclaimed, hselected, hkey, hclean⟩ _
  simp only [Create.next, hpc]
  split
  · rename_i hcancelled
    refine .goto hpc rfl rfl hg (.refl _) howned ⟨hclaimed, hkey, fun hc _ => ?_⟩
    exact ⟨(hclean hc).1.2, .inl ⟨hcancelled, (hclean hc).2⟩⟩
  · exact .goto hpc rfl rfl hg (.refl _) howned ⟨hclaimed, hselected, hkey, hclean⟩

theorem advance_transferring : c.Advances clean s task write ok (.transferring vm) (some vm) := by
  rintro hpc ⟨hclaimed, hselected, hkey, hclean⟩ _
  simp only [Create.next, hpc]
  split
  · rename_i w hw
    obtain ⟨hwarm, hvms, hid⟩ := find_warm hw
    obtain rfl : w.id = vm := eq_of_beq hid
    refine .goto hpc rfl rfl hg.unpark touches_unpark howned ?_
    exact ⟨hclaimed.unpark, .unpark hg hwarm (hselected.spec w hvms rfl), hkey, (hg.vm w hvms).2.1⟩
  · rename_i hnone
    refine .goto hpc rfl rfl hg (.refl _) howned ⟨hclaimed, hkey, fun hc _ => ?_⟩
    -- the gate kept the VM parked
    obtain ⟨w, hw, hid⟩ := any_eq_true.mp (hclean hc).1.1
    exact absurd hid (List.find?_eq_none.mp hnone w hw)

theorem advance_inserting : c.Advances clean s task write ok (.inserting w) (some w.id) := by
  rintro hpc ⟨hclaimed, hcarried, hkey, _⟩ _
  simp only [Create.next, hpc]
  refine .goto hpc rfl rfl (hg.setRunning hclaimed.used hcarried.alone) touches_setRunning howned ?_
  exact ⟨{ hclaimed with },
    { hcarried with }, hkey⟩

theorem advance_publishing {phase : PublicationPhase} :
    c.Advances clean s task write ok (.publishing w phase) (some w.id) := by
  rintro hpc ⟨hclaimed, hcarried, hkey⟩ _
  by_cases hphase : phase = .CacheVisible
  · subst hphase
    simp only [Create.next, hpc]
    split
    · exact .goto hpc rfl rfl hg (.refl _) howned
        ⟨hclaimed, hkey, fun _ hhow => Ending.noConfusion hhow⟩
    · refine .goto hpc rfl rfl (hg.publish hclaimed.used hcarried)
        (touches_publish ⟨w, task, c.want⟩) howned
        ⟨{ hclaimed with }, hkey, ?_⟩
      exact fun _ hhow => Ending.noConfusion hhow
  · simp only [Create.next, hpc]
    cases write with
    | works =>
      exact .goto hpc rfl rfl hg.register touches_register howned
        ⟨hclaimed.register, { hcarried with }, hkey⟩
    | fails =>
      exact .goto hpc rfl rfl hg (.refl _) howned
        ⟨hclaimed, hkey, fun _ hhow => Ending.noConfusion hhow⟩
    | unacknowledged =>
      exact .goto hpc rfl rfl hg.register touches_register howned
        ⟨hclaimed.register, hkey, fun _ hhow => Ending.noConfusion hhow⟩

theorem advance_dropping : c.Advances clean s task write ok (.dropping vm how) (some vm) := by
  rintro hpc ⟨hclaimed, hkey, hclean⟩ _
  simp only [Create.next, hpc]
  refine .goto hpc rfl rfl hg.drop touches_drop howned ?_
  exact ⟨hclaimed.used, update_self .., hkey, hclean⟩

theorem advance_dropped : c.Advances clean s task write ok (.dropped vm how) (some vm) := by
  intro hpc h _
  simp only [Create.next, hpc]
  split
  · exact .goto hpc rfl rfl hg (.refl _) howned h
  rename_i hcancelled
  obtain ⟨hused, hclaim, hkey, hclean⟩ := h
  split
  · rename_i hhow
    have hnot : how ≠ .unclaimed := fun he => Ending.noConfusion (hhow.symm.trans he)
    exact .goto hpc rfl rfl hg.register touches_register howned
      ⟨⟨hused, hclaim, hkey, fun _ he => absurd he hnot⟩, fun _ he => absurd he hnot⟩
  · refine .goto hpc rfl rfl hg (.refl _) howned ⟨⟨hused, hclaim, hkey, hclean⟩, fun hc hhow => ?_⟩
    rcases (hclean hc hhow).2 with ⟨hc', _⟩ | hwithdrawn
    · exact absurd hc' hcancelled
    · exact hwithdrawn

theorem advance_stopping : c.Advances clean s task write ok (.stopping vm how) (some vm) := by
  intro hpc h _
  simp only [Create.next, hpc]
  split
  · exact .stuck
  split
  swap
  · exact .goto hpc rfl rfl hg (.refl _) howned h
  rename_i hrunning
  obtain ⟨hused, hclaim, hkey, hclean⟩ := h
  have hidle : s.busy vm = false → False := by
    intro hbusy
    unfold Pool.busy at hbusy
    rw [hrunning] at hbusy
    cases hbusy
  -- a VM that was not transferred does not run
  have hnot : clean → how ≠ .unclaimed := fun hc hhow => hidle (hclean hc hhow).1
  exact .goto hpc rfl rfl hg.stopped touches_setRunning howned
    ⟨⟨hused, hclaim, hkey, fun hc he => absurd he (hnot hc)⟩,
      fun hc he => absurd he (hnot hc), fun _ w hw hid => hidle (hid ▸ (hg.vm w hw).2.1)⟩

theorem advance_stoppingWarm :
    c.Advances clean s task write ok (.stoppingWarm vm how) (some vm) := by
  intro hpc h _
  simp only [Create.next, hpc]
  split
  · exact .stuck
  · exact .goto hpc rfl rfl hg.unpark touches_unpark howned
      ⟨h, fun _ _ => rfl, fun hwas => Bool.noConfusion hwas⟩

theorem advance_tearing {wasRunning : Bool} :
    c.Advances clean s task write ok (.tearing vm wasRunning how) (some vm) := by
  rintro hpc ⟨hreleased, hwas, hout⟩ hok
  have hteardown : clean → how = .unclaimed → ok = true := by
    rintro hc rfl
    simpa only [Create.Clean, hpc] using hok hc
  simp only [Create.next, hpc]
  split
  · exact .goto hpc rfl rfl hg (.refl _) howned hreleased
  rename_i hfails
  obtain ⟨hused, hclaim, hkey, hclean⟩ := hreleased
  split
  · rename_i hwasRunning
    exact .goto hpc rfl rfl (hg.setRunning hused (hout hwasRunning)) touches_setRunning
      howned ⟨⟨hused, hclaim, hkey, fun hc hhow => absurd (hteardown hc hhow) hfails⟩,
        fun hc hhow => absurd (hteardown hc hhow) hfails⟩
  · exact .goto hpc rfl rfl hg (.refl _) howned
      ⟨⟨hused, hclaim, hkey, hclean⟩, fun hc hhow => absurd (hteardown hc hhow) hfails⟩

theorem advance_withdrawing : c.Advances clean s task write ok (.withdrawing vm how) (some vm) := by
  intro hpc h hok
  have hsucceeds : clean → how = .unclaimed → ok = true := by
    rintro hc rfl
    simpa only [Create.Clean, hpc] using hok hc
  obtain ⟨hused, hclaim, hkey, hclean⟩ := h
  simp only [Create.next, hpc]
  split
  · rename_i hnone
    refine .goto hpc rfl rfl hg (.refl _) howned ⟨⟨hused, hclaim, hkey, hclean⟩, fun hc hhow => ?_⟩
    rcases (hclean hc hhow).2 with ⟨_, hsome⟩ | hwithdrawn
    · rw [isNone_iff_eq_none.mp hnone] at hsome
      cases hsome
    · exact hwithdrawn
  · split
    · have hwithdrawn : ((s.register vm
          fun _ => ⟨none, some .Stopped, some .Stopped, false⟩).registrations vm).withdrawn := by
        rw [register_registrations]
        rfl
      exact .goto hpc rfl rfl hg.register touches_register howned
        ⟨⟨hused, hclaim, hkey, fun hc hhow => ⟨(hclean hc hhow).1, .inr hwithdrawn⟩⟩,
          fun _ _ => hwithdrawn⟩
    · rename_i hfails
      exact .goto hpc rfl rfl hg.register touches_register howned
        ⟨⟨hused, hclaim, hkey, fun hc hhow => absurd (hsucceeds hc hhow) hfails⟩,
          fun hc hhow => absurd (hsucceeds hc hhow) hfails⟩

omit howned in
theorem advance_ended : c.Advances clean s task write ok (.ended vm how) (some vm) := by
  rintro hpc ⟨hreleased, hwithdrawn⟩ _
  have hown : ∀ v, some vm = some v → c.pc.vm? = some v ∨ s.claims v = none ∧ s.owned v = none := by
    intro v hv
    rw [hpc]
    exact .inl hv
  simp only [Create.next, hpc]
  split
  · rename_i hhow
    subst hhow
    refine .gone (hg.finish.leave fun hc => ?_) ((touches_finish _).trans (touches_leave _)) hown
    exact isLeft_of_released hreleased hc (hwithdrawn hc rfl)
  · exact .gone hg.finish (touches_finish _) hown

theorem advance_waiting : c.Advances clean s task write ok .waiting none := by
  intro hpc h _
  simp only [Create.next, hpc]
  split
  · exact .free rfl hg (.refl _) howned trivial
  rename_i hgo
  refine .free rfl ?_ ?_ howned (mem_cons_self ..)
  · refine { hg with stopping := fun hs => ?_ }
    exact absurd (Bool.or_eq_true_iff.mpr (.inl (hg.stopping hs).1)) hgo
  · exact ⟨rfl, fun _ _ _ => .rfl, fun _ _ h => mem_cons_of_mem _ h,
      fun _ _ => ⟨rfl, rfl, id, fun _ h _ => h, id, id⟩, fun _ _ h => h⟩

/-- The VM that a claim selects has the wanted configuration, and nobody has it. -/
theorem advance_selecting (hpc : c.pc = .selecting) (h : c.Holds clean s task .selecting) :
    ∃ vm, c.Goes clean s task vm (c.next task write ok s) := by
  simp only [Create.next, hpc]
  split
  · refine ⟨none, .free rfl ?_ ?_ howned trivial⟩
    · refine { hg with stopping := fun hs => ?_ }
      refine ⟨(hg.stopping hs).1, ?_⟩
      rw [(hg.stopping hs).2]
      rfl
    · exact ⟨rfl, fun _ _ _ => .rfl, fun _ hne h => (mem_erase_of_ne hne).mpr h,
        fun _ _ => ⟨rfl, rfl, id, fun _ h _ => h, id, id⟩, fun _ _ h => h⟩
  · rename_i w hw
    obtain ⟨hwarm, hvms, hp⟩ := find_warm hw
    simp only [Bool.and_eq_true, decide_eq_true_eq, isNone_iff_eq_none] at hp
    obtain ⟨⟨hspec, hclaims⟩, hfree⟩ := hp
    obtain ⟨hused, hbusy, hunpublished⟩ := hg.vm w hvms
    refine ⟨some w.id, fun c' s' hn => ?_⟩
    obtain ⟨rfl, rfl⟩ := Prod.mk.inj (some.inj hn)
    refine ⟨?_, fun x hx => ?_, ?_, fun x hx => ?_, fun v hv => ?_⟩
    · exact { hg with }
    · cases hx
      refine ⟨howned, ⟨hused, update_self .., h⟩, ⟨hunpublished, ?_⟩, fun _ => ?_⟩
      · intro w' hw' hid
        rw [inj_on_of_nodup_map hg.ids hw' hvms hid]
        exact hspec
      · exact ⟨any_eq_true.mpr ⟨w, hwarm, beq_self_eq_true _⟩, hbusy⟩
    · refine ⟨rfl, fun _ _ _ => .rfl, fun _ _ h => h, fun v hv => ?_, fun _ _ h => h⟩
      have hne : v ≠ w.id := fun h => hv (by rw [h])
      exact ⟨update_of_ne hne .., rfl, id, fun _ h _ => h, id, id⟩
    · cases hx
      exact .inr rfl
    · cases hv
      exact .inr ⟨hclaims, hfree⟩

/-- A VM that its restore still owns stays parked for a later create. -/
theorem advance_binding : c.Advances clean s task write ok (.binding vm) (some vm) := by
  rintro hpc ⟨hclaimed, hselected, hclean⟩ _
  have hvm : c.pc.vm? = some vm := by rw [hpc]; rfl
  simp only [Create.next, hpc]
  split
  · rename_i hkey
    exact .goto hpc rfl rfl hg (.refl _) howned ⟨hclaimed, hselected, hkey, hclean⟩
  rename_i hkey
  intro c' s' hn
  split at hn
  · obtain ⟨rfl, rfl⟩ := Prod.mk.inj (some.inj hn)
    refine ⟨hg.drop.leave fun hc => ?_, fun x hx => ?_, touches_drop.trans (touches_leave _),
      fun x hx => ?_, fun v hv => ?_⟩
    · have hparked : (s.drop task vm).parked vm = true := (hclean hc).1
      have hclaims : (s.drop task vm).claims vm = none := update_self ..
      have hother : (s.drop task vm).owned vm ≠ some task :=
        fun ho => hkey ((howned vm).mp ho).symm
      unfold Pool.isLeft
      rw [hparked, hclaims, bne_iff_ne.mpr hother]
      rfl
    · cases hx
      exact ⟨howned, trivial⟩
    · cases hx
      exact .inl rfl
    · cases hv
      exact .inl hvm
  · rename_i hfree
    obtain ⟨rfl, rfl⟩ := Prod.mk.inj (some.inj hn)
    have hmoved := bind_owned howned (not_isSome_iff_eq_none.mp hfree)
    refine ⟨?_, fun x hx => ?_, ?_, fun x hx => ?_, fun v hv => ?_⟩
    · refine { hg with started := fun key other ho => ?_ }
      rcases (hmoved key other).mp ho with ⟨rfl, _⟩ | ⟨_, ho⟩
      · exact hg.started c.key other ((howned c.key).mpr rfl)
      · exact hg.started key other ho
    · cases hx
      refine ⟨fun key => ?_, { hclaimed with },
        { hselected with }, rfl, hclean⟩
      exact (hmoved key task).trans (by simp)
    · refine ⟨rfl, fun key other hne => ?_, fun _ _ h => h,
        fun _ _ => ⟨rfl, rfl, id, fun _ h _ => h, id, id⟩, fun _ _ h => h⟩
      exact (hmoved key other).trans (by simp [hne])
    · cases hx
      exact .inr rfl
    · cases hv
      exact .inl hvm

theorem advance_noMatch : c.Advances clean s task write ok .noMatch none := by
  intro hpc _ _
  simp only [Create.next, hpc]
  split <;> exact .free rfl hg (.refl _) howned trivial

omit howned in
theorem advance_refused : c.Advances clean s task write ok .refused none := by
  intro hpc _ _
  simp only [Create.next, hpc]
  exact .gone hg.finish (touches_finish _) fun _ hv => (some_ne_none _ hv.symm).elim

omit howned in
theorem next_advance (h : c.Facts clean s task) (hok : clean → c.Clean write ok) :
    ∃ vm, c.Goes clean s task vm (c.next task write ok s) := by
  obtain ⟨howned, hholds⟩ := h
  generalize hpc : c.pc = here at hholds
  cases here with
  | waiting => exact ⟨_, advance_waiting hg howned hpc hholds hok⟩
  | noMatch => exact ⟨_, advance_noMatch hg howned hpc hholds hok⟩
  | refused => exact ⟨_, advance_refused hg hpc hholds hok⟩
  | selecting => exact advance_selecting hg howned hpc hholds
  | binding vm => exact ⟨_, advance_binding hg howned hpc hholds hok⟩
  | creating vm => exact ⟨_, advance_creating hg howned hpc hholds hok⟩
  | persisting vm => exact ⟨_, advance_persisting hg howned hpc hholds hok⟩
  | claiming vm => exact ⟨_, advance_claiming hg howned hpc hholds hok⟩
  | clearing vm => exact ⟨_, advance_clearing hg howned hpc hholds hok⟩
  | deleting vm => exact ⟨_, advance_deleting hg howned hpc hholds hok⟩
  | abandoning vm => exact ⟨_, advance_abandoning hg howned hpc hholds hok⟩
  | moving w => exact ⟨_, advance_moving hg howned hpc hholds hok⟩
  | registered vm => exact ⟨_, advance_registered hg howned hpc hholds hok⟩
  | transferring vm => exact ⟨_, advance_transferring hg howned hpc hholds hok⟩
  | inserting w => exact ⟨_, advance_inserting hg howned hpc hholds hok⟩
  | publishing w phase => exact ⟨_, advance_publishing hg howned hpc hholds hok⟩
  | dropping vm how => exact ⟨_, advance_dropping hg howned hpc hholds hok⟩
  | dropped vm how => exact ⟨_, advance_dropped hg howned hpc hholds hok⟩
  | stopping vm how => exact ⟨_, advance_stopping hg howned hpc hholds hok⟩
  | stoppingWarm vm how => exact ⟨_, advance_stoppingWarm hg howned hpc hholds hok⟩
  | tearing vm wasRunning how => exact ⟨_, advance_tearing hg howned hpc hholds hok⟩
  | withdrawing vm how => exact ⟨_, advance_withdrawing hg howned hpc hholds hok⟩
  | ended vm how => exact ⟨_, advance_ended hg hpc hholds hok⟩

end Advances

end Tarit.Supervisor.Warm
