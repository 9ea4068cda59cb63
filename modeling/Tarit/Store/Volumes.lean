import Tarit.Fleet.Volumes
import Tarit.Lib.Fallible
import Tarit.Lib.Table

/-!
# Volumes of the local store

The SQLite store of a node, of which one call runs at a time. Each statement is a step that
may fail; a statement outside a transaction is committed by itself. `bind_vm_volumes` and
`begin_volume_delete` are transactions: their checks and their writes are one step of the
store, and what they check is what they find.
-/
namespace Tarit.Store

open Lib Fleet Volumes Option
open Fallible (Holds Leads)

/-! ## The store -/

inductive StoreError where
  | Sqlite
  | NotFound
  | Conflict (message : String)
  deriving DecidableEq

def attachmentKey (attachment : VmVolumeAttachmentRecord) : Uuid × Uuid :=
  (attachment.vm_id, attachment.volume_id)

structure Tables where
  vms : Table VmRecord.id
  volumes : Table VolumeRecord.id
  attachments : Table attachmentKey

abbrev Store (α : Type) := Fallible Tables StoreError α

/-- A statement, which does not refuse. -/
def execute {α : Type} (f : Tables → α × Tables) :
    Store α := Fallible.step .Sqlite fun t => .ok (f t)

def select {α : Type} (f : Tables → α) : Store α := Fallible.read .Sqlite f

def ensure (b : Bool) (error : StoreError) : Store Unit := Fallible.ensure b error

/-- `.optional()?.ok_or(StoreError::NotFound)` -/
def orNotFound {α : Type} : Option α → Store α
  | none => throw .NotFound
  | some a => pure a

def u64ToSqlI64 (value : UInt64) : Store Unit := ensure (value.toNat < 2 ^ 63) .Sqlite

/-! ## Virtual machines -/

def getVm (id : Uuid) : Store VmRecord := do
  let found ← select fun t => t.vms.find? id
  orNotFound found

def replaces (vm current : VmRecord) : Bool :=
  current.id == vm.id && current.host_id == vm.host_id && current.created_at == vm.created_at &&
  current.revision < vm.revision

/-- `INSERT … ON CONFLICT(id) DO UPDATE`, with the number of rows it changes. -/
def upsertVm (vm : VmRecord) (t : Tables) : Nat × Tables :=
  match t.vms.find? vm.id with
  | none => (1, { t with vms := t.vms.insert vm })
  | some current =>
    if replaces vm current then
      (1, { t with
        vms := t.vms.update (replaces vm) (fun current =>
          { vm with
            id := current.id, host_id := current.host_id, created_at := current.created_at })
          fun _ => rfl })
    else (0, t)

def insertVm (vm : VmRecord) : Store Unit := do
  u64ToSqlI64 vm.revision
  let changed ← execute (upsertVm vm)
  if changed = 0 then do
    let current ← getVm vm.id
    ensure (current.host_id == vm.host_id && current.created_at == vm.created_at)
      (.Conflict ("VM " ++ displayUuid vm.id ++ " belongs to another resource incarnation"))
    ensure (!(current.revision == vm.revision && current != vm))
      (.Conflict ("VM " ++ displayUuid vm.id ++ " has two different records at revision " ++
        toString vm.revision))
  else pure ()

/-- The attachments of a VM are deleted with it. -/
def deleteVm (id : Uuid) : Store Unit := do
  let n ← execute fun t =>
    ((t.vms.rows.filter fun vm => vm.id == id).length,
      { t with
        vms := t.vms.filter fun vm => vm.id != id
        attachments := t.attachments.filter fun attachment => attachment.vm_id != id })
  ensure (n != 0) .NotFound

/-! ## Volumes -/

def getVolume (owner_key : String) (id : Uuid) : Store VolumeRecord := do
  let found ← select fun t => t.volumes.rows.find? fun volume =>
    volume.id == id && volume.owner_key == owner_key
  orNotFound found

def getVolumeByName (owner_key name : String) : Store VolumeRecord := do
  let found ← select fun t => t.volumes.rows.find? fun volume =>
    volume.name == name && volume.owner_key == owner_key
  orNotFound found

/-- `INSERT … ON CONFLICT DO NOTHING`: the id and the name of a tenant are unique. -/
def insertVolumeRow (volume : VolumeRecord) (t : Tables) : Bool × Tables :=
  if t.volumes.rows.any fun row =>
      row.id == volume.id || row.owner_key == volume.owner_key && row.name == volume.name then
    (false, t)
  else (true, { t with volumes := t.volumes.insert volume })

def insertVolume (volume : VolumeRecord) : Store VolumeRecord := do
  ensure (volume.owner_key != "" && volume.name != "" && volume.provider != "" &&
      volume.generation != 0 && volume.revision != 0)
    (.Conflict "volume identity, provider, generation, and revision are required")
  u64ToSqlI64 volume.size_bytes
  u64ToSqlI64 volume.generation
  u64ToSqlI64 volume.revision
  let inserted ← execute (insertVolumeRow volume)
  if inserted then pure volume
  else do
    let existing ← tryCatch (getVolume volume.owner_key volume.id) fun _ =>
      getVolumeByName volume.owner_key volume.name
    ensure (sameImmutableVolume existing volume)
      (.Conflict "volume id or name already exists with different immutable properties")
    pure existing

/-- `UPDATE volumes`, with the number of rows it changes. -/
def updateVolumes (cond : VolumeRecord → Bool) (set : VolumeRecord → VolumeRecord)
    (hset : ∀ volume, (set volume).id = volume.id) (t : Tables) : Nat × Tables :=
  ((t.volumes.rows.filter cond).length, { t with volumes := t.volumes.update cond set hset })

/-- Nothing was changed: the volume is not in the expected state, or not there. -/
def stale {α : Type} (owner_key : String) (id : Uuid) (message : String) : Store α := do
  let found ← tryCatch (some <$> getVolume owner_key id) fun _ => pure none
  match found with
  | some _ => throw (.Conflict message)
  | none => throw .NotFound

def transitionVolume (owner_key : String) (id : Uuid) (transition : VolumeTransition) :
    Store VolumeRecord := do
  u64ToSqlI64 transition.expected_revision
  let changed ← execute (updateVolumes (fun volume =>
      volume.id == id && volume.owner_key == owner_key &&
      volume.status == transition.expected_status &&
      volume.revision == transition.expected_revision) (fun volume =>
        { volume with
          status := transition.status, revision := volume.revision + 1
          last_error := transition.last_error, updated_at := transition.updated_at })
    fun _ => rfl)
  if changed = 1 then getVolume owner_key id
  else stale owner_key id "stale volume transition"

/-- `SELECT EXISTS(SELECT 1 FROM vm_volume_attachments WHERE volume_id = ?1)` -/
def attached (id : Uuid) : Store Bool :=
  select fun t => t.attachments.rows.any fun attachment => attachment.volume_id == id

def beginVolumeDelete (owner_key : String) (id : Uuid) (expected_status : VolumeStatus)
    (expected_revision : UInt64) (updated_at : Timestamp) : Store VolumeRecord := do
  Fallible.transaction .Sqlite do
    let attached ← attached id
    ensure (!attached) (.Conflict "volume is attached to a VM")
    ensure (expected_revision.toNat + 1 < 2 ^ 64) (.Conflict "volume revision exhausted")
    u64ToSqlI64 (expected_revision + 1)
    u64ToSqlI64 expected_revision
    let changed ← execute (updateVolumes (fun volume =>
        volume.id == id && volume.owner_key == owner_key && volume.status == expected_status &&
        volume.revision == expected_revision) (fun volume =>
          { volume with
            status := .Deleting, revision := expected_revision + 1, last_error := none
            updated_at := updated_at })
      fun _ => rfl)
    ensure (changed == 1) (.Conflict "stale volume deletion claim")
  getVolume owner_key id

def deleteVolumeMetadata (owner_key : String) (id : Uuid) (expected_revision : UInt64) :
    Store Unit := do
  let attached ← attached id
  ensure (!attached) (.Conflict "volume is attached to a VM")
  u64ToSqlI64 expected_revision
  let deleting (volume : VolumeRecord) : Bool :=
    volume.id == id && volume.owner_key == owner_key && volume.status == .Deleting &&
    volume.revision == expected_revision
  let changed ← execute fun t =>
    ((t.volumes.rows.filter deleting).length,
      { t with volumes := t.volumes.filter fun volume => !deleting volume })
  if changed = 1 then pure () else stale owner_key id "stale volume deletion"

/-! ## Attachments -/

/-- `INSERT INTO vm_volume_attachments`: the keys are unique, as are the device indexes of a
VM, and the VM and the volume exist. -/
def insertAttachment (attachment : VmVolumeAttachmentRecord) : Store Unit :=
  Fallible.step .Sqlite fun t =>
    if (t.attachments.find? (attachmentKey attachment)).isSome ||
        (t.attachments.rows.any fun row =>
          row.vm_id == attachment.vm_id && row.device_index == attachment.device_index) ||
        (t.vms.find? attachment.vm_id).isNone || (t.volumes.find? attachment.volume_id).isNone then
      .error (.Conflict "volume is already attached read-write or device index is occupied")
    else .ok ((), { t with attachments := t.attachments.insert attachment })

/-- The exclusive access of a read-write attachment, unless the volume is read-write-many. -/
def ensureExclusive (volume : VolumeRecord) (attachment : VmVolumeAttachmentRecord) :
    Store Unit :=
  if volume.capabilities.read_write_many then pure ()
  else do
    let conflicting ← select fun t => t.attachments.rows.any fun row =>
      row.volume_id == attachment.volume_id &&
      (attachment.mode == .ReadWrite || row.mode == .ReadWrite)
    ensure (!conflicting) (.Conflict "read-write volume attachment is exclusive")

/-- One round of the loop of `bind_vm_volumes`. -/
def bindVolume (count : Nat) (attachment : VmVolumeAttachmentRecord) : Store Unit := do
  ensure (attachment.owner_key != "" && attachment.volume_generation != 0 &&
      attachment.device_index.toNat < count)
    (.Conflict "invalid VM volume attachment identity")
  let found ← select fun t => t.volumes.find? attachment.volume_id
  let volume ← orNotFound found
  ensure (volume.owner_key == attachment.owner_key && volume.status == .Available &&
      volume.generation == attachment.volume_generation &&
      !lacksMode attachment.mode volume.capabilities)
    (.Conflict
      "volume is unavailable, belongs to another tenant, or lacks the requested access mode")
  let existing ← select fun t => t.attachments.find? (attachmentKey attachment)
  match existing with
  | some existing =>
    ensure (sameAttachment existing attachment)
      (.Conflict "VM volume attachment replay changed immutable properties")
  | none => do
    ensureExclusive volume attachment
    u64ToSqlI64 attachment.volume_generation
    insertAttachment attachment

def bindVolumes (count : Nat) : List VmVolumeAttachmentRecord → Store Unit
  | [] => pure ()
  | attachment :: rest => do
    bindVolume count attachment
    bindVolumes count rest

def bindVmVolumes (attachments : List VmVolumeAttachmentRecord) : Store Unit := do
  ensure (attachments.length ≤ 15) (.Conflict "a VM supports at most 15 persistent data volumes")
  Fallible.transaction .Sqlite (bindVolumes attachments.length attachments)

def unbindVmVolumes (owner_key : String) (vm_id : Uuid) : Store Unit :=
  execute fun t =>
    ((), { t with
      attachments := t.attachments.filter fun attachment =>
        !(attachment.vm_id == vm_id && attachment.owner_key == owner_key) })

/-! ## Fences -/

def Fences (t : Tables) : Prop :=
  ∀ id, Exclusive (t.volumes.find? id) fun vm_id => t.attachments.find? (vm_id, id)

def Keeps {α : Type} (p : Store α) : Prop := Holds Fences p (fun _ => Fences) Fences

variable {α β : Type} {a : α} {e : StoreError} {b : Bool} {owner_key : String} {id : Uuid}

theorem keeps_pure : Keeps (pure a : Store α) := .pure fun _ ht => ht

theorem keeps_throw : Keeps (throw e : Store α) := .throw fun _ ht => ht

theorem keeps_bind {p : Store α} {k : α → Store β} (hp : Keeps p) (hk : ∀ a, Keeps (k a)) :
    Keeps (p >>= k) := .bind hp hk

theorem keeps_tryCatch {p : Store α} {handle : StoreError → Store α} (hp : Keeps p)
    (hh : ∀ e, Keeps (handle e)) : Keeps (tryCatch p handle) := .catches hp hh

theorem keeps_select (f : Tables → α) : Keeps (select f) :=
  .read (fun _ ht => ht) fun _ ht => ht

theorem keeps_ensure : Keeps (ensure b e) := .ensure (fun _ ht => ht) fun _ ht _ => ht

theorem keeps_orNotFound (o : Option α) : Keeps (orNotFound o) := by
  cases o with
  | none => exact keeps_throw
  | some a => exact keeps_pure

theorem keeps_execute {f : Tables → α × Tables} (h : ∀ t, Fences t → Fences (f t).2) :
    Keeps (execute f) :=
  .step (fun _ ht => ht) fun t a t' ht hf => by
    have hnext : (f t).2 = t' := congrArg Prod.snd (Except.ok.inj hf)
    rw [← hnext]
    exact h t ht

theorem keeps_getVolume : Keeps (getVolume owner_key id) :=
  keeps_bind (keeps_select _) fun _ => keeps_orNotFound _

theorem keeps_stale (message : String) : Keeps (stale owner_key id message : Store α) := by
  refine keeps_bind (keeps_tryCatch (keeps_bind keeps_getVolume fun _ => keeps_pure)
    fun _ => keeps_pure) fun found => ?_
  cases found <;> exact keeps_throw

/-! ## The calls keep them -/

variable {t : Tables} {volume : VolumeRecord} {expected_revision : UInt64}
  {attachment : VmVolumeAttachmentRecord} {count : Nat}

theorem Fences.of_vms (h : Fences t) (vms : Table VmRecord.id) : Fences { t with vms } := h

theorem insertVm_keeps (vm : VmRecord) : Keeps (insertVm vm) := by
  refine keeps_bind keeps_ensure fun _ => ?_
  refine keeps_bind (keeps_execute fun t ht => ?_) fun changed => ?_
  · unfold upsertVm
    split
    · exact ht
    split
    · exact ht
    · exact ht
  · split
    · exact keeps_bind (keeps_bind (keeps_select _) fun _ => keeps_orNotFound _) fun _ =>
        keeps_bind keeps_ensure fun _ => keeps_ensure
    · exact keeps_pure

theorem Fences.detach (h : Fences t) (p : VmVolumeAttachmentRecord → Bool) :
    Fences { t with attachments := t.attachments.filter p } := by
  intro id
  refine (h id).detach fun vm_id attachment ha => ?_
  rw [Table.find?_filter] at ha
  exact (filter_eq_some_iff.mp ha).1

theorem deleteVm_keeps : Keeps (deleteVm id) :=
  keeps_bind (keeps_execute fun _ ht => .of_vms (ht.detach _) _) fun _ => keeps_ensure

theorem unbindVmVolumes_keeps (vm_id : Uuid) : Keeps (unbindVmVolumes owner_key vm_id) :=
  keeps_execute fun _ ht => ht.detach _

theorem insertVolume_keeps : Keeps (insertVolume volume) := by
  refine keeps_bind keeps_ensure fun _ => keeps_bind keeps_ensure fun _ =>
    keeps_bind keeps_ensure fun _ => keeps_bind keeps_ensure fun _ => ?_
  refine keeps_bind (keeps_execute fun t ht => ?_) fun inserted => ?_
  · unfold insertVolumeRow
    split
    · exact ht
    rename_i hfree
    have hnone : t.volumes.find? volume.id = none := by
      rw [Table.find?_eq_none_iff]
      intro hmem
      obtain ⟨row, hrow, hid⟩ := List.mem_map.mp hmem
      refine hfree (List.any_eq_true.mpr ⟨row, hrow, ?_⟩)
      rw [hid, beq_self_eq_true, Bool.true_or]
    intro id
    rw [t.volumes.find?_insert hnone]
    split
    · next hid =>
      have hold := ht id
      rw [hid, hnone] at hold
      rw [hid]
      exact exclusive_of_unattached hold.unattached
    · exact ht id
  · split
    · exact keeps_pure
    · exact keeps_bind (keeps_tryCatch keeps_getVolume fun _ =>
        keeps_bind (keeps_select _) fun _ => keeps_orNotFound _) fun _ =>
          keeps_bind keeps_ensure fun _ => keeps_pure

theorem Fences.updateVolumes (h : Fences t) {cond : VolumeRecord → Bool}
    {set : VolumeRecord → VolumeRecord} (hset : ∀ volume, (set volume).id = volume.id)
    (hfence : ∀ id volume, t.volumes.find? id = some volume → cond volume = true →
      Exclusive (some volume) (fun vm_id => t.attachments.find? (vm_id, id)) →
        Exclusive (some (set volume)) fun vm_id => t.attachments.find? (vm_id, id)) :
    Fences (Store.updateVolumes cond set hset t).2 := by
  intro id
  show Exclusive ((t.volumes.update cond set hset).find? id) _
  rw [Table.find?_update]
  have hold := h id
  cases hfound : t.volumes.find? id with
  | none =>
    rw [hfound] at hold
    exact hold
  | some volume =>
    rw [hfound] at hold
    rw [map_some]
    split
    · next hcond => exact hfence id volume hfound hcond hold
    · exact hold

theorem transitionVolume_keeps (transition : VolumeTransition) :
    Keeps (transitionVolume owner_key id transition) := by
  refine keeps_bind keeps_ensure fun _ => keeps_bind (keeps_execute fun t ht => ?_)
    fun changed => ?_
  · exact ht.updateVolumes _ fun _ _ _ _ hold => hold.change transition.settles rfl
  · split
    · exact keeps_getVolume
    · exact keeps_stale _

def Unattached (id : Uuid) (t : Tables) : Prop := ∀ vm_id, t.attachments.find? (vm_id, id) = none

theorem attached_holds {E : Tables → Prop} (hE : ∀ t, Fences t → E t) :
    Holds Fences (attached id) (fun found t => Fences t ∧ (found = false → Unattached id t)) E := by
  unfold attached select
  refine .read hE fun t ht => ⟨ht, fun hfree vm_id => ?_⟩
  rw [Table.find?_eq_none_iff]
  intro hmem
  obtain ⟨attachment, hattachment, hkey⟩ := List.mem_map.mp hmem
  have hany := List.any_eq_false.mp hfree attachment hattachment
  exact hany (beq_iff_eq.mpr (congrArg Prod.snd hkey))

theorem ensure_holds {P : Tables → Prop} {E : Tables → Prop} (hE : ∀ t, P t → E t) :
    Holds P (ensure b e) (fun _ => P) E :=
  .ensure hE fun _ ht _ => ht

theorem beginVolumeDelete_keeps (expected_status : VolumeStatus) (updated_at : Timestamp) :
    Keeps (beginVolumeDelete owner_key id expected_status expected_revision updated_at) := by
  refine keeps_bind ?_ fun _ => keeps_getVolume
  intro x hx
  refine Holds.conseq (.transaction ?_) (fun _ h => h)
    (fun _ _ h => h) (fun s h => h ▸ hx) x rfl
  refine .conseq ?_ (fun s h => h ▸ hx) (fun _ _ h => h) fun _ h => h
  have htrivial {P : Tables → Prop} (t : Tables) (_ : P t) : True := trivial
  refine .bind (attached_holds htrivial) fun found => ?_
  refine .bind (Q := fun _ t => Fences t ∧ Unattached id t)
    (.ensure htrivial fun t ht hfree => ⟨ht.1, ht.2 (Bool.not_eq_true' found ▸ hfree)⟩)
    fun _ => ?_
  refine .bind (ensure_holds htrivial) fun _ => .bind (ensure_holds htrivial)
    fun _ => .bind (ensure_holds htrivial) fun _ => ?_
  refine .bind (.step htrivial fun t n t' ht hf => ?_) fun changed => ensure_holds htrivial
  cases hf
  refine ht.1.updateVolumes _ fun id' volume hfound hcond _ => ?_
  have hid : id' = id := by
    simp only [Bool.and_eq_true, beq_iff_eq] at hcond
    rw [← (Table.find?_eq_some_iff).mp hfound |>.2, hcond.1.1.1]
  subst hid
  exact exclusive_of_unattached ht.2

theorem deleteVolumeMetadata_keeps :
    Keeps (deleteVolumeMetadata owner_key id expected_revision) := by
  refine .bind (attached_holds fun _ ht => ht) fun found => ?_
  refine .bind (Q := fun _ t => Fences t ∧ Unattached id t)
    (.ensure (fun _ ht => ht.1) fun t ht hfree =>
      ⟨ht.1, ht.2 (Bool.not_eq_true' found ▸ hfree)⟩) fun _ => ?_
  refine .bind (ensure_holds (fun _ ht => ht.1)) fun _ => ?_
  refine .bind (Q := fun _ => Fences) (.step (fun _ ht => ht.1)
    fun t n t' ht hf => ?_) fun changed => ?_
  · cases hf
    intro id'
    rw [Table.find?_filter]
    cases hfilter : (t.volumes.find? id').filter _ with
    | some volume =>
      rw [← (filter_eq_some_iff.mp hfilter).1]
      exact ht.1 id'
    | none =>
      by_cases hid : id' = id
      · subst hid
        exact exclusive_of_unattached ht.2
      cases hfound : t.volumes.find? id' with
      | none =>
        rw [← hfound]
        exact ht.1 id'
      | some volume =>
        have hkey : volume.id = id' := ((Table.find?_eq_some_iff).mp hfound).2
        rw [hfound, filter_eq_none_iff] at hfilter
        refine absurd ?_ (hfilter volume rfl)
        simp [hkey, hid]
  · split
    · exact keeps_pure
    · exact keeps_stale _

/-! ## Binds -/

theorem Fences.attach (h : Fences t) {attachment : VmVolumeAttachmentRecord}
    {volume : VolumeRecord} (hvolume : t.volumes.find? attachment.volume_id = some volume)
    (hstatus : volume.status ≠ .Deleting)
    (hconflict : volume.capabilities.read_write_many = true ∨
      ∀ vm_id attachment', t.attachments.find? (vm_id, attachment.volume_id) = some attachment' →
        ¬ Conflicting attachment attachment')
    (hnew : t.attachments.find? (attachmentKey attachment) = none) :
    Fences { t with attachments := t.attachments.insert attachment } := by
  intro id
  simp only [t.attachments.find?_insert hnew]
  by_cases hid : id = attachment.volume_id
  · subst hid
    have hold := h attachment.volume_id
    rw [hvolume] at hold ⊢
    refine hold.attach hstatus hconflict fun vm_id attachment' ha =>
      (?_ : vm_id = attachment.vm_id ∧ _ ∨ _)
    split at ha
    · next hkey => exact .inl ⟨congrArg Prod.fst hkey, (Option.some.inj ha).symm⟩
    · exact .inr ha
  · refine (h id).detach fun vm_id attachment' ha => ?_
    rw [if_neg fun hkey => hid (congrArg Prod.snd hkey)] at ha
    exact ha

/-- What a bind knows of the volume when it attaches it. -/
structure Bindable (volume : VolumeRecord) (attachment : VmVolumeAttachmentRecord) (t : Tables) :
    Prop where
  fences : Fences t
  found : t.volumes.find? attachment.volume_id = some volume

theorem ensureExclusive_holds :
    Leads (Bindable volume attachment) (ensureExclusive volume attachment)
      (fun _ t => Bindable volume attachment t ∧ (volume.capabilities.read_write_many = true ∨
        ∀ vm_id attachment', t.attachments.find? (vm_id, attachment.volume_id) = some attachment' →
          ¬ Conflicting attachment attachment')) := by
  unfold ensureExclusive
  split
  · next hmany => exact .pure fun t ht => ⟨ht, .inl hmany⟩
  refine .bind (Q := fun found t => Bindable volume attachment t ∧ (found = false →
      ∀ vm_id attachment', t.attachments.find? (vm_id, attachment.volume_id) = some attachment' →
        ¬ Conflicting attachment attachment'))
    (.read (fun _ _ => trivial) fun t ht => ⟨ht, fun hfree vm_id attachment' ha => ?_⟩)
    fun found => .ensure (fun _ _ => trivial) fun t ht hfree =>
      ⟨ht.1, .inr (ht.2 (Bool.not_eq_true' found ▸ hfree))⟩
  obtain ⟨hmem, hkey⟩ := (Table.find?_eq_some_iff).mp ha
  have hany := List.any_eq_false.mp hfree attachment' hmem
  have hvolume : attachment'.volume_id = attachment.volume_id := congrArg Prod.snd hkey
  simpa [hvolume, Conflicting] using hany

theorem bindVolume_holds : Leads Fences (bindVolume count attachment) (fun _ => Fences) := by
  have htrivial {P : Tables → Prop} (t : Tables) (_ : P t) : True := trivial
  refine .bind (ensure_holds htrivial) fun _ => ?_
  refine .bind (Q := fun found t => ∀ volume, found = some volume →
    Bindable volume attachment t) (.read htrivial fun t ht volume hfound => ⟨ht, hfound⟩)
    fun found => ?_
  cases found with
  | none => exact .bind (Q := fun _ _ => False) (.throw htrivial) fun _ _ h => h.elim
  | some volume =>
    refine .bind (Q := fun volume t => Bindable volume attachment t)
      (.pure fun t ht => ht volume rfl) fun volume => ?_
    refine .bind (Q := fun _ t => Bindable volume attachment t ∧ volume.status ≠ .Deleting)
      (.ensure htrivial fun t ht hchecks => ⟨ht, ?_⟩) fun _ => ?_
    · simp only [Bool.and_eq_true, beq_iff_eq] at hchecks
      rw [hchecks.1.1.2]
      decide
    refine .assume (fun t ht => ht.2) fun hstatus => ?_
    refine .conseq ?_ (fun _ ht => ht.1) (fun _ _ h => h) fun _ h => h
    refine .bind (Q := fun _ => Bindable volume attachment)
      (.read htrivial fun t ht => ht) fun existing => ?_
    cases existing with
    | some existing => exact .ensure htrivial fun t ht _ => ht.fences
    | none =>
      refine .bind ensureExclusive_holds fun _ => ?_
      refine .bind (ensure_holds htrivial) fun _ => .step htrivial fun t a t' ht hf => ?_
      obtain ⟨hfree, ⟨⟩⟩ := ite_error_eq_ok.mp hf
      refine ht.1.fences.attach ht.1.found hstatus ht.2 ?_
      simp only [Bool.or_eq_true, not_or, Bool.not_eq_true, isSome_eq_false_iff,
        isNone_iff_eq_none] at hfree
      exact hfree.1.1.1

theorem bindVolumes_holds (attachments : List VmVolumeAttachmentRecord) :
    Leads Fences (bindVolumes count attachments) (fun _ => Fences) := by
  induction attachments with
  | nil => exact .pure fun _ ht => ht
  | cons attachment rest ih => exact .bind bindVolume_holds fun _ => ih

theorem bindVmVolumes_holds (attachments : List VmVolumeAttachmentRecord) {t₀ : Tables}
    (ht₀ : Fences t₀) :
    Holds (· = t₀) (bindVmVolumes attachments) (fun _ => Fences) (· = t₀) := by
  refine .bind (ensure_holds (fun _ ht => ht)) fun _ => .transaction ?_
  exact .conseq (bindVolumes_holds attachments) (fun t ht => ht ▸ ht₀) (fun _ _ h => h)
    fun _ h => h

/-! ## Every sequence of calls, and every interleaving -/

inductive StoreCall where
  | insertVm (vm : VmRecord)
  | deleteVm (id : Uuid)
  | insertVolume (volume : VolumeRecord)
  | transitionVolume (owner_key : String) (id : Uuid) (transition : VolumeTransition)
  | beginVolumeDelete (owner_key : String) (id : Uuid) (expected_status : VolumeStatus)
      (expected_revision : UInt64) (updated_at : Timestamp)
  | deleteVolumeMetadata (owner_key : String) (id : Uuid) (expected_revision : UInt64)
  | bindVmVolumes (attachments : List VmVolumeAttachmentRecord)
  | unbindVmVolumes (owner_key : String) (vm_id : Uuid)

def discard {α : Type} (p : Store α) : Store Unit := do
  let _ ← p

def StoreCall.prog : StoreCall → Store Unit
  | .insertVm vm => Store.insertVm vm
  | .deleteVm id => Store.deleteVm id
  | .insertVolume volume => discard (Store.insertVolume volume)
  | .transitionVolume owner_key id transition =>
    discard (Store.transitionVolume owner_key id transition)
  | .beginVolumeDelete owner_key id expected_status expected_revision updated_at =>
    discard (Store.beginVolumeDelete owner_key id expected_status expected_revision updated_at)
  | .deleteVolumeMetadata owner_key id expected_revision =>
    Store.deleteVolumeMetadata owner_key id expected_revision
  | .bindVmVolumes attachments => Store.bindVmVolumes attachments
  | .unbindVmVolumes owner_key vm_id => Store.unbindVmVolumes owner_key vm_id

theorem discard_keeps {α : Type} {p : Store α} (hp : Keeps p) : Keeps (discard p) :=
  keeps_bind hp fun _ => keeps_pure

/-- The step lemma: every call of the store keeps the fences. -/
theorem prog_keeps (c : StoreCall) : Keeps c.prog := by
  cases c with
  | insertVm vm => exact insertVm_keeps vm
  | deleteVm id => exact deleteVm_keeps
  | insertVolume volume => exact discard_keeps insertVolume_keeps
  | transitionVolume => exact discard_keeps (transitionVolume_keeps _)
  | beginVolumeDelete => exact discard_keeps (beginVolumeDelete_keeps _ _)
  | deleteVolumeMetadata => exact deleteVolumeMetadata_keeps
  | bindVmVolumes attachments =>
    intro x hx
    exact Holds.conseq (bindVmVolumes_holds attachments hx) (fun _ h => h) (fun _ _ h => h)
      (fun _ h => h ▸ hx) x rfl
  | unbindVmVolumes => exact unbindVmVolumes_keeps _

def runCalls (t : Tables) : List (StoreCall × List Bool) → Tables
  | [] => t
  | (c, faults) :: rest => runCalls (c.prog ⟨t, faults⟩).2.state rest

/-- By induction over the calls, from `prog_keeps`. -/
theorem runCalls_fences (ht : Fences t) (calls : List (StoreCall × List Bool)) :
    Fences (runCalls t calls) := by
  induction calls generalizing t with
  | nil => exact ht
  | cons call rest ih =>
    obtain ⟨c, faults⟩ := call
    refine ih ?_
    have h := prog_keeps c ⟨t, faults⟩ ht
    revert h
    rcases c.prog ⟨t, faults⟩ with ⟨e | _, x⟩ <;> exact id

def emptyTables : Tables := ⟨∅, ∅, ∅⟩

theorem fences_emptyTables : Fences emptyTables := fun _ => exclusive_of_unattached fun _ => rfl

/-- On a node after any calls, and in the fleet in every state of every interleaving, the
volumes keep their fences; a bind that fails leaves the tables of the node as they were, and
the tables of the fleet change only when a call that has not failed commits. -/
theorem volumes_fenced :
    (∀ calls, Fences (runCalls emptyTables calls) ∧
      ∀ attachments faults e x,
        bindVmVolumes attachments ⟨runCalls emptyTables calls, faults⟩ = (.error e, x) →
          x.state = runCalls emptyTables calls) ∧
    ∀ (T : Type) [DecidableEq T] (s : Sys T FleetRow FleetCall.Reply FleetError),
      (fleetService fun _ _ _ => True).Reaches (fun _ => none) s → Fleet.Fences s.rows ∧
        ∀ e s', (fleetService fun _ _ _ => True).Step s e s' → (∀ c a, e ≠ .commit c a) →
          s'.rows = s.rows := by
  constructor
  · intro calls
    have hfences := runCalls_fences fences_emptyTables calls
    refine ⟨hfences, fun attachments faults e x hx => ?_⟩
    have h := bindVmVolumes_holds attachments hfences ⟨_, faults⟩ rfl
    rw [hx] at h
    exact h
  · intro T _ s hs
    refine ⟨(fleet_guarded fences_empty hs).rows, fun e s' hstep hcommit => ?_⟩
    obtain ⟨c, a, _, _, he, _⟩ | ⟨_, hrows⟩ := (fleet_guarded fences_empty hs).step_rows hstep
    · exact absurd he (hcommit c a)
    · exact hrows

def singleWriter : VolumeRecord where
  id := 7
  owner_key := "tenant"
  name := "data"
  provider := "local"
  storage_class := .Block
  size_bytes := 4096
  status := .Available
  capabilities := ⟨true, true, false, false, false⟩
  host_id := none
  region := none
  zone := none
  generation := 1
  revision := 1
  last_error := none
  created_at := 0
  updated_at := 0

def writerOf (vm_id : Uuid) : VmVolumeAttachmentRecord := ⟨vm_id, 7, 0, "tenant", .ReadWrite, 1, 0⟩

def tenantVm (id : Uuid) : VmRecord :=
  { bootedVm "a" .Running 1 with id := id, owner_key := some "tenant" }

/-- Two VMs of a node ask for the volume. -/
def nodeCalls : List (StoreCall × List Bool) :=
  [(.insertVm (tenantVm 1), []), (.insertVm (tenantVm 2), []), (.insertVolume singleWriter, []),
    (.bindVmVolumes [writerOf 1], []), (.bindVmVolumes [writerOf 2], [])]

def fleetActions : List (Action Bool FleetCall) :=
  [.start true (.upsertVm (tenantVm 1)), .statement true, .statement true, .commit true,
    .start true (.insertVolume singleWriter), .statement true, .commit true,
    .start true (.bindVmVolumes [writerOf 1]), .statement true, .statement true, .statement true,
    .statement true, .statement true, .commit true]

def fleetEnd : Option (Sys Bool FleetRow FleetCall.Reply FleetError) :=
  (fleetService fun _ _ _ => True).run (fun _ _ _ => true)
    [.vm 1, .volume 7, .attachment 1 7, .reservation 1] [true] fleetActions
    ⟨fun _ => none, fun _ => none⟩

/-- The first of the two VMs has the volume and the second has not, and in the fleet the
volume is attached as well. -/
theorem first_writer_attached :
    ((runCalls emptyTables nodeCalls).attachments.find? (1, 7) = some (writerOf 1) ∧
      (runCalls emptyTables nodeCalls).attachments.find? (2, 7) = none ∧
      Fences (runCalls emptyTables nodeCalls)) ∧
    ∃ s : Sys Bool FleetRow FleetCall.Reply FleetError,
      s.rows (.attachment 1 7) = some (writerOf 1) ∧ Fleet.Fences s.rows := by
  have hend : fleetEnd.isSome = true := rfl
  have hreaches : (fleetService fun _ _ _ => True).Reaches (fun _ => none) (fleetEnd.get hend) :=
    Service.run_empty (fun _ _ _ _ => trivial) (some_get hend).symm
  exact ⟨⟨by decide +kernel, by decide +kernel, (volumes_fenced.1 nodeCalls).1⟩,
    fleetEnd.get hend, rfl, (volumes_fenced.2 Bool _ hreaches).1⟩

end Tarit.Store
