import Tarit.Fleet.Ownership
import Tarit.Volumes.Exclusion

/-!
# Volumes of the fleet

A transaction that holds the row of a volume sees the only attachments that can be added to
it: every bind locks the volume before it looks at its attachments, and so does every delete.
A transaction that does not hold the volume can only remove attachments. With that said of
every call, what a transaction has read of the attachments of a volume it holds stays true
until it commits, whatever commits meanwhile.
-/
namespace Tarit.Fleet

open Lib Volumes Session Stmt Service Option

def Fences (v : Rows FleetRow) : Prop :=
  ∀ id, Exclusive (v (.volume id)) fun vm_id => v (.attachment vm_id id)

/-- What every transaction keeps: the fences, in what is committed and in what it sees, and
the attachments of volumes it does not hold, of which it adds none. -/
structure Guarded (s : Session FleetRow) : Prop where
  rows : Fences s.rows
  view : Fences s.view
  detaches : ∀ id, s.held (.volume id) = none → ∀ vm_id attachment,
    s.view (.attachment vm_id id) = some attachment →
      s.rows (.attachment vm_id id) = some attachment

theorem guarded_start {v : Rows FleetRow} (h : Fences v) : Guarded (.start v) where
  rows := h
  view := h
  detaches _ _ _ _ ha := ha

variable {s : Session FleetRow} {st : Stmt FleetRow} {F : VmVolumeAttachmentRecord → Prop}
  {α : Type} {cond : VolumeRecord → Bool} {ok : FleetCall → Session FleetRow → Stmt FleetRow → Prop}
  {c : FleetCall} {id : Uuid}

/-- A statement that changes a volume, or adds to its attachments, holds the volume and
keeps its fence. -/
theorem Guarded.perform (hs : Guarded s) {a : st.Answer} (h : ∀ id,
      ((s.perform fleetSchema st a).view (.volume id) = s.view (.volume id) ∧
        ∀ vm_id attachment, (s.perform fleetSchema st a).view (.attachment vm_id id) =
          some attachment → s.view (.attachment vm_id id) = some attachment) ∨
      ((s.perform fleetSchema st a).held (.volume id) ≠ none ∧
        Exclusive ((s.perform fleetSchema st a).view (.volume id)) fun vm_id =>
          (s.perform fleetSchema st a).view (.attachment vm_id id))) :
    Guarded (s.perform fleetSchema st a) where
  rows := hs.rows
  view id := by
    obtain ⟨hvolume, hattached⟩ | ⟨_, hid⟩ := h id
    · rw [hvolume]
      exact (hs.view id).detach hattached
    · exact hid
  detaches id hheld vm_id attachment ha := by
    obtain ⟨_, hattached⟩ | ⟨hid, _⟩ := h id
    · have hheld' : s.held (.volume id) = none := by
        exact (or_eq_none_iff.mp hheld).2
      exact hs.detaches id hheld' vm_id attachment (hattached vm_id attachment ha)
    · exact absurd hheld hid

theorem Guarded.unchanged (hs : Guarded s) {a : st.Answer}
    (htouch : st.touch fleetSchema s.view a = fun _ => none) :
    Guarded (s.perform fleetSchema st a) := by
  have hview (k : FleetKey) : (s.perform fleetSchema st a).view k = s.view k := by
    rw [view_perform, htouch]
    rfl
  refine hs.perform fun id => .inl ⟨hview _, fun vm_id attachment ha => ?_⟩
  rw [hview] at ha
  exact ha

theorem Guarded.within (hs : Guarded s) {tables : List Table} (hvolumes : .volumes ∉ tables)
    (hattachments : .attachments ∉ tables) (hst : Within tables st) {a : st.Answer}
    (ha : st.Answers s.view a) : Guarded (s.perform fleetSchema st a) := by
  refine hs.perform fun id => .inl ⟨?_, fun vm_id attachment hattachment => ?_⟩
  · exact view_unwritten hst ha hvolumes fun k' _ row => by cases k' <;> rfl
  · rw [view_perform] at hattachment
    cases htouch : st.touch fleetSchema s.view a (.attachment vm_id id) with
    | none =>
      rw [htouch] at hattachment
      exact hattachment
    | some r =>
      rw [htouch, getD_some] at hattachment
      obtain hr | ⟨k', cond, p, _, hr⟩ :=
        touch_unwritten (not_writes_of_within (k := .attachment vm_id id) hst hattachments) ha
          htouch
      · rw [← hr, hattachment]
      obtain ⟨row, _, hrow⟩ := bind_eq_some_iff.mp hr
      -- deleting a row removes attachments at most
      cases k' with
      | vm id' =>
        obtain ⟨_, hr⟩ := ite_none_right_eq_some.mp hrow
        cases (Option.some.inj hr).trans hattachment
      | _ => cases hrow

/-! ## Holding a volume -/

/-- The transaction holds a volume, and all of its attachments have `F`. -/
structure Claimed (id : Uuid) (volume : VolumeRecord) (F : VmVolumeAttachmentRecord → Prop)
    (s : Session FleetRow) : Prop where
  guarded : Guarded s
  held : s.held (.volume id) = some (some volume)
  attached : ∀ vm_id attachment, s.view (.attachment vm_id id) = some attachment → F attachment

theorem Claimed.view {id : Uuid} {volume : VolumeRecord} (hs : Claimed id volume F s) :
    s.view (.volume id) = some volume :=
  view_of_held hs.held

variable (ok c) in
abbrev guardedWorld := fleetWorld ok (fun _ _ => Guarded) c

variable (ok c) in
abbrev Guards (p : Fleet α) : Prop := (guardedWorld ok c).Yields Guarded p fun _ => Guarded

/-- What the others commit takes attachments off the volumes this transaction holds. -/
theorem env_detaches {s' : Session FleetRow} (h : (guardedWorld ok c).env s s')
    {id : Uuid} (hheld : s.held (.volume id) ≠ none) {vm_id : Uuid}
    {attachment : VmVolumeAttachmentRecord}
    (ha : s'.view (.attachment vm_id id) = some attachment) :
    s.view (.attachment vm_id id) = some attachment := by
  obtain ⟨_, hheld', _, d, r, u, hu, hrows, hapart, hrows'⟩ := h
  cases hattachment : s.held (.attachment vm_id id) with
  | some o =>
    have hattachment' : s'.held (.attachment vm_id id) = some o := by rw [hheld', hattachment]
    rw [view_of_held hattachment'] at ha
    rw [view_of_held hattachment, ha]
  | none =>
    have hattachment' : s'.held (.attachment vm_id id) = none := by rw [hheld', hattachment]
    rw [view_of_free hattachment', hrows'] at ha
    rw [view_of_free hattachment, ← hrows]
    exact hu.detaches id ((hapart (.volume id)).resolve_right hheld) vm_id attachment ha

theorem stable_guarded : (guardedWorld ok c).Stable Guarded := by
  intro s s' hs he
  have hrows : Fences s'.rows := by
    obtain ⟨_, _, _, d, r, u, hu, _, _, hrows'⟩ := he
    rw [hrows']
    exact hu.view
  have hheld : s'.held = s.held := he.2.1
  have hdetaches : ∀ id, s'.held (.volume id) = none → ∀ vm_id attachment,
      s'.view (.attachment vm_id id) = some attachment →
        s'.rows (.attachment vm_id id) = some attachment := by
    intro id hid vm_id attachment ha
    cases hattachment : s.held (.attachment vm_id id) with
    | none =>
      have hattachment' : s'.held (.attachment vm_id id) = none := by rw [hheld, hattachment]
      rw [view_of_free hattachment'] at ha
      exact ha
    | some o =>
      have hattachment' : s'.held (.attachment vm_id id) = some o := by rw [hheld, hattachment]
      rw [view_of_held hattachment'] at ha
      rw [env_held he (by rw [hattachment]; exact some_ne_none o)]
      refine hs.detaches id (by rw [← hheld, hid]) vm_id attachment ?_
      rw [view_of_held hattachment, ha]
  refine ⟨hrows, fun id => ?_, hdetaches⟩
  cases hid : s.held (.volume id) with
  | none =>
    have hid' : s'.held (.volume id) = none := by rw [hheld, hid]
    rw [view_of_free hid']
    exact (hrows id).detach (hdetaches id hid')
  | some o =>
    have hid' : s'.held (.volume id) = some o := by rw [hheld, hid]
    have hvolume : s'.view (.volume id) = s.view (.volume id) := by
      rw [view_of_held hid', view_of_held hid]
    rw [hvolume]
    exact (hs.view id).detach fun vm_id attachment ha =>
      env_detaches he (by rw [hid]; exact some_ne_none o) ha

theorem stable_claimed (id : Uuid) (volume : VolumeRecord) :
    (guardedWorld ok c).Stable (Claimed id volume F) := by
  intro s s' hs he
  refine ⟨stable_guarded hs.guarded he, by rw [he.2.1, hs.held], fun vm_id attachment ha => ?_⟩
  refine hs.attached vm_id attachment (env_detaches he ?_ ha)
  rw [hs.held]
  exact some_ne_none _

theorem yields_guarded {tables : List Table} {p : Fleet α} (hp : Fleet.Uses (Within tables) p)
    (hvolumes : .volumes ∉ tables) (hattachments : .attachments ∉ tables) : Guards ok c p :=
  yields_uses hp stable_guarded fun _ _ _ hst hs _ ha _ =>
    hs.within hvolumes hattachments hst ha

theorem yields_guarded_pure (a : α) : Guards ok c (pure a : Fleet α) :=
  .pure stable_guarded fun _ hs => hs

/-! ## The statements on volumes -/

section Statements

theorem Guarded.volume (hs : Guarded s) {a : st.Answer} {o : Option VolumeRecord}
    (htouch : st.touch fleetSchema s.view a = Stmt.only (.volume id) (some o))
    (h : Exclusive (s.view (.volume id)) (fun vm_id => s.view (.attachment vm_id id)) →
      Exclusive o fun vm_id => s.view (.attachment vm_id id)) :
    Guarded (s.perform fleetSchema st a) := by
  have hattached (vm_id id' : Uuid) : (s.perform fleetSchema st a).view (.attachment vm_id id') =
      s.view (.attachment vm_id id') :=
    view_perform_of_ne htouch (by simp)
  refine hs.perform fun id' => ?_
  by_cases hid : id' = id
  · subst hid
    refine .inr ⟨?_, ?_⟩
    · rw [perform_held, htouch, only_self]
      exact some_ne_none o
    · rw [view_perform_self htouch]
      simp only [hattached]
      exact h (hs.view id')
  · refine .inl ⟨view_perform_of_ne htouch fun h => hid (FleetKey.volume.inj h), ?_⟩
    intro vm_id attachment ha
    rw [hattached] at ha
    exact ha

theorem Guarded.insertVolume (hs : Guarded s) {row : VolumeRecord}
    {p : (k : FleetKey) → FleetRow k → Bool} {a : Bool}
    (ha : (Stmt.insertIfNone (.volume id) row p).Answers s.view a) :
    Guarded (s.perform fleetSchema (.insertIfNone (.volume id) row p) a) := by
  cases a with
  | false => exact hs.unchanged (only_none _)
  | true =>
    have hnone : s.view (.volume id) = none := (ha.mp rfl).1
    refine hs.volume (touch_insertIfNone _ _ _ _ _) fun h => ?_
    rw [hnone] at h
    exact exclusive_of_unattached h.unattached

variable {a : Option VolumeRecord}

theorem Guarded.updateVolume (hs : Guarded s) {set : VolumeRecord → VolumeRecord}
    (ha : (Stmt.update (.volume id) cond set).Answers s.view a)
    (hstatus : ∀ volume, (set volume).status ≠ .Deleting)
    (hcapabilities : ∀ volume, (set volume).capabilities = volume.capabilities) :
    Guarded (s.perform fleetSchema (.update (.volume id) cond set) a) := by
  cases a with
  | none => exact hs.unchanged (only_none _)
  | some row =>
    obtain ⟨volume, hfound, rfl⟩ := map_eq_some_iff.mp (Eq.symm ha)
    have hvolume := (filter_eq_some_iff.mp hfound).1
    refine hs.volume (touch_update _ _ _ _ _ _) fun h => ?_
    rw [hvolume] at h
    exact h.change (hstatus volume) (hcapabilities volume)

theorem Claimed.updateVolume {volume : VolumeRecord} (hs : Claimed id volume (fun _ => False) s)
    {set : VolumeRecord → VolumeRecord} :
    Guarded (s.perform fleetSchema (.update (.volume id) cond set) a) := by
  cases a with
  | none => exact hs.guarded.unchanged (only_none _)
  | some row =>
    refine hs.guarded.volume (touch_update _ _ _ _ _ _) fun _ => ?_
    exact exclusive_of_unattached fun vm_id => eq_none_iff_forall_ne_some.mpr
      fun attachment ha => hs.attached vm_id attachment ha

theorem Guarded.deleteVolume (hs : Guarded s)
    (ha : (Stmt.delete (.volume id) cond (attachedTo id)).Answers s.view a) :
    Guarded (s.perform fleetSchema (.delete (.volume id) cond (attachedTo id)) a) := by
  cases a with
  | none => exact hs.unchanged rfl
  | some row =>
    obtain ⟨_, hfree⟩ | ⟨hnone, _⟩ := ha
    · have hunattached (vm_id : Uuid) : s.view (.attachment vm_id id) = none := by
        cases hview : s.view (.attachment vm_id id) with
        | none => rfl
        | some attachment =>
          have hattached := hfree _ _ hview
          rw [attachedTo, beq_self_eq_true] at hattached
          cases hattached
      have hview (k : FleetKey) (hk : k ≠ .volume id) :
          (s.perform fleetSchema (.delete (.volume id) cond (attachedTo id)) (some row)).view k =
            s.view k := by
        rw [view_perform, touch_delete_some, cascade_of_ne hk]
        have hkept : (s.view k).bind (fleetSchema.onDelete (.volume id) k) = none := by
          rw [bind_eq_none_iff]
          intro r _
          cases k <;> rfl
        rw [hkept]
        rfl
      refine hs.perform fun id' => ?_
      by_cases hid : id' = id
      · subst hid
        refine .inr ⟨?_, exclusive_of_unattached fun vm_id => ?_⟩
        · rw [perform_held, touch_delete_some, cascade_self]
          exact some_ne_none none
        · rw [hview _ (by simp), hunattached]
      · refine .inl ⟨hview _ fun h => hid (FleetKey.volume.inj h), fun vm_id attachment ha => ?_⟩
        rw [hview _ (by simp)] at ha
        exact ha
    · cases hnone

theorem Claimed.attach {volume : VolumeRecord} (hs : Claimed id volume F s)
    (hstatus : volume.status ≠ .Deleting) {vm_id : Uuid} {attachment : VmVolumeAttachmentRecord}
    (hconflict : volume.capabilities.read_write_many = true ∨
      ∀ attachment', F attachment' → ¬ Conflicting attachment attachment') {a : Unit} :
    Guarded (s.perform fleetSchema (.insert (.attachment vm_id id) attachment) a) := by
  let st : Stmt FleetRow := .insert (.attachment vm_id id) attachment
  have htouch := touch_insert fleetSchema s.view (.attachment vm_id id) attachment a
  have hvolume (id' : Uuid) : (s.perform fleetSchema st a).view (.volume id') =
      s.view (.volume id') := view_perform_of_ne htouch (by simp)
  have hview : ∀ vm_id' id' attachment',
      (s.perform fleetSchema st a).view (.attachment vm_id' id') = some attachment' →
        (vm_id' = vm_id ∧ id' = id ∧ attachment' = attachment) ∨
          s.view (.attachment vm_id' id') = some attachment' := by
    intro vm_id' id' attachment' ha
    by_cases hkey : (FleetKey.attachment vm_id' id') = .attachment vm_id id
    · obtain ⟨rfl, rfl⟩ := FleetKey.attachment.inj hkey
      rw [view_perform_self htouch] at ha
      exact .inl ⟨rfl, rfl, (Option.some.inj ha).symm⟩
    · rw [view_perform_of_ne htouch hkey] at ha
      exact .inr ha
  refine hs.guarded.perform fun id' => ?_
  by_cases hid : id' = id
  swap
  · refine .inl ⟨hvolume id', fun vm_id' attachment' ha => ?_⟩
    obtain ⟨_, hid', _⟩ | hview := hview vm_id' id' attachment' ha
    · exact absurd hid' hid
    · exact hview
  subst hid
  refine .inr ⟨?_, ?_⟩
  · rw [perform_held, hs.held]
    simp
  · rw [hvolume, hs.view]
    have hold := hs.guarded.view id'
    rw [hs.view] at hold
    have hfree := hconflict.imp_right fun h vm_id' attachment' ha =>
      h attachment' (hs.attached vm_id' attachment' ha)
    exact hold.attach hstatus hfree fun vm_id' attachment' ha =>
      (hview vm_id' id' attachment' ha).imp_left fun h => ⟨h.1, h.2.2⟩

theorem Claimed.query {volume : VolumeRecord} (hs : Claimed id volume F s) (hst : Within [] st)
    {a : st.Answer} (ha : st.Answers s.view a) :
    Claimed id volume F (s.perform fleetSchema st a) where
  guarded := hs.guarded.within (by simp) (by simp) hst ha
  held := by
    have hview := view_unwritten (k := .volume id) hst ha (by simp) fun k' hk' _ => by
      cases hk'
    rw [hs.view] at hview
    rw [perform_held, hs.held]
    cases htouch : st.touch fleetSchema s.view a (.volume id) with
    | none => rfl
    | some r =>
      rw [view_perform, htouch] at hview
      exact congrArg some hview
  attached vm_id attachment hattachment := by
    have hview := view_unwritten (k := .attachment vm_id id) hst ha (by simp) fun k' hk' _ => by
      cases hk'
    rw [hview] at hattachment
    exact hs.attached vm_id attachment hattachment

end Statements

/-! ## The calls -/

section Calls

variable {volume : VolumeRecord} {owner_key : String} {expected_revision : UInt64}
  {attachment : VmVolumeAttachmentRecord} {attachments : List VmVolumeAttachmentRecord}

theorem yields_claimed {e : FleetError} {p : Option VolumeRecord → Fleet α}
    {Q : α → Session FleetRow → Prop} (hnone : p none = throw e)
    (h : ∀ volume, (guardedWorld ok c).Yields
      (Claimed id volume fun _ => True) (p (some volume)) Q) :
    (guardedWorld ok c).Yields Guarded (query (.selectForUpdate (.volume id) cond) >>= p) Q := by
  refine .bind (Q := fun found s => Guarded s ∧
      ∀ volume, found = some volume → Claimed id volume (fun _ => True) s)
    (yields_query stable_guarded ?_ fun s a hs _ ha _ => ?_) fun found => ?_
  · intro found s s' hs he
    exact ⟨stable_guarded hs.1 he, fun volume hvolume =>
      stable_claimed _ _ (hs.2 volume hvolume) he⟩
  · have hguarded := hs.within (by simp) (by simp) (within_lock [] _ _) ha
    refine ⟨hguarded, fun volume hvolume => ⟨hguarded, ?_, fun _ _ _ => trivial⟩⟩
    subst hvolume
    rw [perform_held, touch_selectForUpdate, only_self]
    rfl
  · cases found with
    | none =>
      rw [hnone]
      exact .throw e
    | some volume =>
      exact (h volume).pre fun _ hs => hs.2 volume rfl

/-- What was found of the attachments of a volume that is held: if nothing, all of them
have `F`. -/
def Found (id : Uuid) (volume : VolumeRecord) (F : VmVolumeAttachmentRecord → Prop)
    (found : Option ((k : FleetKey) × FleetRow k)) (s : Session FleetRow) : Prop :=
  Claimed id volume (fun _ => True) s ∧ (found = none → Claimed id volume F s)

theorem yields_find {volume : VolumeRecord} {p : (k : FleetKey) → FleetRow k → Bool}
    (hp : ∀ vm_id attachment, p (.attachment vm_id id) attachment = false → F attachment) :
    (guardedWorld ok c).Yields (Claimed id volume fun _ => True)
      (query (.find p)) (Found id volume F) := by
  refine yields_query (stable_claimed _ _) (fun _ _ _ hs he =>
    ⟨stable_claimed _ _ hs.1 he, fun h => stable_claimed _ _ (hs.2 h) he⟩) fun s a hs _ ha _ => ?_
  have hclaimed := hs.query (show Within [] (.find p) from trivial) ha
  refine ⟨hclaimed, fun hnone =>
    ⟨hclaimed.guarded, hclaimed.held, fun vm_id attachment hview => ?_⟩⟩
  subst hnone
  refine hp vm_id attachment (ha _ _ ?_)
  rw [← hview, view_perform]
  rfl

theorem insertVolume_guarded : Guards ok c (insertVolume volume) := by
  refine yields_ensure fun _ => yields_ensure fun _ =>
    yields_ensure fun _ => yields_ensure fun _ => ?_
  refine .bind (yields_query stable_guarded
    (fun _ => stable_guarded) fun s a hs _ ha _ => hs.insertVolume ha) fun inserted => ?_
  cases inserted with
  | true => exact yields_guarded_pure volume
  | false =>
    have hrest : Fleet.Uses (Within [])
        (query (.find (identified volume)) >>= existingVolume volume) :=
      .bind (.query trivial) fun _ => existingVolume_within _
    exact yields_guarded hrest (by simp) (by simp)

theorem transitionVolume_guarded (transition : VolumeTransition) :
    Guards ok c (transitionVolume owner_key id transition) := by
  refine yields_checkedSucc fun revision _ => ?_
  refine yields_ensure fun _ => yields_ensure fun _ => ?_
  refine .bind (yields_query stable_guarded
    (fun _ => stable_guarded) fun s a hs _ ha _ =>
      hs.updateVolume ha (fun _ => transition.settles) fun _ => rfl) fun found => ?_
  cases found with
  | some volume => exact yields_guarded_pure volume
  | none =>
    exact yields_guarded (.bind uses_ensureSource fun _ => .throw) List.not_mem_nil List.not_mem_nil

theorem beginVolumeDelete_guarded (expected_status : VolumeStatus) (updated_at : Timestamp) :
    Guards ok c (beginVolumeDelete owner_key id expected_status expected_revision updated_at) := by
  refine yields_claimed rfl fun volume => ?_
  refine yields_ensure fun _ => yields_ensure fun _ => yields_ensure fun _ => ?_
  refine .bind (yields_find (F := fun _ => False) fun vm_id attachment hfree => ?_)
    fun found => yields_ensure fun hnone => ?_
  · rw [attachedTo, beq_self_eq_true] at hfree
    cases hfree
  refine .conseq ?_ (fun _ hs => hs.2 (isNone_iff_eq_none.mp hnone)) fun _ _ hs => hs
  refine yields_checkedSucc fun revision _ => ?_
  refine yields_ensure fun _ => ?_
  refine .bind (yields_query (stable_claimed _ _)
    (fun _ => stable_guarded) fun s a hs _ _ _ => hs.updateVolume) fun found => ?_
  cases found with
  | none => exact .throw _
  | some volume => exact yields_guarded_pure volume

theorem deleteVolumeMetadata_guarded :
    Guards ok c (deleteVolumeMetadata owner_key id expected_revision) := by
  refine yields_ensure fun _ => ?_
  refine .bind (yields_query stable_guarded
    (fun _ => stable_guarded) fun s a hs _ ha _ => hs.deleteVolume ha) fun found => ?_
  cases found with
  | some volume => exact yields_guarded_pure ()
  | none =>
    exact yields_guarded (.bind uses_ensureSource fun _ => .throw) List.not_mem_nil List.not_mem_nil

/-- What `ensureExclusive` has established of the other attachments. -/
def Admits (volume : VolumeRecord) (attachment attachment' : VmVolumeAttachmentRecord) : Prop :=
  volume.capabilities.read_write_many = true ∨ ¬ Conflicting attachment attachment'

theorem ensureExclusive_claimed :
    (guardedWorld ok c).Yields
      (Claimed attachment.volume_id volume fun _ => True) (ensureExclusive volume attachment)
      fun _ => Claimed attachment.volume_id volume (Admits volume attachment) := by
  unfold ensureExclusive
  split
  · next hmany =>
    exact .pure (stable_claimed _ _) fun _ hs => ⟨hs.guarded, hs.held, fun _ _ _ => .inl hmany⟩
  refine .bind (yields_find (F := Admits volume attachment)
    fun vm_id attachment' hfree => .inr ?_) fun found => ?_
  · simpa [excludedBy, Conflicting] using hfree
  · cases found with
    | none =>
      exact (yields_ensured (stable_claimed _ _) true _).pre fun _ hs => hs.2 rfl
    | some row => exact .throw _

theorem bindVolume_guarded (count : Nat) : Guards ok c (bindVolume count attachment) := by
  refine yields_ensure fun _ => yields_claimed rfl fun volume => ?_
  refine yields_ensure fun havailable => yields_ensure fun _ => yields_ensure fun _ => ?_
  have hstatus : volume.status ≠ .Deleting := by
    rw [Bool.and_eq_true] at havailable
    rw [eq_of_beq havailable.2]
    decide
  have hstable : (guardedWorld ok c).Stable
      (Claimed attachment.volume_id volume fun _ => True) := stable_claimed _ _
  refine .bind (yields_query hstable (fun _ => hstable)
    fun s a hs _ ha _ => hs.query (within_select [] _) ha) fun existing => ?_
  cases existing with
  | some existing =>
    exact (yields_ensured hstable _ _).post fun _ _ hs => hs.guarded
  | none =>
    refine .bind ensureExclusive_claimed fun _ =>
      yields_query (stable_claimed _ _) (fun _ => stable_guarded)
        fun s a hs _ _ _ => hs.attach hstatus ?_
    by_cases hmany : volume.capabilities.read_write_many = true
    · exact .inl hmany
    · exact .inr fun attachment' h => h.resolve_left hmany

theorem bindVolumes_guarded (count : Nat) : Guards ok c (bindVolumes count attachments) := by
  induction attachments with
  | nil => exact yields_guarded_pure ()
  | cons attachment rest ih =>
    exact .bind (bindVolume_guarded count) fun _ => ih

theorem bindVmVolumes_guarded : Guards ok c (bindVmVolumes attachments) := by
  refine yields_ensure fun _ => ?_
  cases attachments with
  | nil => exact yields_guarded_pure ()
  | cons first rest =>
    refine yields_ensure fun _ => ?_
    refine .bind (yields_guarded (.query (within_lock [] _ _)) (by simp) (by simp)) fun found => ?_
    cases found with
    | none => exact .throw _
    | some vm =>
      exact yields_ensure fun _ => bindVolumes_guarded _

theorem unbindVmVolumes_guarded (vm_id : Uuid) : Guards ok c (unbindVmVolumes owner_key vm_id) := by
  refine yields_query stable_guarded (fun _ => stable_guarded) fun s a hs _ _ _ => ?_
  refine hs.perform fun id => .inl ⟨?_, fun vm_id' attachment ha => ?_⟩
  · rw [view_deleteWhere]
    cases s.view (.volume id) <;> rfl
  · rw [view_deleteWhere] at ha
    exact (filter_eq_some_iff.mp ha).1

/-- Every call keeps the fences of the volumes it writes. -/
theorem prog_guarded (c : FleetCall) : Guards ok c c.prog := by
  have hrest (hvolumes : .volumes ∉ c.writes) (hattachments : .attachments ∉ c.writes) :
      Guards ok c c.prog := yields_guarded (prog_within c) hvolumes hattachments
  cases c with
  | insertVolume volume => exact insertVolume_guarded
  | transitionVolume => exact transitionVolume_guarded _
  | beginVolumeDelete => exact beginVolumeDelete_guarded _ _
  | deleteVolumeMetadata => exact deleteVolumeMetadata_guarded
  | bindVmVolumes attachments => exact bindVmVolumes_guarded
  | unbindVmVolumes => exact unbindVmVolumes_guarded _
  | _ => exact hrest (by simp [FleetCall.writes]) (by simp [FleetCall.writes])

end Calls

theorem fences_empty : Fences fun _ => none := fun _ => exclusive_of_unattached fun _ => rfl

/-- From `prog_guarded`, over any interleaving of transactions. -/
theorem fleet_guarded {T : Type} [DecidableEq T]
    {ok : FleetCall → Session FleetRow → Stmt FleetRow → Prop} {initial : Rows FleetRow}
    (hinitial : Fences initial) {s : Sys T FleetRow FleetCall.Reply FleetError}
    (hs : (fleetService ok).Reaches initial s) :
    (fleetService ok).Sound True (fun _ _ => Guarded) Fences s :=
  hs.sound (fun _ _ _ => trivial) hinitial (fun _ _ w _ hw => hw.view) fun c =>
    (prog_guarded c).pre fun w hw => by
      rw [hw.2]
      exact guarded_start hw.1

end Tarit.Fleet
