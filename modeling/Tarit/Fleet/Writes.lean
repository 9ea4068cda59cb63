import Tarit.Fleet.Calls

/-!
# The tables each call writes

`FleetCall.writes` lists the tables in which a call writes rows, and `prog_within` proves
the list: whatever the statements of a call answer, all of its writes are in these tables.
What deleting a row does to the rows that refer to it is not a write of the statement; the
schema says which rows that are.
-/
namespace Tarit.Fleet

open Lib Prog

/-- `vmRemovals` is the right to delete rows of `fleet_vms`, which deletes the rows that
refer to them as well. -/
inductive Table where
  | hosts | vms | vmRemovals | artifacts | branches | hibernations | vmArtifactRefs | volumes
  | attachments | reservations
  deriving DecidableEq

def FleetKey.table : FleetKey → Table
  | .host _ => .hosts
  | .vm _ => .vms
  | .artifact _ => .artifacts
  | .branch _ => .branches
  | .hibernation _ => .hibernations
  | .vmArtifactRef _ => .vmArtifactRefs
  | .volume _ => .volumes
  | .attachment _ _ => .attachments
  | .reservation _ => .reservations

/-- The right it takes to delete the row. -/
def FleetKey.removal : FleetKey → Table
  | .vm _ => .vmRemovals
  | k => k.table

def Within (tables : List Table) : Stmt FleetRow → Prop
  | .select _ => True
  | .selectForUpdate _ _ => True
  | .find _ => True
  | .update k _ _ => k.table ∈ tables
  | .insert k _ => k.table ∈ tables
  | .insertIfNone k _ _ => k.table ∈ tables
  | .upsert k _ _ _ => k.table ∈ tables
  | .delete k _ _ => k.table ∈ tables ∧ k.removal ∈ tables
  | .deleteWhere p => ∀ k r, p k r = true → k.table ∈ tables

theorem within_select (tables : List Table) (k : FleetKey) : Within tables (.select k) := trivial

theorem within_lock (tables : List Table) (k : FleetKey) (cond : FleetRow k → Bool) :
    Within tables (.selectForUpdate k cond) := trivial

variable {st : Stmt FleetRow}

theorem not_writes_of_within {tables : List Table} {k : FleetKey} (hst : Within tables st)
    (hk : k.table ∉ tables) : ¬ st.Writes k := by
  intro h
  cases st with
  | select | selectForUpdate | find => exact h
  | update | insert | insertIfNone | upsert =>
    subst h
    exact hk hst
  | delete =>
    subst h
    exact hk hst.1
  | deleteWhere p =>
    obtain ⟨r, hr⟩ := h
    exact hk (hst k r hr)

/-- A statement that does not write the table of a row, nor deletes a row it depends on,
leaves it as it is. -/
theorem view_unwritten {s : Session FleetRow} {tables : List Table} (hst : Within tables st)
    {a : st.Answer} (ha : st.Answers s.view a) {k : FleetKey} (hk : k.table ∉ tables)
    (hdelete : ∀ k', k'.removal ∈ tables → ∀ row, fleetSchema.onDelete k' k row = none) :
    (s.perform fleetSchema st a).view k = s.view k := by
  rw [Session.view_perform]
  cases htouch : st.touch fleetSchema s.view a k with
  | none => rfl
  | some r =>
    obtain hr | ⟨k', cond, p, rfl, hr⟩ :=
      Stmt.touch_unwritten (not_writes_of_within hst hk) ha htouch
    · exact hr
    obtain ⟨row, _, hrow⟩ := Option.bind_eq_some_iff.mp hr
    rw [hdelete k' hst.2 row] at hrow
    cases hrow

namespace FleetCall

@[simp] def writes : FleetCall → List Table
  | upsertHost _ _ => [.hosts]
  | upsertVm _ => [.vms, .reservations]
  | claimHibernatedVm _ _ => [.vms]
  | deleteVm _ _ _ => [.vms, .vmRemovals, .hibernations, .vmArtifactRefs, .artifacts]
  | upsertHibernation _ => [.hibernations, .artifacts]
  | updateHibernationEgress _ _ _ _ => [.hibernations]
  | deleteHibernation _ _ _ _ => [.hibernations, .artifacts]
  | acquireVmArtifactRef _ _ _ => [.vmArtifactRefs, .artifacts]
  | releaseVmArtifactRef _ _ _ => [.vmArtifactRefs, .artifacts]
  | insertArtifact _ _ _ => [.artifacts]
  | setReplicationState _ _ _ _ => [.artifacts]
  | deleteArtifactIfUnreferenced _ _ _ => [.artifacts]
  | insertBranch _ => [.branches, .artifacts]
  | updateBranchHead _ _ _ _ _ => [.branches, .artifacts]
  | deleteBranch _ _ _ _ => [.branches, .artifacts]
  | insertVolume _ => [.volumes]
  | transitionVolume _ _ _ => [.volumes]
  | beginVolumeDelete _ _ _ _ _ => [.volumes]
  | deleteVolumeMetadata _ _ _ => [.volumes]
  | bindVmVolumes _ => [.attachments]
  | unbindVmVolumes _ _ => [.attachments]

end FleetCall

/-! ## Rules for the programs -/

section Yields

variable {w : World (Session FleetRow) (Stmt FleetRow) Stmt.Answer} {P : Session FleetRow → Prop}
  {α : Type} {Q : α → Session FleetRow → Prop}

theorem yields_ensure {b : Bool} {e : FleetError} {k : Unit → Fleet α}
    (h : b = true → w.Yields P (k ()) Q) : w.Yields P (ensure b e >>= k) Q := by
  cases b with
  | true => exact h rfl
  | false => exact .throw e

theorem yields_ensured (hP : w.Stable P) (b : Bool) (e : FleetError) :
    w.Yields P (ensure b e) fun _ => P := by
  cases b with
  | true => exact .pure hP fun _ hs => hs
  | false => exact .throw e

theorem yields_checkedSucc {revision : UInt64} {message : String} {k : UInt64 → Fleet α}
    (h : ∀ next, next.toNat = revision.toNat + 1 → w.Yields P (k next) Q) :
    w.Yields P (checkedSucc revision message >>= k) Q := by
  unfold checkedSucc
  split
  · next hfits =>
    refine h (revision + 1) ?_
    rw [UInt64.toNat_add]
    exact Nat.mod_eq_of_lt hfits
  · exact .throw _

theorem yields_rowToVm {id : Uuid} {row : VmRow} {k : VmRecord → Fleet α}
    (h : w.Yields P (k (vmOfRow id row)) Q) : w.Yields P (rowToVm id row >>= k) Q := by
  unfold rowToVm
  generalize decide (row.memory_mib.toNat < 2 ^ 63) = b
  cases b with
  | true => exact h
  | false => exact .throw _

/-- What the transaction of a call meets. -/
abbrev fleetWorld (ok : FleetCall → Session FleetRow → Stmt FleetRow → Prop)
    (Post : (c : FleetCall) → c.Reply → Session FleetRow → Prop) (c : FleetCall) :
    World (Session FleetRow) (Stmt FleetRow) Stmt.Answer :=
  (fleetService ok).world True Post c

def Fresh (s : Session FleetRow) : Prop := s.held = fun _ => none

section World

variable {ok : FleetCall → Session FleetRow → Stmt FleetRow → Prop}
  {Post : (c : FleetCall) → c.Reply → Session FleetRow → Prop}

theorem stable_fresh (c : FleetCall) : (fleetWorld ok Post c).Stable Fresh :=
  Service.stable_own fun _ _ hheld _ _ hs => hheld.trans hs

theorem stable_held (c : FleetCall) (k : FleetKey) (h : Option (Option (FleetRow k))) :
    (fleetWorld ok Post c).Stable fun s => s.held k = h :=
  Service.stable_own fun s s' hheld _ _ hs => by rw [hheld, hs]

end World

end Yields

/-! ## The programs statement by statement -/

def Fleet.Uses (S : Stmt FleetRow → Prop) {α : Type} (p : Fleet α) : Prop := p.run.Uses S

section Uses

variable {S : Stmt FleetRow → Prop} {α β : Type} {b : Bool} {e : FleetError}

theorem Fleet.Uses.bind {p : Fleet α} {k : α → Fleet β} (hp : Fleet.Uses S p)
    (hk : ∀ a, Fleet.Uses S (k a)) : Fleet.Uses S (p >>= k) := by
  refine uses_bind hp fun r => ?_
  match r with
  | .ok a => exact hk a
  | .error e => trivial

theorem Fleet.Uses.ensured {k : Unit → Fleet α} (h : Fleet.Uses S (k ())) :
    Fleet.Uses S (ensure b e >>= k) := by
  cases b with
  | true => exact h
  | false => exact uses_run_throw e

theorem Fleet.Uses.ensure : Fleet.Uses S (ensure b e) := by
  cases b with
  | true => exact uses_run_pure ()
  | false => exact uses_run_throw e

theorem Fleet.Uses.checkedSucc {revision : UInt64} {message : String} :
    Fleet.Uses S (checkedSucc revision message) := by
  unfold Fleet.checkedSucc
  split
  · exact uses_run_pure _
  · exact uses_run_throw _

theorem Fleet.Uses.query (h : S st) : Fleet.Uses S (query st) :=
  uses_bind (uses_perform h) fun _ => trivial

theorem Fleet.Uses.throw : Fleet.Uses S (throw e : Fleet α) := uses_run_throw e

theorem Fleet.Uses.pure {a : α} : Fleet.Uses S (pure a : Fleet α) := uses_run_pure a

theorem Fleet.Uses.rowToVm {id : Uuid} {row : VmRow} : Fleet.Uses S (rowToVm id row) :=
  .ensured .pure

theorem Fleet.Uses.unless {c : Prop} [Decidable c] {p q : Fleet α} (hp : Fleet.Uses S p)
    (hq : Fleet.Uses S q) : Fleet.Uses S (if c then p else q) := by
  split
  · exact hp
  · exact hq

theorem Fleet.Uses.found {p : Fleet (Option α)} {k : Option α → Fleet β} (hp : Fleet.Uses S p)
    (hnone : Fleet.Uses S (k none)) (hsome : ∀ a, Fleet.Uses S (k (some a))) :
    Fleet.Uses S (p >>= k) := by
  refine .bind hp fun row => ?_
  cases row with
  | none => exact hnone
  | some a => exact hsome a

end Uses

abbrev Fleet.Writes (tables : List Table) {α : Type} (p : Fleet α) : Prop :=
  Fleet.Uses (Within tables) p

section Within

variable {tables : List Table} {owner_key message : String} {artifact_id branch_id vm_id id : Uuid}
  {now updated_at : Timestamp} {rounds : Nat} {vm : VmRecord} {artifact : ArtifactRecord}
  {branch : BranchRecord} {volume : VolumeRecord} {record : FleetHibernationRecord}
  {claim : HibernationClaim} {ready : ArtifactRecord → Bool} {single : Bool} {count : Nat}
  {expected_revision : UInt64} {new_head : Uuid}

theorem uses_ensureSource {k : FleetKey} {owned : FleetRow k → Bool} :
    Fleet.Writes tables (ensureSource k owned) :=
  .bind (.query trivial) fun _ => .ensure

theorem staleUpsert_within {existing : Option VmRow} :
    Fleet.Writes tables (staleUpsert vm existing) := by
  cases existing with
  | none => exact .throw
  | some existing => exact .bind .rowToVm fun _ => .ensured <| .ensured .pure

theorem dropReservation_within (h : .reservations ∈ tables) :
    Fleet.Writes tables (dropReservation vm) := by
  unfold dropReservation
  split
  · exact .pure
  · exact .bind (.query ⟨h, h⟩) fun _ => .pure

theorem upsertVm_within (hvms : .vms ∈ tables) (hreservations : .reservations ∈ tables) :
    Fleet.Writes tables (upsertVm vm) :=
  .ensured <| .found (.query hvms) (.bind (.query trivial) fun _ => staleUpsert_within) fun _ =>
    .bind (dropReservation_within hreservations) fun _ => .pure

theorem moveVm_within (h : .vms ∈ tables) : Fleet.Writes tables (moveVm claim vm now) :=
  .bind (.query trivial) fun _ => .ensured <| .bind .checkedSucc fun _ => .ensured <|
    .bind (.query h) fun _ => .ensured .pure

theorem claimHibernatedVm_within (h : .vms ∈ tables) :
    Fleet.Writes tables (claimHibernatedVm claim now) :=
  .found (.query trivial) .throw fun _ => .bind .rowToVm fun _ => .ensured <| .ensured <|
    .bind (.query trivial) fun _ => .ensured <| .unless .pure (moveVm_within h)

theorem initialReplicationState_within :
    Fleet.Writes tables (initialReplicationState artifact single now) := by
  unfold initialReplicationState
  split
  · exact .bind (.query trivial) fun _ => .pure
  · exact .pure
  · exact .pure

theorem ensureSourceBranch_within : Fleet.Writes tables (ensureSourceBranch branch) := by
  unfold ensureSourceBranch
  split
  · exact .pure
  · exact uses_ensureSource

theorem ensureSourceVm_within : Fleet.Writes tables (ensureSourceVm branch) := by
  unfold ensureSourceVm
  split
  · exact .pure
  · exact uses_ensureSource

section Artifacts

variable (hartifacts : .artifacts ∈ tables)

include hartifacts

theorem acquireArtifact_within :
    Fleet.Writes tables (acquireArtifact artifact_id owner_key ready updated_at) :=
  .bind (.query hartifacts) fun _ => .ensure

theorem releaseArtifact_within :
    Fleet.Writes tables (releaseArtifact artifact_id owner_key updated_at message) :=
  .bind (.query hartifacts) fun _ => .ensure

theorem chain_within (candidate : Uuid) :
    Fleet.Writes tables (deleteUnreferencedArtifactChainTx owner_key now rounds candidate) := by
  induction rounds generalizing candidate with
  | zero => exact .throw
  | succ rounds ih =>
    refine .found (.query trivial) .pure fun artifact => .unless ?_ .pure
    refine .bind (.query ⟨hartifacts, hartifacts⟩) fun _ => ?_
    split
    · exact .pure
    · exact .bind (releaseArtifact_within hartifacts) fun _ => ih _

theorem releasedChain_within (candidate : Uuid) : Fleet.Writes tables (do
    releaseArtifact artifact_id owner_key updated_at message
    deleteUnreferencedArtifactChainTx owner_key now rounds candidate) :=
  .bind (releaseArtifact_within hartifacts) fun _ => chain_within hartifacts candidate

theorem releaseVmArtifactRefTx_within (hrefs : .vmArtifactRefs ∈ tables) :
    Fleet.Writes tables (releaseVmArtifactRefTx vm now rounds) :=
  .found (.query trivial) .pure fun _ => .ensured <| .bind (.query ⟨hrefs, hrefs⟩) fun _ =>
    releasedChain_within hartifacts _

theorem acquireVmArtifactRef_within (hrefs : .vmArtifactRefs ∈ tables) :
    Fleet.Writes tables (acquireVmArtifactRef vm artifact_id now) := by
  unfold acquireVmArtifactRef
  dsimp only
  split
  · exact .throw
  · exact .found (.query trivial)
      (.bind (acquireArtifact_within hartifacts) fun _ => .query hrefs) fun _ => .ensure

theorem upsertHibernation_within (hhibernations : .hibernations ∈ tables) :
    Fleet.Writes tables (upsertHibernation record) := by
  refine .ensured <| .bind (.query trivial) fun existing =>
    .bind (.unless .pure (acquireArtifact_within hartifacts)) fun _ => .ensured <|
    .bind (.query hhibernations) fun _ => .ensured ?_
  unfold releasePrevious
  split
  · exact .pure
  · exact .unless .pure (releaseArtifact_within hartifacts)

theorem deleteHibernation_within (hhibernations : .hibernations ∈ tables) :
    Fleet.Writes tables (deleteHibernation owner_key vm_id now rounds) :=
  .found (.query ⟨hhibernations, hhibernations⟩) .throw fun _ => releasedChain_within hartifacts _

theorem releaseHibernation_within {hibernation : Option HibernationRow} :
    Fleet.Writes tables (releaseHibernation now rounds hibernation) := by
  cases hibernation with
  | none => exact .pure
  | some row => exact releasedChain_within hartifacts _

theorem deleteVm_within (hvms : .vms ∈ tables) (hremovals : .vmRemovals ∈ tables)
    (hhibernations : .hibernations ∈ tables) (hrefs : .vmArtifactRefs ∈ tables) :
    Fleet.Writes tables (deleteVm vm now rounds) :=
  .bind (.query trivial) fun _ => .ensured <|
    .bind (releaseVmArtifactRefTx_within hartifacts hrefs) fun _ =>
    .bind (.query ⟨hhibernations, hhibernations⟩) fun _ =>
    .bind (releaseHibernation_within hartifacts) fun _ =>
    .bind (.query ⟨hvms, hremovals⟩) fun _ => .pure

theorem insertArtifact_within : Fleet.Writes tables (insertArtifact artifact single now) := by
  refine .ensured <| .bind (.query trivial) fun existing => ?_
  split
  · exact .ensure
  refine .bind ?_ fun _ => .ensured <| .ensured <| .ensured <| .ensured <|
    .bind initialReplicationState_within fun _ => .query hartifacts
  unfold acquireParent
  split
  · exact .pure
  · exact acquireArtifact_within hartifacts

theorem deleteArtifactIfUnreferenced_within :
    Fleet.Writes tables (deleteArtifactIfUnreferenced owner_key artifact_id now) := by
  refine .found (.query trivial) .throw fun artifact => .ensured <|
    .bind (.query ⟨hartifacts, hartifacts⟩) fun _ => .bind ?_ fun _ => .pure
  unfold releaseParent
  split
  · exact .pure
  · exact releaseArtifact_within hartifacts

theorem insertBranch_within (hbranches : .branches ∈ tables) :
    Fleet.Writes tables (insertBranch branch) := by
  refine .bind (.query trivial) fun existing => ?_
  split
  · exact .ensured .pure
  exact .bind ensureSourceBranch_within fun _ => .bind ensureSourceVm_within fun _ =>
    .bind (acquireArtifact_within hartifacts) fun _ => .ensured <|
    .bind (.query hbranches) fun _ => .pure

theorem updateBranchHead_within (hbranches : .branches ∈ tables) : Fleet.Writes tables
      (updateBranchHead owner_key branch_id expected_revision new_head updated_at) :=
  .found (.query trivial) .throw fun _ => .ensured <|
    .bind (.unless .pure (acquireArtifact_within hartifacts)) fun _ =>
    .bind .checkedSucc fun _ => .ensured <| .ensured <| .bind (.query hbranches) fun _ =>
    .unless .pure (releaseArtifact_within hartifacts)

theorem deleteBranch_within (hbranches : .branches ∈ tables) :
    Fleet.Writes tables (deleteBranch owner_key branch_id now rounds) :=
  .found (.query trivial) .throw fun _ => .bind (.query ⟨hbranches, hbranches⟩) fun _ =>
    .bind (releaseArtifact_within hartifacts) fun _ =>
    .bind (chain_within hartifacts _) fun _ => .pure

end Artifacts

theorem updateHibernationEgress_within {policy : EgressPolicyRecord} (h : .hibernations ∈ tables) :
    Fleet.Writes tables (updateHibernationEgress owner_key vm_id expected_revision policy) :=
  .bind .checkedSucc fun _ => .ensured <| .ensured <| .ensured <| .bind (.query h) fun _ => .ensure

theorem existingVolume_within (existing : Option ((k : FleetKey) × FleetRow k)) :
    Fleet.Writes tables (existingVolume volume existing) := by
  cases existing with
  | none => exact .throw
  | some row =>
    obtain ⟨k, row⟩ := row
    cases k with
    | volume id => exact .unless (c := sameImmutableVolume row volume = true) .pure .throw
    | _ => exact .throw

section Volumes

variable (hvolumes : .volumes ∈ tables)

include hvolumes

theorem insertVolume_within : Fleet.Writes tables (insertVolume volume) := by
  refine .ensured <| .ensured <| .ensured <| .ensured <| .bind (.query hvolumes) fun inserted => ?_
  cases inserted with
  | true => exact .pure
  | false => exact .bind (.query trivial) fun existing => existingVolume_within _

theorem transitionVolume_within {transition : VolumeTransition} :
    Fleet.Writes tables (transitionVolume owner_key id transition) :=
  .bind .checkedSucc fun _ => .ensured <| .ensured <|
    .found (.query hvolumes) (.bind uses_ensureSource fun _ => .throw) fun _ => .pure

theorem beginVolumeDelete_within {expected_status : VolumeStatus} : Fleet.Writes tables
      (beginVolumeDelete owner_key id expected_status expected_revision updated_at) :=
  .found (.query trivial) .throw fun _ => .ensured <| .ensured <| .ensured <|
    .bind (.query trivial) fun _ => .ensured <| .bind .checkedSucc fun _ => .ensured <|
    .found (.query hvolumes) .throw fun _ => .pure

theorem deleteVolumeMetadata_within :
    Fleet.Writes tables (deleteVolumeMetadata owner_key id expected_revision) :=
  .ensured <| .found (.query ⟨hvolumes, hvolumes⟩) (.bind uses_ensureSource fun _ => .throw)
    fun _ => .pure

end Volumes

section Attachments

variable (hattachments : .attachments ∈ tables)

include hattachments

theorem bindVolume_within {attachment : VmVolumeAttachmentRecord} :
    Fleet.Writes tables (bindVolume count attachment) :=
  .ensured <| .found (.query trivial) .throw fun _ => .ensured <| .ensured <| .ensured <|
    .found (.query trivial)
      (.bind (.unless .pure (.bind (.query trivial) fun _ => .ensure)) fun _ =>
        .query hattachments) fun _ => .ensure

theorem bindVolumes_within (attachments : List VmVolumeAttachmentRecord) :
    Fleet.Writes tables (bindVolumes count attachments) := by
  induction attachments with
  | nil => exact .pure
  | cons attachment rest ih => exact .bind (bindVolume_within hattachments) fun _ => ih

theorem bindVmVolumes_within (attachments : List VmVolumeAttachmentRecord) :
    Fleet.Writes tables (bindVmVolumes attachments) := by
  refine .ensured ?_
  cases attachments with
  | nil => exact .pure
  | cons first rest =>
    exact .ensured <| .found (.query trivial) .throw fun _ => .ensured <|
      bindVolumes_within hattachments _

theorem unbindVmVolumes_within : Fleet.Writes tables (unbindVmVolumes owner_key vm_id) := by
  refine .query fun k row hp => ?_
  cases k with
  | attachment vm volume => exact hattachments
  | _ => cases hp

end Attachments

end Within

theorem prog_within (c : FleetCall) : Fleet.Writes c.writes c.prog := by
  cases c with
  | upsertHost | setReplicationState =>
    exact .bind (.query (by simp [Within, FleetKey.table])) fun _ => .pure
  | upsertVm => exact upsertVm_within (by simp) (by simp)
  | claimHibernatedVm => exact claimHibernatedVm_within (by simp)
  | deleteVm => exact deleteVm_within (by simp) (by simp) (by simp) (by simp) (by simp)
  | upsertHibernation => exact upsertHibernation_within (by simp) (by simp)
  | updateHibernationEgress => exact updateHibernationEgress_within (by simp)
  | deleteHibernation => exact deleteHibernation_within (by simp) (by simp)
  | acquireVmArtifactRef => exact acquireVmArtifactRef_within (by simp) (by simp)
  | releaseVmArtifactRef => exact releaseVmArtifactRefTx_within (by simp) (by simp)
  | insertArtifact => exact insertArtifact_within (by simp)
  | deleteArtifactIfUnreferenced => exact deleteArtifactIfUnreferenced_within (by simp)
  | insertBranch => exact insertBranch_within (by simp) (by simp)
  | updateBranchHead => exact updateBranchHead_within (by simp) (by simp)
  | deleteBranch => exact deleteBranch_within (by simp) (by simp)
  | insertVolume => exact insertVolume_within (by simp)
  | transitionVolume => exact transitionVolume_within (by simp)
  | beginVolumeDelete => exact beginVolumeDelete_within (by simp)
  | deleteVolumeMetadata => exact deleteVolumeMetadata_within (by simp)
  | bindVmVolumes => exact bindVmVolumes_within (by simp) _
  | unbindVmVolumes => exact unbindVmVolumes_within (by simp)

end Tarit.Fleet
