import Tarit.Fleet.Writes
import Tarit.Lib.Schedules

/-!
# Ownership of VM rows

`fleet_vms` is the record of which host runs a VM. `(host_id, created_at)` fences a row: an
update is accepted from the host and the incarnation the row names, and only with a later
revision; a claim moves a hibernated row from a host without a recent heartbeat; a delete
names the host and the incarnation. `VmChange` lists what a call may do to a row, and
`vm_row_fenced` says that in every interleaving nothing else happens to it.

One statement does not carry the fence: the last `DELETE` of `delete_vm` compares the
creation time only. It relies on the row it locked at its start, and when there was none
another host may insert the row in between.
-/
namespace Tarit.Fleet

open Lib Stmt Session Service Option

/-- The transaction looked the host up and found it without a heartbeat since `stale_before`. -/
def SawStale (log : List (Stmt FleetRow × Rows FleetRow)) (host_id : String)
    (stale_before : Timestamp) : Prop :=
  ∃ v, (Stmt.select (.host host_id), v) ∈ log ∧
    (v (.host host_id)).any (HostRow.live stale_before) = false

/-- What the call `c`, having made the statements of `log`, may do to the row of a VM. -/
inductive VmChange (c : FleetCall) (log : List (Stmt FleetRow × Rows FleetRow)) (id : Uuid) :
    Option VmRow → Option VmRow → Prop where
  | kept (row : Option VmRow) : VmChange c log id row row
  | created (vm : VmRecord) (hc : c = .upsertVm vm) (hid : id = vm.id) :
      VmChange c log id none (some (vmRow (normalizeVmTimestampsForPostgres vm)))
  | updated (vm : VmRecord) (row : VmRow) (hc : c = .upsertVm vm) (hid : id = vm.id)
      (haccepts : acceptsVm (normalizeVmTimestampsForPostgres vm) row = true) :
      VmChange c log id (some row) (some (updatedVm (normalizeVmTimestampsForPostgres vm) row))
  | claimed (claim : HibernationClaim) (now : Timestamp) (row : VmRow) (revision : UInt64)
      (hc : c = .claimHibernatedVm claim now) (hid : id = claim.id)
      (hstatus : row.status = .Hibernated)
      (hstale : SawStale log row.host_id claim.stale_before)
      (hrevision : row.revision < revision) :
      VmChange c log id (some row) (some (movedVm claim revision now row))
  | removed (vm : VmRecord) (now : Timestamp) (rounds : Nat) (row : VmRow)
      (hc : c = .deleteVm vm now rounds) (hid : id = vm.id) (hhost : row.host_id = vm.host_id)
      (hcreated : row.created_at = normalizeTimestampForPostgres vm.created_at) :
      VmChange c log id (some row) none

variable {c : FleetCall} {row : VmRow} {vm : VmRecord} {now : Timestamp} {s : Session FleetRow}
  {T : Type} {id : Uuid}

theorem VmChange.extend {log : List (Stmt FleetRow × Rows FleetRow)} {id : Uuid}
    {old new : Option VmRow} (h : VmChange c log id old new)
    (entry : Stmt FleetRow × Rows FleetRow) : VmChange c (entry :: log) id old new := by
  cases h with
  | kept => exact .kept old
  | created vm hc hid => exact .created vm hc hid
  | updated vm row hc hid haccepts => exact .updated vm row hc hid haccepts
  | claimed claim now row revision hc hid hstatus hstale hrevision =>
    obtain ⟨v, hv, hlive⟩ := hstale
    exact .claimed claim now row revision hc hid hstatus ⟨v, .tail _ hv, hlive⟩ hrevision
  | removed vm now rounds row hc hid hhost hcreated =>
    exact .removed vm now rounds row hc hid hhost hcreated

theorem VmChange.eq_of_deleteVm {rounds : Nat} {log : List (Stmt FleetRow × Rows FleetRow)}
    {id : Uuid} {old : Option VmRow}
    (h : VmChange (.deleteVm vm now rounds) log id old (some row)) : old = some row := by
  cases h with
  | kept => rfl
  | created _ hc => cases hc
  | updated _ _ hc => cases hc
  | claimed _ _ _ _ hc => cases hc

/-- The rows of VMs that the transaction holds are as `VmChange` allows. -/
def Fenced (c : FleetCall) (s : Session FleetRow) : Prop :=
  ∀ id new, s.held (.vm id) = some new → VmChange c s.log id (s.rows (.vm id)) new

theorem Fenced.view (h : Fenced c s) (id : Uuid) :
    VmChange c s.log id (s.rows (.vm id)) (s.view (.vm id)) := by
  cases hheld : s.held (.vm id) with
  | none =>
    rw [view_of_free hheld]
    exact .kept _
  | some new =>
    rw [view_of_held hheld]
    exact h id new hheld

theorem onDelete_vm (k : FleetKey) : fleetSchema.onDelete k (.vm id) row = none := by
  cases k <;> rfl

theorem Fenced.perform (hs : Fenced c s) {tables : List Table} {st : Stmt FleetRow}
    (hst : Within tables st) (hvms : .vms ∉ tables) {a : st.Answer} (ha : st.Answers s.view a) :
    Fenced c (s.perform fleetSchema st a) := by
  intro id new hnew
  rw [perform_held] at hnew
  refine .extend ?_ _
  cases htouch : st.touch fleetSchema s.view a (.vm id) with
  | none =>
    rw [htouch] at hnew
    exact hs id new hnew
  | some r =>
    rw [htouch] at hnew
    cases hnew
    have hwrites : ¬ st.Writes (.vm id) := not_writes_of_within hst hvms
    obtain hr | ⟨k, _, _, _, hr⟩ := touch_unwritten hwrites ha htouch
    · rw [hr]
      exact hs.view id
    · obtain ⟨row, _, hrow⟩ := bind_eq_some_iff.mp hr
      rw [onDelete_vm] at hrow
      cases hrow

/-! ## The calls -/

section Calls

variable {ok : FleetCall → Session FleetRow → Stmt FleetRow → Prop}
  {Post : (c : FleetCall) → c.Reply → Session FleetRow → Prop}

theorem stable_fenced (d : FleetCall) :
    ((fleetService ok).world True Post d).Stable (Fenced c) := by
  refine stable_own fun s s' hheld hlog hrows hs id new hnew => ?_
  rw [hheld] at hnew
  rw [hlog, hrows _ (by rw [hnew]; exact some_ne_none new)]
  exact hs id new hnew

theorem yields_fenced {tables : List Table} {α : Type} {p : Fleet α}
    (hp : Fleet.Uses (Within tables) p) (hvms : .vms ∉ tables) :
    (fleetWorld ok Post c).Yields (Fenced c) p fun _ => Fenced c :=
  yields_uses hp (stable_fenced c) fun _ _ _ hst hs _ ha _ => hs.perform hst hvms ha

abbrev upsertVmStmt (vm : VmRecord) : Stmt FleetRow :=
  .upsert (.vm vm.id) (vmRow vm) (acceptsVm vm) (updatedVm vm)

variable {a : Option VmRow} {claim : HibernationClaim}

theorem fenced_upsert {record : VmRecord} (hrecord : record = normalizeVmTimestampsForPostgres vm)
    (hheld : s.held = fun _ => none) (ha : (upsertVmStmt record).Answers s.view a) :
    Fenced (.upsertVm vm) (s.perform fleetSchema (upsertVmStmt record) a) := by
  intro id new hnew
  have hnone : s.held (.vm id) = none := by rw [hheld]
  rw [perform_held, touch_upsert, hnone, or_none] at hnew
  by_cases hid : id = record.id
  swap
  · rw [only_of_ne (fun h => hid (FleetKey.vm.inj h))] at hnew
    cases hnew
  subst hid
  rw [only_self] at hnew
  cases hnew
  rw [perform_rows, ← view_of_free hnone]
  cases hview : s.view (.vm record.id) with
  | none =>
    simp only [Stmt.Answers, hview] at ha
    subst ha hrecord
    exact .created vm rfl rfl
  | some row =>
    simp only [Stmt.Answers, hview] at ha
    split at ha
    · next haccepts =>
      subst ha hrecord
      exact .updated vm row rfl rfl haccepts
    · subst ha
      exact .kept _

theorem Fresh.fenced (hs : Fresh s) (c : FleetCall) : Fenced c s := by
  intro id new hnew
  rw [hs] at hnew
  cases hnew

theorem upsertVm_fenced :
    ((fleetService ok).world True Post (.upsertVm vm)).Yields Fresh (upsertVm vm)
      fun _ => Fenced (.upsertVm vm) := by
  refine yields_ensure fun _ => ?_
  refine .bind
    (yields_query (stable_fresh _) (fun _ => stable_fenced _)
      fun s a hs _ ha _ => fenced_upsert rfl hs ha) fun row => ?_
  cases row with
  | some row =>
    have hrest : Fleet.Uses (Within [.reservations])
        (dropReservation (normalizeVmTimestampsForPostgres vm) >>= fun _ => pure row.generation) :=
      .bind (dropReservation_within (by simp)) fun _ => .pure
    exact yields_fenced hrest (by simp)
  | none =>
    have hrest : Fleet.Uses (Within [])
        (query (.select (.vm vm.id)) >>= staleUpsert (normalizeVmTimestampsForPostgres vm)) :=
      .bind (.query trivial) fun _ => staleUpsert_within
    exact yields_fenced hrest (by simp)

/-- The claim holds the row, as it was committed. -/
def Claiming (c : FleetCall) (id : Uuid) (row : VmRow) (s : Session FleetRow) : Prop :=
  s.held (.vm id) = some (some row) ∧ s.rows (.vm id) = some row ∧ Fenced c s

theorem stable_claiming (d : FleetCall) (id : Uuid) :
    ((fleetService ok).world True Post d).Stable (Claiming c id row) := by
  intro s s' hs he
  have hheld : s'.held (.vm id) = some (some row) := by rw [he.2.1, hs.1]
  refine ⟨hheld, ?_, stable_fenced d hs.2.2 he⟩
  rw [env_held he (by rw [hs.1]; exact some_ne_none _), hs.2.1]

theorem Claiming.select {c : FleetCall} {id : Uuid} (hs : Claiming c id row s) (k : FleetKey)
    (a : Option (FleetRow k)) (ha : (Stmt.select k).Answers s.view a) :
    Claiming c id row (s.perform fleetSchema (.select k) a) :=
  ⟨hs.1, hs.2.1, hs.2.2.perform (within_select [] k) (by simp) ha⟩

theorem Claiming.moved {claim : HibernationClaim} {revision : UInt64}
    (hs : Claiming (.claimHibernatedVm claim now) claim.id row s)
    (hstatus : row.status = .Hibernated) (hstale : SawStale s.log row.host_id claim.stale_before)
    (hrevision : row.revision < revision)
    (ha : (Stmt.update (.vm claim.id) (fun row => row.status == .Hibernated)
      (movedVm claim revision now)).Answers s.view a) :
    Fenced (.claimHibernatedVm claim now)
      (s.perform fleetSchema (.update (.vm claim.id) (fun row => row.status == .Hibernated)
        (movedVm claim revision now)) a) := by
  obtain ⟨hheld, hrows, hfenced⟩ := hs
  have hview : s.view (.vm claim.id) = some row := view_of_held hheld
  have ha' : a = some (movedVm claim revision now row) := by
    have ha' : a = ((s.view (.vm claim.id)).filter fun row => row.status == .Hibernated).map
      (movedVm claim revision now) := ha
    rw [ha', hview, filter_some_pos (by rw [hstatus]; rfl)]
    rfl
  intro id new hnew
  rw [perform_held, touch_update, ha'] at hnew
  by_cases hid : id = claim.id
  · subst hid
    rw [only_self] at hnew
    cases hnew
    rw [perform_rows, hrows]
    obtain ⟨v, hv, hlive⟩ := hstale
    exact .claimed claim now row revision rfl rfl hstatus ⟨v, .tail _ hv, hlive⟩ hrevision
  · rw [only_of_ne (fun h => hid (FleetKey.vm.inj h))] at hnew
    exact (hfenced id new hnew).extend _

theorem moveVm_fenced (hstatus : row.status = .Hibernated) :
    ((fleetService ok).world True Post (.claimHibernatedVm claim now)).Yields
      (Claiming (.claimHibernatedVm claim now) claim.id row)
      (moveVm claim (vmOfRow claim.id row) now) fun _ => Fenced (.claimHibernatedVm claim now) := by
  -- what the lookup of the prior host showed stays in the log
  let Seen (prior : Option HostRow) (s : Session FleetRow) : Prop :=
    (∃ v, (.select (.host row.host_id), v) ∈ s.log ∧ v (.host row.host_id) = prior) ∧
      Claiming (.claimHibernatedVm claim now) claim.id row s
  have hseen : ∀ prior, ((fleetService ok).world True Post (.claimHibernatedVm claim now)).Stable
      (Seen prior) := fun prior =>
    .and (stable_own fun s s' _ hlog _ hs => by rw [hlog]; exact hs) (stable_claiming _ _)
  refine .bind (yields_query (stable_claiming _ _) hseen
    fun s a hs _ ha _ => ⟨⟨s.view, .head _, ha.symm⟩, hs.select _ a ha⟩) fun prior => ?_
  refine yields_ensure fun hlive => ?_
  refine yields_checkedSucc fun revision hrevision => ?_
  have hlt : row.revision < revision := by
    rw [UInt64.lt_iff_toNat_lt, hrevision]
    exact Nat.lt_succ_self _
  refine yields_ensure fun _ => ?_
  refine .bind (Q := fun _ => Fenced (.claimHibernatedVm claim now))
    (yields_query (hseen prior) (fun _ => stable_fenced _)
      fun s a hs _ ha _ => ?_) fun changed => ?_
  · obtain ⟨⟨v, hv, hprior⟩, hclaiming⟩ := hs
    refine hclaiming.moved hstatus ⟨v, hv, ?_⟩ hlt ha
    rw [hprior]
    simpa using hlive
  · exact yields_ensure fun _ => .pure (stable_fenced _) fun _ hs => hs

theorem claimHibernatedVm_fenced :
    ((fleetService ok).world True Post (.claimHibernatedVm claim now)).Yields Fresh
      (claimHibernatedVm claim now) fun _ => Fenced (.claimHibernatedVm claim now) := by
  let c : FleetCall := .claimHibernatedVm claim now
  -- the lock makes the selected row the committed one
  let Locked (found : Option VmRow) (s : Session FleetRow) : Prop :=
    ∀ row, found = some row → Claiming c claim.id row s
  have hlocked : ∀ found, (fleetWorld ok Post c).Stable (Locked found) :=
    fun found s s' hs he row hrow => stable_claiming c claim.id (hs row hrow) he
  refine .bind (yields_query (stable_fresh _) hlocked
    fun s a hs _ ha _ row hrow => ?_) fun found => ?_
  · have hview : s.view (.vm claim.id) = some row := by
      have ha' : (s.view (.vm claim.id)).filter (fun _ => true) = some row := ha.symm.trans hrow
      exact (filter_eq_some_iff.mp ha').1
    refine ⟨?_, ?_, (hs.fenced c).perform (within_lock [] _ _) (by simp) ha⟩
    · rw [perform_held, touch_selectForUpdate, only_self, hrow]
      rfl
    · rw [← hview, view_of_free (by rw [hs])]
      rfl
  · cases found with
    | none => exact .throw _
    | some row =>
      refine .conseq ?_ (fun _ hs => hs row rfl) fun _ _ h => h
      have hstable : (fleetWorld ok Post c).Stable (Claiming c claim.id row) := stable_claiming _ _
      refine yields_rowToVm <| yields_ensure fun _ => yields_ensure fun hstatus => ?_
      refine .bind
        (yields_query hstable (fun _ => hstable)
          fun s a hs _ ha _ => hs.select _ a ha) fun target => ?_
      refine yields_ensure fun _ => ?_
      split
      · exact .pure hstable fun _ hs => hs.2.2
      · exact moveVm_fenced (of_decide_eq_true hstatus)

/-- The first statement of the transaction found a row there. -/
def FoundFirst (s : Session FleetRow) (k : FleetKey) : Prop :=
  ∃ st v, s.log.getLast? = some (st, v) ∧ (v k).isSome = true

/-- When `delete_vm` comes to its last statement, a row that is there is one that its first
statement, the `SELECT … FOR UPDATE`, found and that it has held since. -/
def DeletesHeld : FleetCall → Session FleetRow → Stmt FleetRow → Prop
  | .deleteVm _ _ _, s, .delete (.vm id) _ _ => (s.view (.vm id)).isSome = true →
    FoundFirst s (.vm id)
  | _, _, _ => True

/-- Between its first and its last statement `delete_vm` holds the row that the first one found. -/
structure Deleting (c : FleetCall) (id : Uuid) (found : Option VmRow) (s : Session FleetRow) :
    Prop where
  fenced : Fenced c s
  first : ∃ st v, s.log.getLast? = some (st, v) ∧ v (.vm id) = found
  held : ∀ row, found = some row → s.held (.vm id) = some (some row)

variable {found : Option VmRow}

theorem stable_deleting (d : FleetCall) :
    ((fleetService ok).world True Post d).Stable (Deleting c id found) := by
  intro s s' hs he
  refine ⟨stable_fenced d hs.fenced he, ?_, fun row hrow => ?_⟩
  · rw [he.2.2.1]
    exact hs.first
  · rw [he.2.1, hs.held row hrow]

theorem Deleting.perform (hs : Deleting c id found s) {tables : List Table} {st : Stmt FleetRow}
    (hst : Within tables st) (hvms : .vms ∉ tables) {a : st.Answer} (ha : st.Answers s.view a) :
    Deleting c id found (s.perform fleetSchema st a) where
  fenced := hs.fenced.perform hst hvms ha
  first := by
    obtain ⟨st', v, hlast, hfound⟩ := hs.first
    refine ⟨st', v, ?_, hfound⟩
    show ((st, s.view) :: s.log).getLast? = _
    rw [List.getLast?_cons, hlast]
    rfl
  held row hrow := by
    have hheld := hs.held row hrow
    rw [perform_held]
    cases htouch : st.touch fleetSchema s.view a (.vm id) with
    | none => exact hheld
    | some r =>
      -- a statement that does not write the row leaves it as it is
      have hwrites : ¬ st.Writes (.vm id) := not_writes_of_within hst hvms
      obtain hr | ⟨k, _, _, _, hr⟩ := touch_unwritten hwrites ha htouch
      · rw [hr, view_of_held hheld]
        rfl
      · obtain ⟨row, _, hrow⟩ := bind_eq_some_iff.mp hr
        rw [onDelete_vm] at hrow
        cases hrow

theorem yields_deleting {tables : List Table} {α : Type} {p : Fleet α}
    (hp : Fleet.Uses (Within tables) p) (hvms : .vms ∉ tables) :
    (fleetWorld ok Post c).Yields (Deleting c id found) p fun _ => Deleting c id found :=
  yields_uses hp (stable_deleting c) fun _ _ _ hst hs _ ha _ => hs.perform hst hvms ha

/-- The last statement of `delete_vm` removes a row of its own host and incarnation: it is the
row that passed the check. -/
theorem fenced_delete {rounds : Nat} {record : VmRecord}
    (hrecord : record = normalizeVmTimestampsForPostgres vm)
    (hs : Deleting (.deleteVm vm now rounds) record.id found s)
    (hcheck : (found.all fun row =>
      row.host_id == record.host_id && row.created_at == record.created_at) = true)
    (ha : (Stmt.delete (.vm record.id) (fun row =>
      row.created_at == record.created_at) fun _ _ => false).Answers s.view a)
    (hok : DeletesHeld (.deleteVm vm now rounds) s (.delete (.vm record.id) (fun row =>
      row.created_at == record.created_at) fun _ _ => false)) :
    Fenced (.deleteVm vm now rounds) (s.perform fleetSchema (.delete (.vm record.id) (fun row =>
      row.created_at == record.created_at) fun _ _ => false) a) := by
  intro id new hnew
  refine .extend ?_ _
  rw [perform_held] at hnew
  cases a with
  | none =>
    exact hs.fenced id new hnew
  | some row =>
    rw [touch_delete_some] at hnew
    by_cases hid : id = record.id
    · subst hid
      rw [cascade_self] at hnew
      cases hnew
      have hview : s.view (.vm record.id) = some row := by
        obtain ⟨ha, _⟩ | ⟨ha, _⟩ := ha
        · exact (filter_eq_some_iff.mp ha.symm).1
        · cases ha
      -- the row is the one the first statement found
      have hfound : found = some row := by
        obtain ⟨st, v, hlast, hv⟩ := hs.first
        obtain ⟨st', v', hlast', hsome⟩ := hok (by rw [hview]; rfl)
        rw [hlast] at hlast'
        cases hlast'
        rw [hv] at hsome
        obtain ⟨row', hrow'⟩ := isSome_iff_exists.mp hsome
        have hheld := view_of_held (hs.held row' hrow')
        rw [hview] at hheld
        rw [hrow', hheld]
      rw [hfound, all_some, Bool.and_eq_true_iff] at hcheck
      have hhost : row.host_id = vm.host_id := by
        rw [eq_of_beq hcheck.1, hrecord]
        rfl
      have hcreated : row.created_at = normalizeTimestampForPostgres vm.created_at := by
        rw [eq_of_beq hcheck.2, hrecord]
        rfl
      have hrows : s.rows (.vm record.id) = some row := by
        have hkept := hs.fenced.view record.id
        rw [hview] at hkept
        exact hkept.eq_of_deleteVm
      rw [perform_rows, hrows]
      exact .removed vm now rounds row rfl (by rw [hrecord]; rfl) hhost hcreated
    · rw [cascade_of_ne (fun h => hid (FleetKey.vm.inj h))] at hnew
      have hnone : (s.view (.vm id)).bind (fleetSchema.onDelete (.vm record.id) (.vm id)) =
          none := by
        rw [bind_eq_none_iff]
        intro row _
        exact onDelete_vm _
      rw [hnone, none_or] at hnew
      exact hs.fenced id new hnew

/-- The transaction has made no statement. -/
def Unused (s : Session FleetRow) : Prop := Fresh s ∧ s.log = []

theorem stable_unused (d : FleetCall) : ((fleetService ok).world True Post d).Stable Unused :=
  .and (stable_fresh d) (stable_own fun s s' _ hlog _ hs => by rw [hlog, hs])

theorem deleteVm_fenced (rounds : Nat) :
    ((fleetService DeletesHeld).world True Post (.deleteVm vm now rounds)).Yields Unused
      (deleteVm vm now rounds) fun _ => Fenced (.deleteVm vm now rounds) := by
  let c : FleetCall := .deleteVm vm now rounds
  let record := normalizeVmTimestampsForPostgres vm
  have hstable (found : Option VmRow) :
      ((fleetService DeletesHeld).world True Post c).Stable (Deleting c record.id found) :=
    stable_deleting _
  have hfenced : ((fleetService DeletesHeld).world True Post c).Stable (Fenced c) := stable_fenced _
  -- the first statement locks the row that it finds
  refine .bind (Q := Deleting c record.id) (yields_query (stable_unused _) hstable
    fun s a hs _ ha _ => ?_) fun found => ?_
  · obtain ⟨hfresh, hlog⟩ := hs
    have hview : s.view (.vm record.id) = a := by
      have ha' : a = (s.view (.vm record.id)).filter fun _ => true := ha
      rw [ha']
      cases s.view (.vm record.id) <;> rfl
    refine ⟨(hfresh.fenced c).perform (within_lock [] _ _) (by simp) ha, ?_, fun row hrow => ?_⟩
    · refine ⟨.selectForUpdate (.vm record.id) fun _ => true, s.view, ?_, hview⟩
      show ((_, s.view) :: s.log).getLast? = _
      rw [hlog]
      rfl
    · rw [perform_held, touch_selectForUpdate, only_self, hrow]
      rfl
  refine yields_ensure fun hcheck => ?_
  -- everything up to the last statement leaves `fleet_vms` alone
  have hrefs : Fleet.Uses (Within [.vmArtifactRefs, .artifacts])
      (releaseVmArtifactRefTx record now rounds) :=
    releaseVmArtifactRefTx_within (by simp) (by simp)
  refine .bind (yields_deleting hrefs (by simp)) fun _ => ?_
  have hquery : Fleet.Uses (Within [.hibernations])
      (query (.delete (.hibernation record.id) (fun _ => true) fun _ _ => false)) :=
    .query (by simp [Within, FleetKey.table, FleetKey.removal])
  refine .bind (yields_deleting hquery (by simp)) fun hibernation => ?_
  have hrelease : Fleet.Uses (Within [.artifacts]) (releaseHibernation now rounds hibernation) :=
    releaseHibernation_within (by simp)
  refine .bind (yields_deleting hrelease (by simp)) fun _ => ?_
  exact .bind (yields_query (hstable found)
    (fun _ => hfenced) fun s a hs _ ha hok => fenced_delete rfl hs hcheck ha hok) fun _ =>
      .pure hfenced fun _ hs => hs

end Calls

/-- Every call moves a VM only as `VmChange` says. -/
theorem prog_fenced (c : FleetCall) {Post : (c : FleetCall) → c.Reply → Session FleetRow → Prop} :
    ((fleetService DeletesHeld).world True Post c).Yields Unused c.prog fun _ => Fenced c := by
  have hrest : .vms ∉ c.writes → ((fleetService DeletesHeld).world True Post c).Yields Unused c.prog
      fun _ => Fenced c := fun hvms =>
    (yields_fenced (prog_within c) hvms).pre fun _ hs => hs.1.fenced c
  cases c with
  | upsertVm vm => exact upsertVm_fenced.pre fun _ hs => hs.1
  | claimHibernatedVm claim now => exact claimHibernatedVm_fenced.pre fun _ hs => hs.1
  | deleteVm vm now rounds => exact deleteVm_fenced rounds
  | _ => exact hrest (by simp [FleetCall.writes])

/-! ## Every step of every interleaving -/

/-- What a step of the server may make of the row of a VM that exists. -/
structure RowFenced {T : Type} (s : Sys T FleetRow FleetCall.Reply FleetError)
    (e : Event FleetCall.Reply) (id : Uuid) (row : VmRow) (after : Option VmRow) : Prop where
  created_at : ∀ row', after = some row' → row'.created_at = row.created_at
  /-- The host changes only by a claim, of a hibernated row and from a host it found stale. -/
  host_id : ∀ row', after = some row' → row'.host_id ≠ row.host_id →
    ∃ claim now vm t x, e = .commit (.claimHibernatedVm claim now) vm ∧ claim.id = id ∧
      row.status = .Hibernated ∧ s.tx t = some x ∧ x.call = .claimHibernatedVm claim now ∧
      SawStale x.log row.host_id claim.stale_before
  accepted : ∀ row', after = some row' → row' ≠ row →
    row.revision < row'.revision ∧ row'.generation = row.generation + 1
  removed : after = none → ∃ vm now rounds, e = .commit (.deleteVm vm now rounds) () ∧
    vm.id = id ∧ row.host_id = vm.host_id ∧
    row.created_at = normalizeTimestampForPostgres vm.created_at
  rejected : (∀ c a, e ≠ .commit c a) → after = some row
  stale : ∀ vm n, e = .commit (.upsertVm vm) n →
    acceptsVm (normalizeVmTimestampsForPostgres vm) row = false → after = some row

theorem RowFenced.unchanged (s : Sys T FleetRow FleetCall.Reply FleetError)
    (e : Event FleetCall.Reply) :
    RowFenced s e id row (some row) where
  created_at row' h := by rw [Option.some.inj h]
  host_id row' h hne := absurd (by rw [Option.some.inj h]) hne
  accepted row' h hne := absurd (Option.some.inj h).symm hne
  removed h := nomatch h
  rejected _ := rfl
  stale _ _ _ _ := rfl

theorem VmChange.rowFenced {s : Sys T FleetRow FleetCall.Reply FleetError} {t : T} {a : c.Reply}
    {x : Tx FleetRow FleetCall.Reply FleetError} (hx : s.tx t = some x) (hcall : x.call = c)
    {id : Uuid} {after : Option VmRow} (h : VmChange c x.log id (some row) after) :
    RowFenced s (.commit c a) id row after := by
  generalize hold : some row = old at h
  cases h with
  | kept =>
    subst hold
    exact .unchanged _ _
  | created => cases hold
  | updated vm row' hc hid haccepts =>
    cases hold
    subst hc
    have hrevision : row.revision < vm.revision := by
      simp only [acceptsVm, Bool.and_eq_true, decide_eq_true_eq] at haccepts
      exact haccepts.2
    constructor
    · intro row' h
      cases h
      rfl
    · intro row' h hne
      cases h
      exact absurd rfl hne
    · intro row' h _
      cases h
      exact ⟨hrevision, rfl⟩
    · exact nofun
    · exact fun h => absurd rfl (h _ _)
    · intro vm' n he hreject
      cases he
      rw [haccepts] at hreject
      cases hreject
  | claimed claim now row' revision hc hid hstatus hstale hrevision =>
    cases hold
    subst hc
    constructor
    · intro row' h
      cases h
      rfl
    · intro row' h _
      cases h
      exact ⟨claim, now, a, t, x, rfl, hid.symm, hstatus, hx, hcall, hstale⟩
    · intro row' h _
      cases h
      exact ⟨hrevision, rfl⟩
    · exact nofun
    · exact fun h => absurd rfl (h _ _)
    · intro vm n he
      cases he
  | removed vm now rounds row' hc hid hhost hcreated =>
    cases hold
    subst hc
    constructor
    · intro row' h
      cases h
    · intro row' h
      cases h
    · intro row' h
      cases h
    · exact fun _ => ⟨vm, now, rounds, rfl, hid.symm, hhost, hcreated⟩
    · exact fun h => absurd rfl (h _ _)
    · intro vm' n he
      cases he

/-- In every interleaving of the calls, with records and times of any kind, whose deletes remove
no row that they did not hold from their first statement on, each step keeps the fence of every
row. -/
theorem vm_row_fenced {T : Type} [DecidableEq T] {initial : Rows FleetRow}
    {s s' : Sys T FleetRow FleetCall.Reply FleetError} {e : Event FleetCall.Reply}
    (hs : (fleetService DeletesHeld).Reaches initial s)
    (h : (fleetService DeletesHeld).Step s e s') {id : Uuid} {row : VmRow}
    (hrow : s.rows (.vm id) = some row) : RowFenced s e id row (s'.rows (.vm id)) := by
  have hsound : (fleetService DeletesHeld).Sound True (fun c _ => Fenced c) (fun _ => True) s :=
    hs.sound (fun _ _ _ => trivial) trivial (fun _ _ _ _ _ => trivial) fun c =>
      (prog_fenced c).pre fun _ hw => by rw [hw.2]; exact ⟨rfl, rfl⟩
  obtain ⟨c, a, w, t, rfl, ht, hfenced, hrows, hrows'⟩ | ⟨_, hrows⟩ := hsound.step_rows h
  · have hchange := hfenced.view id
    rw [hrows, hrow] at hchange
    rw [hrows']
    exact hchange.rowFenced ht rfl
  · rw [hrows, hrow]
    exact .unchanged _ _

def bootedVm (host_id : String) (status : VmStatus) (revision : UInt64) : VmRecord where
  id := 1
  host_id := host_id
  owner_key := none
  api_key_id := none
  status := status
  revision := revision
  startup_path := some .Cold
  memory_mib := 512
  vcpus := 1
  kernel_path := "vmlinux"
  rootfs_path := none
  rootfs_read_only := true
  cmdline := ""
  runtime_layout := none
  socket_path := none
  pid := none
  created_at := 0
  updated_at := 0

/-- Host `a` publishes a hibernated VM and is not heard of again; host `b`, which is live,
claims it. -/
def hibernatedVm : VmRecord := { bootedVm "a" .Hibernated 1 with owner_key := some "tenant" }

def claimOfB : FleetCall := .claimHibernatedVm ⟨"tenant", 1, "b", 7, 100⟩ 200

/-- Host `b` then deletes the VM as it holds it. -/
def deleteOfB : FleetCall := .deleteVm { hibernatedVm with host_id := "b" } 300 1

def claimRun : List (Action Bool FleetCall) :=
  [.start true (.upsertHost "b" ⟨some 7, true, 150⟩), .statement true, .commit true,
    .start true (.upsertVm hibernatedVm), .statement true, .statement true, .commit true,
    .start true claimOfB, .statement true, .statement true, .statement true, .statement true,
    .commit true, .start true deleteOfB, .statement true, .statement true, .statement true,
    .statement true]

def deletesHeld (c : FleetCall) (s : Session FleetRow) : Stmt FleetRow → Bool
  | .delete (.vm id) _ _ => match c with
    | .deleteVm _ _ _ => (s.log.getLast?).any fun entry => (entry.2 (.vm id)).isSome
    | _ => true
  | _ => true

theorem deletesHeld_sound {st : Stmt FleetRow} (h : deletesHeld c s st = true) :
    DeletesHeld c s st := by
  unfold deletesHeld at h
  unfold DeletesHeld
  split
  · intro _
    dsimp only at h
    cases hlast : s.log.getLast? with
    | none =>
      rw [hlast] at h
      cases h
    | some entry =>
      rw [hlast] at h
      exact ⟨entry.1, entry.2, hlast, h⟩
  · trivial

def claimRunEnd : Option (Sys Bool FleetRow FleetCall.Reply FleetError) :=
  (fleetService DeletesHeld).run deletesHeld
    [.vm 1, .host "b", .reservation 1, .vmArtifactRef 1, .hibernation 1] [true] claimRun
    ⟨fun _ => none, fun _ => none⟩

/-- Host `b` has claimed the row of `a` and removes it. -/
theorem claimed_row_deleted : ∃ (s s' : Sys Bool FleetRow FleetCall.Reply FleetError) (row : VmRow),
    s.rows (.vm 1) = some row ∧ row.host_id = "b" ∧ row.generation = 2 ∧ s'.rows (.vm 1) = none ∧
      RowFenced s (.commit deleteOfB ()) 1 row (s'.rows (.vm 1)) := by
  have hend : claimRunEnd.isSome = true := rfl
  have hreaches : (fleetService DeletesHeld).Reaches (fun _ => none) (claimRunEnd.get hend) :=
    run_empty (fun c w st hcheck => deletesHeld_sound hcheck) (some_get hend).symm
  exact ⟨claimRunEnd.get hend, _, _, rfl, rfl, rfl, rfl,
    vm_row_fenced hreaches (.commit (t := true) rfl) rfl⟩

/-- Host `a` begins to delete a VM it finds no row of, host `b` publishes the VM, and the
delete goes on to its end. -/
def unseenRow : List (Action Bool FleetCall) :=
  [.start false (.deleteVm (bootedVm "a" .Stopped 2) 0 1), .statement false,
    .start true (.upsertVm (bootedVm "b" .Running 1)), .statement true, .commit true,
    .statement false, .statement false, .statement false]

def unseenRowEnd : Option (Sys Bool FleetRow FleetCall.Reply FleetError) :=
  (fleetService fun _ _ _ => True).run (fun _ _ _ => true)
    [.vm 1, .vmArtifactRef 1, .hibernation 1] [false, true] unseenRow
    ⟨fun _ => none, fun _ => none⟩

/-- The last statement of a delete that found no row removes the row that another host
published under the same creation time. -/
theorem unseen_row_deleted : ∃ (s s' : Sys Bool FleetRow FleetCall.Reply FleetError) (row : VmRow),
    (fleetService fun _ _ _ => True).Reaches (fun _ => none) s ∧
      (fleetService fun _ _ _ => True).Step s
        (.commit (.deleteVm (bootedVm "a" .Stopped 2) 0 1) ()) s' ∧
      s.rows (.vm 1) = some row ∧ row.host_id = "b" ∧
      ¬ RowFenced s (.commit (.deleteVm (bootedVm "a" .Stopped 2) 0 1) ()) 1 row
        (s'.rows (.vm 1)) := by
  have hend : unseenRowEnd.isSome = true := rfl
  have hreaches : (fleetService fun _ _ _ => True).Reaches (fun _ => none)
      (unseenRowEnd.get hend) :=
    run_empty (fun _ _ _ _ => trivial) (some_get hend).symm
  refine ⟨unseenRowEnd.get hend, _, vmRow (bootedVm "b" .Running 1), hreaches,
    .commit (t := false) rfl, rfl, rfl, fun hfenced => ?_⟩
  obtain ⟨vm, now, rounds, he, _, hhost, _⟩ := hfenced.removed rfl
  cases he
  exact absurd hhost (by decide)

end Tarit.Fleet
