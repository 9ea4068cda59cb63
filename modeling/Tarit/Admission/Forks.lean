import Mathlib.Data.List.Dedup
import Tarit.Admission.Calls

/-!
# Fork operations

What the rows of fork operations go through in any sequence of calls, on either store, and that
the two stores answer alike.

A claim of an operation that is being prepared is fenced by the reservation of the child only
within one boot session: another session takes the operation over at once. A commit that is
replayed writes `updated_at` again.
-/
namespace Tarit.Admission

open Lib Fleet List

/-! ## Calls -/

inductive Call where
  | claim (operation : ForkOperationRecord) (max_vms : Nat) (expires_at now : Timestamp)
  | commit (child_vm_id source_vm_id : Uuid) (owner_key : String)
      (child_created_at updated_at : Timestamp)
  | release (owner_key : String) (id : Uuid)
  | prune (older_than : Timestamp) (limit : Nat)
  /-- The calls that are not on fork operations. -/
  | other (vms : Table VmRecord.id) (reservations : Table QuotaReservation.id)

inductive Reply where
  | claim (answer : ClaimAnswer)
  | commit (answer : Except String Unit)
  | none

def Call.run (D : Dialect) (t : Tables) : Call → Reply × Tables
  | .claim operation max_vms expires_at now =>
    let (answer, t') := claimForkOperation D operation max_vms expires_at now t
    (.claim answer, t')
  | .commit child_vm_id source_vm_id owner_key child_created_at updated_at =>
    let (answer, t') :=
      commitForkOperation D child_vm_id source_vm_id owner_key child_created_at updated_at t
    (.commit answer, t')
  | .release owner_key id => (.none, releaseVmQuota owner_key id t)
  | .prune older_than limit => (.none, pruneCommittedForkOperations older_than limit t)
  | .other vms reservations => (.none, { t with vms, reservations })

def after (D : Dialect) (t : Tables) : List Call → Tables
  | [] => t
  | call :: calls => after D (call.run D t).2 calls

def replies (D : Dialect) (t : Tables) : List Call → List Reply
  | [] => []
  | call :: calls => (call.run D t).1 :: replies D (call.run D t).2 calls

def Unpruned (D : Dialect) (child : Uuid) (t : Tables) : List Call → Prop
  | [] => True
  | call :: calls =>
    (∀ older_than limit, call = .prune older_than limit →
      ((call.run D t).2.operations.find? child).isSome) ∧
    Unpruned D child (call.run D t).2 calls

def ClaimAnswer.Obtains (answer : ClaimAnswer) : Prop := answer = .New ∨ answer = .Resumed

/-! ## Rows -/

variable {D : Dialect} {t : Tables} {child : Uuid} {operation : ForkOperationRecord}
  {max_vms : Nat} {expires_at now : Timestamp}

structure SameBinding (row row' : ForkOperationRecord) : Prop where
  source : row'.source_vm_id = row.source_vm_id
  owner : row'.owner_key = row.owner_key
  source_host : row'.source_host_id = row.source_host_id
  target_host : row'.target_host_id = row.target_host_id

/-- `row'` is what became of `row`. -/
def Follows (row row' : ForkOperationRecord) : Prop :=
  SameBinding row row' ∧
    (row.status = .Committed → row' = { row with updated_at := row'.updated_at })

theorem Follows.refl (row : ForkOperationRecord) : Follows row row :=
  ⟨⟨rfl, rfl, rfl, rfl⟩, fun _ => rfl⟩

variable {row : ForkOperationRecord}

theorem Follows.trans {row' row'' : ForkOperationRecord} (h : Follows row row')
    (h' : Follows row' row'') : Follows row row'' := by
  refine ⟨⟨h'.1.source.trans h.1.source, h'.1.owner.trans h.1.owner,
    h'.1.source_host.trans h.1.source_host, h'.1.target_host.trans h.1.target_host⟩,
    fun hcommitted => ?_⟩
  have hrow := h.2 hcommitted
  have hstatus : row'.status = .Committed := by
    rw [hrow]
    exact hcommitted
  rw [h'.2 hstatus, hrow]

theorem reserveChild_operations (outcome : ClaimAnswer) (resumed_after_restart : Bool)
    (before : Tables) :
    (reserveChild D operation max_vms expires_at now outcome resumed_after_restart before
      t).2.operations =
        t.operations ∨
      (reserveChild D operation max_vms expires_at now outcome resumed_after_restart before t).2 =
        before ∧
      ¬ (reserveChild D operation max_vms expires_at now outcome resumed_after_restart before
        t).1.Obtains := by
  unfold reserveChild ClaimAnswer.Obtains
  split
  · split
    · exact .inr ⟨rfl, by simp⟩
    · split <;> exact .inl rfl
  · split
    · exact .inl rfl
    · split
      · exact .inr ⟨rfl, by simp⟩
      · exact .inl rfl

/-- What a claim does to the operations: nothing, or it takes one over, or inserts one. -/
theorem claimForkOperation_operations :
    (claimForkOperation D operation max_vms expires_at now t).2.operations = t.operations ∨
      (claimForkOperation D operation max_vms expires_at now t).2.operations =
        (takeOver D operation t).operations ∨
      t.operations.find? (preparing D operation).child_vm_id = none ∧
        (claimForkOperation D operation max_vms expires_at now t).2.operations =
          t.operations.insert (preparing D operation) := by
  unfold claimForkOperation
  dsimp only
  split
  · split
    · exact .inl rfl
    · split
      · exact .inl rfl
      · rcases reserveChild_operations .Resumed _ t with h | ⟨h, -⟩ <;> rw [h]
        · split
          · exact .inr (.inl rfl)
          · exact .inl rfl
        · exact .inl rfl
  · next hnone =>
    split
    · exact .inl rfl
    rcases reserveChild_operations .New false t with h | ⟨h, -⟩ <;> rw [h]
    · exact .inr (.inr ⟨hnone, rfl⟩)
    · exact .inl rfl

theorem find_update {operations : Table ForkOperationRecord.child_vm_id}
    (hrow : operations.find? child = some row) (cond : ForkOperationRecord → Bool)
    (set : ForkOperationRecord → ForkOperationRecord)
    (hset : ∀ r, (set r).child_vm_id = r.child_vm_id) :
    (operations.update cond set hset).find? child = some (if cond row then set row else row) := by
  rw [Table.find?_update, hrow]
  rfl

inductive Call.Turns (D : Dialect) (row : ForkOperationRecord) :
    Call → ForkOperationRecord → Prop where
  | same {call : Call} : Turns D row call row
  | takenOver {operation : ForkOperationRecord} {max_vms : Nat} {expires_at now : Timestamp}
      (hid : row.child_vm_id = operation.child_vm_id) (hstatus : row.status = .Preparing) :
      Turns D row (.claim operation max_vms expires_at now) (takenOver D operation row)
  | committed {child_vm_id source_vm_id : Uuid} {owner_key : String}
      {child_created_at updated_at : Timestamp}
      (h : commits child_vm_id source_vm_id owner_key (D.stored child_created_at) row = true) :
      Turns D row (.commit child_vm_id source_vm_id owner_key child_created_at updated_at)
        (committed D child_created_at updated_at row)

theorem Call.turns (call : Call) (hrow : t.operations.find? child = some row)
    (hkept : ∀ older_than limit, call = .prune older_than limit →
      ((call.run D t).2.operations.find? child).isSome) :
    ∃ row', (call.run D t).2.operations.find? child = some row' ∧ call.Turns D row row' := by
  cases call with
  | claim operation max_vms expires_at now =>
    show ∃ row',
      (claimForkOperation D operation max_vms expires_at now t).2.operations.find? child =
      some row' ∧ _
    rcases claimForkOperation_operations with h | h | ⟨hnone, h⟩ <;> rw [h]
    · exact ⟨row, hrow, .same⟩
    · refine ⟨_, find_update hrow _ (takenOver D operation) fun _ => rfl, ?_⟩
      split
      · next hcond =>
        simp only [Bool.and_eq_true, beq_iff_eq] at hcond
        exact .takenOver hcond.1 hcond.2
      · exact .same
    · refine ⟨row, ?_, .same⟩
      rw [Table.find?_insert _ hnone, if_neg]
      · exact hrow
      rintro rfl
      rw [hnone] at hrow
      cases hrow
  | commit child_vm_id source_vm_id owner_key child_created_at updated_at =>
    show ∃ row', (commitForkOperation D child_vm_id source_vm_id owner_key child_created_at
      updated_at t).2.operations.find? child = some row' ∧ _
    unfold commitForkOperation
    dsimp only
    split
    · refine ⟨_, find_update hrow _ (committed D child_created_at updated_at) fun _ => rfl, ?_⟩
      split
      · next hcond => exact .committed hcond
      · exact .same
    · exact ⟨row, hrow, .same⟩
  | release owner_key id | other vms reservations => exact ⟨row, hrow, .same⟩
  | prune older_than limit =>
    obtain ⟨row', hrow'⟩ := Option.isSome_iff_exists.mp (hkept older_than limit rfl)
    refine ⟨row', hrow', ?_⟩
    replace hrow' : (t.operations.filter _).find? child = some row' := hrow'
    rw [Table.find?_filter, hrow] at hrow'
    cases (Option.filter_eq_some_iff.mp hrow').1
    exact .same

theorem Call.Turns.follows {call : Call} {row' : ForkOperationRecord} (h : call.Turns D row row') :
    Follows row row' := by
  cases h with
  | same => exact .refl row
  | takenOver hid hstatus =>
    refine ⟨⟨rfl, rfl, rfl, rfl⟩, fun hcommitted => ?_⟩
    rw [hcommitted] at hstatus
    cases hstatus
  | committed h =>
    refine ⟨⟨rfl, rfl, rfl, rfl⟩, fun hcommitted => ?_⟩
    simp only [commits, Bool.and_eq_true, Bool.or_eq_true, beq_iff_eq] at h
    rcases h.2 with hpreparing | hsame
    · rw [hcommitted] at hpreparing
      cases hpreparing
    · cases row
      cases hcommitted
      cases hsame.2
      rfl

theorem after_follows (calls : List Call) (hrow : t.operations.find? child = some row)
    (hkept : Unpruned D child t calls) :
    ∃ row', (after D t calls).operations.find? child = some row' ∧ Follows row row' := by
  induction calls generalizing t row with
  | nil => exact ⟨row, hrow, .refl row⟩
  | cons call calls ih =>
    obtain ⟨row', hrow', hturns⟩ := call.turns hrow hkept.1
    obtain ⟨row'', hrow'', hfollows⟩ := ih hrow' hkept.2
    exact ⟨row'', hrow'', hturns.follows.trans hfollows⟩

/-! ## Sessions -/

section Sessions
variable {session : Option Uuid}

/-- The operation of the child is being prepared, or was, by the session. -/
def HeldBy (t : Tables) (child : Uuid) (session : Option Uuid) : Prop :=
  ∃ row, t.operations.find? child = some row ∧ row.target_boot_session_id = session

theorem heldBy_of_obtains
    (h : (claimForkOperation D operation max_vms expires_at now t).1.Obtains) :
    HeldBy (claimForkOperation D operation max_vms expires_at now t).2 operation.child_vm_id
      operation.target_boot_session_id := by
  have hreserved {outcome : ClaimAnswer} {resumed : Bool} {t' : Tables}
      (h : (reserveChild D operation max_vms expires_at now outcome resumed t t').1.Obtains)
      (hheld : HeldBy t' operation.child_vm_id operation.target_boot_session_id) :
      HeldBy (reserveChild D operation max_vms expires_at now outcome resumed t t').2
        operation.child_vm_id operation.target_boot_session_id := by
    rcases reserveChild_operations outcome resumed t with hsame | ⟨-, hnot⟩
    · unfold HeldBy
      rw [hsame]
      exact hheld
    · exact absurd h hnot
  revert h
  unfold claimForkOperation
  dsimp only
  split
  · next existing hfind =>
    replace hfind : t.operations.find? operation.child_vm_id = some existing := hfind
    split
    · simp [ClaimAnswer.Obtains]
    split
    · simp [ClaimAnswer.Obtains]
    rename_i hstatus
    refine fun h => hreserved h ?_
    by_cases hsession : existing.target_boot_session_id = operation.target_boot_session_id
    · rw [if_neg (by simp [hsession])]
      exact ⟨existing, hfind, hsession⟩
    rw [if_pos (by simp [hsession])]
    refine ⟨takenOver D operation existing, ?_, rfl⟩
    have hid := (t.operations.find?_eq_some_iff.mp hfind).2
    exact (find_update hfind _ (takenOver D operation) fun _ => rfl).trans
      (congrArg some (if_pos (by simp [hid, hstatus])))
  · next hnone =>
    split
    · simp [ClaimAnswer.Obtains]
    refine fun h => hreserved h ⟨preparing D operation, ?_, rfl⟩
    have hinsert := t.operations.find?_insert (show t.operations.find?
      (preparing D operation).child_vm_id = none from hnone)
    exact (hinsert operation.child_vm_id).trans (if_pos rfl)

theorem not_obtains_of_reserved {reservation : QuotaReservation}
    (hheld : HeldBy t operation.child_vm_id operation.target_boot_session_id)
    (hreservation : t.reservations.find? operation.child_vm_id = some reservation)
    (hunexpired : now < reservation.expires_at) :
    ¬ (claimForkOperation D operation max_vms expires_at now t).1.Obtains := by
  obtain ⟨row, hrow, hsession⟩ := hheld
  have hlive : (dropExpired now t).reservations.find? operation.child_vm_id = some reservation := by
    show (t.reservations.filter _).find? _ = _
    rw [Table.find?_filter, hreservation]
    simp [Option.filter, hunexpired]
  unfold claimForkOperation ClaimAnswer.Obtains
  dsimp only
  rw [show (dropExpired now t).operations.find? operation.child_vm_id = some row from hrow]
  dsimp only
  split
  · simp
  split
  · simp
  rw [hsession, bne_self_eq_false, if_neg Bool.false_ne_true, reserveChild, hlive]
  dsimp only
  split <;> simp

def Call.Within (child : Uuid) (session : Option Uuid) : Call → Prop
  | .claim operation _ _ _ =>
    operation.child_vm_id = child → operation.target_boot_session_id = session
  | _ => True

/-- A child stays with its session until another one claims it or a prune removes it. -/
theorem HeldBy.run {call : Call} (hheld : HeldBy t child session)
    (hwithin : call.Within child session)
    (hkept : ∀ older_than limit, call = .prune older_than limit →
      ((call.run D t).2.operations.find? child).isSome) :
    HeldBy (call.run D t).2 child session := by
  obtain ⟨row, hrow, hsession⟩ := hheld
  obtain ⟨row', hrow', hturns⟩ := call.turns hrow hkept
  refine ⟨row', hrow', ?_⟩
  cases hturns with
  | same | committed h => exact hsession
  | takenOver hid hstatus =>
    exact hwithin (hid.symm.trans (t.operations.find?_eq_some_iff.mp hrow).2)

theorem HeldBy.after {calls : List Call} (hheld : HeldBy t child session)
    (hwithin : ∀ call ∈ calls, call.Within child session) (hkept : Unpruned D child t calls) :
    HeldBy (after D t calls) child session := by
  induction calls generalizing t with
  | nil => exact hheld
  | cons call calls ih =>
    exact ih (hheld.run (hwithin call mem_cons_self) hkept.1)
      (fun c hc => hwithin c (mem_cons_of_mem _ hc)) hkept.2

end Sessions

/-! ## The two stores -/

section Stores
variable {before : Tables}

def Whole (timestamp : Timestamp) : Prop := timestamp % 1000 = 0

theorem Whole.stored {timestamp : Timestamp} (h : Whole timestamp) :
    postgres.stored timestamp = sqlite.stored timestamp := by
  exact Int.ediv_mul_cancel (Int.dvd_of_emod_eq_zero h)

def Apart (t : Tables) : Prop := ∀ vm ∈ t.vms.rows, t.reservations.find? vm.id = none

/-- The call is of both stores and reads the same on them. -/
def Call.Common : Call → Prop
  | .claim operation _ expires_at _ =>
    Whole operation.created_at ∧ Whole operation.updated_at ∧ Whole expires_at
  | .commit _ _ _ child_created_at updated_at => Whole child_created_at ∧ Whole updated_at
  | .release _ _ => True
  | .prune _ _ => False
  | .other vms reservations => ∀ vm ∈ vms.rows, reservations.find? vm.id = none

theorem Apart.filter (h : Apart t) (p : QuotaReservation → Bool) :
    Apart { t with reservations := t.reservations.filter p } := by
  intro vm hvm
  rw [Table.find?_filter, h vm hvm]
  rfl

/-- The union of the ids has no fewer elements than there are rows. -/
theorem Apart.active (h : Apart t) (owner_key : String) (now : Timestamp) :
    sqlite.active t owner_key now = postgres.active t owner_key now := by
  have hvms : (activeVms t owner_key).Nodup := (filter_sublist.map _).nodup t.vms.nodup
  have hheld : (heldIds t owner_key now).Nodup :=
    (filter_sublist.map _).nodup t.reservations.nodup
  have hdisjoint : (activeVms t owner_key).Disjoint (heldIds t owner_key now) := by
    intro id hid hid'
    obtain ⟨vm, hvm, rfl⟩ := mem_map.mp hid
    obtain ⟨r, hr, hrid⟩ := mem_map.mp hid'
    have hnone := t.reservations.find?_eq_none_iff.mp (h vm (mem_filter.mp hvm).1)
    exact hnone (hrid ▸ mem_map_of_mem (mem_filter.mp hr).1)
  show (activeVms t owner_key ++ heldIds t owner_key now).dedup.length = _
  rw [dedup_eq_self.mpr (hvms.append hheld hdisjoint), length_append]
  rfl

theorem reserveChild_agree (outcome : ClaimAnswer) (resumed_after_restart : Bool) (h : Apart t)
    (hbefore : Apart before) (hwhole : Whole expires_at) :
    reserveChild postgres operation max_vms expires_at now outcome resumed_after_restart before t =
        reserveChild sqlite operation max_vms expires_at now outcome
          resumed_after_restart before t ∧
      Apart (reserveChild sqlite operation max_vms expires_at now outcome resumed_after_restart
        before t).2 := by
  have hquota : exceedsQuota postgres t operation.owner_key max_vms now =
      exceedsQuota sqlite t operation.owner_key max_vms now := by
    unfold exceedsQuota
    rw [h.active]
  refine ⟨?_, ?_⟩
  · unfold reserveChild
    simp only [hwhole.stored, hquota]
  · unfold reserveChild
    split
    · split
      · exact hbefore
      · split
        · exact h
        · intro vm hvm
          rw [Table.find?_update, Option.map_eq_none_iff]
          exact h vm hvm
    · next hnone =>
      split
      · exact h
      rename_i hvm
      split
      · exact hbefore
      intro vm hmem
      rw [Table.find?_insert _ hnone, if_neg]
      · exact h vm hmem
      intro hid
      -- the child has no row yet
      refine hvm (Option.isSome_iff_exists.mpr ⟨vm, t.vms.find?_eq_some_iff.mpr ⟨hmem, hid⟩⟩)

theorem claimForkOperation_agree (max_vms : Nat) (h : Apart t)
    (hcreated : Whole operation.created_at) (hupdated : Whole operation.updated_at)
    (hexpires : Whole expires_at) :
    claimForkOperation postgres operation max_vms expires_at now t =
        claimForkOperation sqlite operation max_vms expires_at now t ∧
      Apart (claimForkOperation sqlite operation max_vms expires_at now t).2 := by
  have hpreparing : preparing postgres operation = preparing sqlite operation := by
    unfold preparing
    rw [hcreated.stored, hupdated.stored]
  have htaken : takenOver postgres operation = takenOver sqlite operation := by
    unfold takenOver
    rw [hupdated.stored]
  have hdropped : Apart (dropExpired now t) := h.filter _
  unfold claimForkOperation
  dsimp only
  cases (dropExpired now t).operations.find? operation.child_vm_id with
  | none =>
    dsimp only
    rw [hpreparing]
    split
    · exact ⟨rfl, h⟩
    · exact reserveChild_agree _ _ hdropped h hexpires
  | some existing =>
    dsimp only
    split
    · exact ⟨rfl, h⟩
    cases existing.status with
    | Committed => exact ⟨rfl, hdropped⟩
    | Preparing =>
      dsimp only [takeOver]
      simp only [htaken]
      refine reserveChild_agree _ _ ?_ h hexpires
      split <;> exact hdropped

/-- Both stores answer such a call alike and make the same tables of it. -/
theorem Call.Common.run {call : Call} (hcommon : call.Common) (h : Apart t) :
    call.run postgres t = call.run sqlite t ∧ Apart (call.run sqlite t).2 := by
  cases call with
  | claim operation max_vms expires_at now =>
    obtain ⟨hcreated, hupdated, hexpires⟩ := hcommon
    obtain ⟨heq, hapart⟩ := claimForkOperation_agree max_vms h hcreated hupdated hexpires
    exact ⟨by simp only [Call.run, heq], hapart⟩
  | commit child_vm_id source_vm_id owner_key child_created_at updated_at =>
    have hset : committed postgres child_created_at updated_at =
        committed sqlite child_created_at updated_at := by
      unfold committed
      rw [hcommon.1.stored, hcommon.2.stored]
    refine ⟨?_, ?_⟩
    · simp only [Call.run, commitForkOperation, hset, hcommon.1.stored]
    · show Apart (commitForkOperation sqlite child_vm_id source_vm_id owner_key child_created_at
        updated_at t).2
      unfold commitForkOperation
      dsimp only
      split
      · exact h
      · exact h
  | release owner_key id => exact ⟨rfl, h.filter _⟩
  | prune older_than limit => exact hcommon.elim
  | other vms reservations => exact ⟨rfl, hcommon⟩

theorem replies_agree {calls : List Call} (h : Apart t) (hcommon : ∀ call ∈ calls, call.Common) :
    replies postgres t calls = replies sqlite t calls := by
  induction calls generalizing t with
  | nil => rfl
  | cons call calls ih =>
    obtain ⟨heq, hapart⟩ := (hcommon call mem_cons_self).run h
    show _ :: _ = _ :: _
    rw [heq, ih hapart fun c hc => hcommon c (mem_cons_of_mem _ hc)]

end Stores

/-! ## Results -/

/-- On either store, in any sequence of calls: until it is pruned, an operation stays bound to its
source, owner and hosts, and once committed only its `updated_at` changes; while the child is
reserved, a session that obtained a claim of it obtains no other unless another session claimed it
in between. Both stores answer alike where timestamps are whole microseconds and no VM has a
reservation. -/
theorem fork_operations_bound_and_fenced (D : Dialect) (t : Tables) (calls : List Call) :
    (∀ child row, t.operations.find? child = some row → Unpruned D child t calls →
      ∃ row', (after D t calls).operations.find? child = some row' ∧ SameBinding row row' ∧
        (row.status = .Committed → row' = { row with updated_at := row'.updated_at })) ∧
    (∀ child session operation max_vms expires_at now operation' max_vms' expires_at' now'
        reservation,
      operation.child_vm_id = child → operation.target_boot_session_id = session →
      operation'.child_vm_id = child → operation'.target_boot_session_id = session →
      let first := claimForkOperation D operation max_vms expires_at now t
      let last := after D first.2 calls
      first.1.Obtains → (∀ call ∈ calls, call.Within child session) →
      Unpruned D child first.2 calls →
      last.reservations.find? child = some reservation → now' < reservation.expires_at →
      ¬ (claimForkOperation D operation' max_vms' expires_at' now' last).1.Obtains) ∧
    (Apart t → (∀ call ∈ calls, call.Common) →
      replies postgres t calls = replies sqlite t calls) := by
  refine ⟨?_, ?_, replies_agree⟩
  · intro child row hrow hkept
    obtain ⟨row', hrow', hfollows⟩ := after_follows calls hrow hkept
    exact ⟨row', hrow', hfollows.1, hfollows.2⟩
  · intro child session operation max_vms expires_at now operation' max_vms' expires_at' now'
      reservation hchild hsession hchild' hsession' first last hobtains hwithin hkept hreservation
      hunexpired
    have hheld : HeldBy first.2 child session := by
      have h := heldBy_of_obtains hobtains
      rwa [hchild, hsession] at h
    have hlast : HeldBy last child session := hheld.after hwithin hkept
    rw [← hchild'] at hlast hreservation
    rw [← hsession'] at hlast
    exact not_obtains_of_reserved hlast hreservation hunexpired

section Example

def forkBy (session : Uuid) : ForkOperationRecord where
  child_vm_id := 2
  source_vm_id := 1
  owner_key := "tenant"
  source_host_id := "a"
  target_host_id := "b"
  target_boot_session_id := some session
  status := .Preparing
  child_created_at := none
  created_at := 0
  updated_at := 0

def noTables : Tables := ⟨∅, ∅, ∅⟩

def claimBy (session : Uuid) : Call := .claim (forkBy session) 10 900000 0

def commitAt (child_created_at updated_at : Timestamp) : Call :=
  .commit 2 1 "tenant" child_created_at updated_at

/-- A claim of another child by another session. -/
def claimThird (max_vms : Nat) : Call := .claim { forkBy 8 with child_vm_id := 3 } max_vms 900000 0

/-- The row of the child, beside its reservation. -/
def childBeside : Call :=
  .other (Table.insert ∅ ⟨2, "b", some "tenant", none, .Running, 1, none, 512, 1, "",
    none, false, "", none, none, none, 0, 0⟩) (Table.insert ∅ ⟨2, "tenant", 900000⟩)

end Example

/-- Session 8 obtains the claim of the child that session 7 has reserved until 900000, on both
stores; a replayed commit changes a committed operation; the fleet accepts a second commit with
another creation time within the microsecond, which the store refuses; and a VM beside its
reservation counts twice in the fleet. -/
theorem reserved_child_taken_over :
    (∀ D ∈ [sqlite, postgres],
      replies D noTables [claimBy 7, claimBy 8] = [.claim .New, .claim .Resumed] ∧
      (after D noTables [claimBy 7]).reservations.rows = [⟨2, "tenant", 900000⟩] ∧
      ((after D noTables [claimBy 7, commitAt 0 1000]).operations.find? 2).map (·.updated_at) =
        some 1000 ∧
      ((after D noTables [claimBy 7, commitAt 0 1000, commitAt 0 2000]).operations.find? 2).map
        (·.updated_at) = some 2000) ∧
    replies postgres noTables [claimBy 7, commitAt 1 0, commitAt 2 0] =
      [.claim .New, .commit (.ok ()), .commit (.ok ())] ∧
    replies sqlite noTables [claimBy 7, commitAt 1 0, commitAt 2 0] ≠
      [.claim .New, .commit (.ok ()), .commit (.ok ())] ∧
    replies postgres noTables [childBeside, claimThird 2] = [.none, .claim .QuotaExceeded] ∧
    replies sqlite noTables [childBeside, claimThird 2] = [.none, .claim .New] := by
  refine ⟨?_, by rfl, ?_, by rfl, by rfl⟩
  · intro D hD
    simp only [mem_cons, not_mem_nil, or_false] at hD
    rcases hD with rfl | rfl <;> exact ⟨by rfl, by rfl, by rfl, by rfl⟩
  · intro h
    have hlast := congrArg (fun answers : List Reply => answers.getLast?) h
    cases hlast

/-- A session that reserved a child obtains it no second time, with a claim of another child and
one more of its own in between; a commit does not change the binding; and both stores answer all
this alike. -/
theorem same_session_fenced :
    (claimForkOperation sqlite (forkBy 7) 10 900000 0 noTables).1 = .New ∧
    ¬ (claimForkOperation sqlite (forkBy 7) 10 900000 5
      (after sqlite (claimForkOperation sqlite (forkBy 7) 10 900000 0 noTables).2
        [claimThird 10, claimBy 7])).1.Obtains ∧
    (∃ row, (after sqlite (after sqlite noTables [claimBy 7])
      [claimThird 10, commitAt 0 1000]).operations.find? 2 = some row ∧
        SameBinding (forkBy 7) row) ∧
    replies postgres noTables [claimBy 7, claimThird 10, commitAt 0 1000] =
      replies sqlite noTables [claimBy 7, claimThird 10, commitAt 0 1000] := by
  have hnew : (claimForkOperation sqlite (forkBy 7) 10 900000 0 noTables).1 = .New := by rfl
  refine ⟨hnew, ?_, ?_, ?_⟩
  · refine (fork_operations_bound_and_fenced sqlite noTables [claimThird 10, claimBy 7]).2.1 2
      (some 7) (forkBy 7) 10 900000 0 (forkBy 7) 10 900000 5 ⟨2, "tenant", 900000⟩ rfl rfl rfl rfl
      (.inl hnew) ?_ ?_ (by rfl) (by decide)
    · simp [claimThird, claimBy, Call.Within, forkBy]
    · simp [claimThird, claimBy, Unpruned]
  · obtain ⟨row, hrow, hsame, -⟩ := (fork_operations_bound_and_fenced sqlite
      (after sqlite noTables [claimBy 7]) [claimThird 10, commitAt 0 1000]).1 2 (forkBy 7) (by rfl)
      (by simp [claimThird, commitAt, Unpruned])
    exact ⟨row, hrow, hsame⟩
  · apply (fork_operations_bound_and_fenced sqlite noTables _).2.2
    · intro vm hvm
      cases hvm
    · simp [claimThird, claimBy, commitAt, Call.Common, forkBy, Whole]

end Tarit.Admission
