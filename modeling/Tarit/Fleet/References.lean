import Mathlib.Algebra.BigOperators.Ring.Finset
import Mathlib.Algebra.BigOperators.Pi
import Mathlib.Data.Fintype.BigOperators
import Mathlib.Tactic.Abel
import Tarit.Fleet.Ownership
import Tarit.Lib.Schedules

/-!
# Reference counts of artifacts

A branch, a hibernation, a running VM and a child artifact each refer to one artifact, and
`reference_count` of the artifact is to be the number of rows that do. The rows are written
one by one and the counts next to them: a row weighs the count it carries less the reference
it makes, and the weights of all rows of consistent tables add up to nothing for every
artifact. An open transaction `Owes` what its own writes have left unbalanced so far; each
of its statements changes that by the weight of the row it writes, whatever the other
transactions do, and it commits when it owes nothing.

`upsert_hibernation` and `delete_vm` look a row up for update before they write it. A row
that is not there is not locked, and what is inserted in its place meanwhile is overwritten,
or deleted with its VM, without its reference being released.
-/
namespace Tarit.Fleet

open Lib Stmt Session Service Option

/-- The kinds of rows that carry a count or refer to an artifact. -/
inductive RefKind where
  | artifact | branch | hibernation | vmArtifactRef
  deriving DecidableEq

instance : Fintype RefKind where
  elems := {.artifact, .branch, .hibernation, .vmArtifactRef}
  complete kind := by cases kind <;> decide

abbrev Slot := RefKind × Uuid

def Slot.key : Slot → FleetKey
  | (.artifact, id) => .artifact id
  | (.branch, id) => .branch id
  | (.hibernation, id) => .hibernation id
  | (.vmArtifactRef, id) => .vmArtifactRef id

theorem Slot.key_injective {slot slot' : Slot} (h : slot.key = slot'.key) : slot = slot' := by
  obtain ⟨kind, id⟩ := slot
  obtain ⟨kind', id'⟩ := slot'
  cases kind <;> cases kind' <;> cases h <;> rfl

def target : (k : FleetKey) → Option (FleetRow k) → Option Uuid
  | .artifact _, some row => row.parent_artifact_id
  | .branch _, some row => some row.head_artifact_id
  | .hibernation _, some row => some row.artifact_id
  | .vmArtifactRef _, some row => some row.artifact_id
  | _, _ => none

theorem target_none (k : FleetKey) : target k none = none := by
  cases k <;> rfl

/-- The number of branch heads, child artifacts, hibernations and VM references that point
at an artifact. -/
def references (v : Rows FleetRow) (artifact_id : Uuid) : Nat :=
  (Finset.univ.filter fun slot : Slot => target slot.key (v slot.key) = some artifact_id).card

def referenceCount (v : Rows FleetRow) (artifact_id : Uuid) : Nat :=
  match v (.artifact artifact_id) with
  | some artifact => artifact.reference_count
  | none => 0

/-! ## Weights -/

def owed (o : Option Uuid) : Uuid → ℤ := fun a => if o = some a then 1 else 0

@[simp] theorem owed_none : owed none = 0 := by
  funext a
  rfl

/-- What is left of `new` where it replaces `old`. -/
def replacing (old new : Option Uuid) : Option Uuid := if old = new then none else new

theorem replacing_self (o : Option Uuid) : replacing o o = none := if_pos rfl

variable {old : Option Uuid} {s : Session FleetRow} {debt : Uuid → ℤ} {k : FleetKey}

theorem replacing_of_ne {new : Option Uuid} (h : old ≠ new) : replacing old new = new := if_neg h

theorem owed_replacing (old new : Option Uuid) :
    owed (replacing old new) + (owed old - owed new) = owed (replacing new old) := by
  by_cases h : old = new
  · rw [h, sub_self, add_zero]
  · rw [replacing_of_ne h, replacing_of_ne (Ne.symm h)]
    abel

def counted : (k : FleetKey) → Option (FleetRow k) → Uuid → ℤ
  | .artifact id, some row => fun a => if a = id then row.reference_count else 0
  | _, _ => 0

/-- The count a row carries less the reference it makes. -/
def weight (k : FleetKey) (row : Option (FleetRow k)) : Uuid → ℤ :=
  counted k row - owed (target k row)

theorem weight_none (k : FleetKey) : weight k none = 0 := by
  cases k <;> simp [weight, counted, target]

/-- What the tables owe: nothing where every count is the number of references. -/
def balance (v : Rows FleetRow) : Uuid → ℤ := ∑ slot : Slot, weight slot.key (v slot.key)

theorem sum_counted (v : Rows FleetRow) (a : Uuid) :
    ∑ slot : Slot, counted slot.key (v slot.key) a = referenceCount v a := by
  rw [Fintype.sum_eq_single (.artifact, a)]
  · show counted (.artifact a) (v (.artifact a)) a = _
    unfold referenceCount
    cases v (.artifact a) with
    | none => rfl
    | some artifact => exact if_pos rfl
  · rintro ⟨kind, id⟩ hne
    cases kind with
    | artifact =>
      have hid : a ≠ id := fun h => hne (by rw [h])
      show counted (.artifact id) (v (.artifact id)) a = 0
      cases v (.artifact id) with
      | none => rfl
      | some artifact => exact if_neg hid
    | branch => rfl
    | hibernation => rfl
    | vmArtifactRef => rfl

theorem balance_apply (v : Rows FleetRow) (a : Uuid) :
    balance v a = referenceCount v a - references v a := by
  have hrefs : ∑ slot : Slot, owed (target slot.key (v slot.key)) a = references v a := by
    unfold owed references
    rw [Finset.card_filter]
    push_cast
    rfl
  rw [balance, Finset.sum_apply, ← sum_counted, ← hrefs, ← Finset.sum_sub_distrib]
  rfl

theorem balance_eq_zero_iff (v : Rows FleetRow) :
    balance v = 0 ↔ ∀ a, referenceCount v a = references v a := by
  constructor
  · intro h a
    have ha := congrFun h a
    rw [balance_apply, Pi.zero_apply, sub_eq_zero] at ha
    exact_mod_cast ha
  · intro h
    funext a
    rw [balance_apply, h a, sub_self]
    rfl

/-- What a transaction has written and not yet balanced. -/
def Owes (debt : Uuid → ℤ) (s : Session FleetRow) : Prop :=
  ∑ slot : Slot, (weight slot.key (s.view slot.key) - weight slot.key (s.rows slot.key)) = debt

theorem Owes.balance (h : Owes debt s) : balance s.view = balance s.rows + debt := by
  rw [← h, Finset.sum_sub_distrib]
  unfold Fleet.balance
  abel

/-- A step that changes the weight of one row changes the debt by as much. -/
theorem Owes.move {s' : Session FleetRow} (hs : Owes debt s) (hrows : s'.rows = s.rows)
    (slot : Slot) (hother : ∀ slot' : Slot, slot' ≠ slot →
      weight slot'.key (s'.view slot'.key) = weight slot'.key (s.view slot'.key)) :
    Owes (debt + (weight slot.key (s'.view slot.key) - weight slot.key (s.view slot.key))) s' := by
  have hmove : ∑ slot' : Slot, (weight slot'.key (s'.view slot'.key) -
      weight slot'.key (s.view slot'.key)) =
        weight slot.key (s'.view slot.key) - weight slot.key (s.view slot.key) :=
    Fintype.sum_eq_single slot fun slot' hne => by rw [hother slot' hne, sub_self]
  unfold Owes
  rw [← hs, ← hmove, ← Finset.sum_add_distrib, hrows]
  refine Finset.sum_congr rfl fun slot' _ => ?_
  abel

theorem Owes.keep {s' : Session FleetRow} (hs : Owes debt s) (hrows : s'.rows = s.rows)
    (hview : ∀ slot : Slot, weight slot.key (s'.view slot.key) =
      weight slot.key (s.view slot.key)) :
    Owes debt s' := by
  have hmove := hs.move hrows (.artifact, 0) fun slot _ => hview slot
  rw [hview, sub_self, add_zero] at hmove
  exact hmove

theorem Owes.write (hs : Owes debt s) {st : Stmt FleetRow} {a : st.Answer} (slot : Slot)
    {o : Option (Option (FleetRow slot.key))}
    (h : st.touch fleetSchema s.view a = Stmt.only slot.key o) :
    Owes (debt + (weight slot.key (o.getD (s.view slot.key)) - weight slot.key (s.view slot.key)))
      (s.perform fleetSchema st a) := by
  have hother (slot' : Slot) (hne : slot' ≠ slot) :
      weight slot'.key ((s.perform fleetSchema st a).view slot'.key) =
        weight slot'.key (s.view slot'.key) := by
    rw [view_perform_of_ne h fun hkey => hne (Slot.key_injective hkey)]
  have hmove := hs.move (perform_rows _ _ _ _) slot hother
  rw [view_perform_self h] at hmove
  exact hmove

/-- The tables a statement may write without any effect on the balance. -/
def OffBalance (tables : List Table) : Prop :=
  .artifacts ∉ tables ∧ .branches ∉ tables ∧ .hibernations ∉ tables ∧ .vmArtifactRefs ∉ tables ∧
    .vmRemovals ∉ tables

theorem offBalance_nil : OffBalance [] := by simp [OffBalance]

theorem Owes.offBalance (hs : Owes debt s) {tables : List Table} (htables : OffBalance tables)
    {st : Stmt FleetRow} (hst : Within tables st) {a : st.Answer} (ha : st.Answers s.view a) :
    Owes debt (s.perform fleetSchema st a) := by
  obtain ⟨hartifacts, hbranches, hhibernations, hrefs, hremovals⟩ := htables
  refine hs.keep rfl fun slot => ?_
  obtain ⟨kind, id⟩ := slot
  refine congrArg (weight _) ?_
  cases kind with
  | artifact =>
    exact view_unwritten hst ha hartifacts fun k' _ row => by cases k' <;> rfl
  | branch =>
    refine view_unwritten hst ha hbranches fun k' hk' row => ?_
    cases k' with
    | branch => exact absurd hk' hbranches
    | _ => rfl
  | hibernation =>
    refine view_unwritten hst ha hhibernations fun k' hk' row => ?_
    cases k' with
    | vm => exact absurd hk' hremovals
    | _ => rfl
  | vmArtifactRef =>
    exact view_unwritten hst ha hrefs fun k' _ row => by cases k' <;> rfl

/-! ## The weights of the rows the calls write -/

theorem weight_referenced (id : Uuid) (artifact : ArtifactRecord) (updated_at : Timestamp) :
    weight (.artifact id) (some (referenced updated_at artifact)) -
      weight (.artifact id) (some artifact) = owed (some id) := by
  funext a
  by_cases ha : a = id
  · subst ha
    simp [weight, counted, target, owed, referenced]
  · simp [weight, counted, target, owed, referenced, ha, Ne.symm ha]

theorem weight_unreferenced (id : Uuid) (artifact : ArtifactRecord) (updated_at : Timestamp)
    (h : 0 < artifact.reference_count) :
    weight (.artifact id) (some (unreferenced updated_at artifact)) -
      weight (.artifact id) (some artifact) = -owed (some id) := by
  funext a
  by_cases ha : a = id
  · subst ha
    simp [weight, counted, target, owed, unreferenced, Nat.cast_pred h]
  · simp [weight, counted, target, owed, unreferenced, ha, Ne.symm ha]

theorem weight_of_count_eq_zero (id : Uuid) (artifact : ArtifactRecord)
    (h : artifact.reference_count = 0) :
    weight (.artifact id) (some artifact) = -owed artifact.parent_artifact_id := by
  funext a
  simp [weight, counted, target, h]

theorem weight_branch (id : Uuid) (branch : BranchRecord) :
    weight (.branch id) (some branch) = -owed (some branch.head_artifact_id) := by
  simp [weight, counted, target]

theorem weight_hibernation (id : Uuid) (row : HibernationRow) :
    weight (.hibernation id) (some row) = -owed (some row.artifact_id) := by
  simp [weight, counted, target]

theorem weight_vmArtifactRef (id : Uuid) (row : VmArtifactRefRow) :
    weight (.vmArtifactRef id) (some row) = -owed (some row.artifact_id) := by
  simp [weight, counted, target]

/-! ## The statements -/

variable {cond : FleetRow k → Bool}

theorem Owes.lock (hs : Owes debt s) {a : Option (FleetRow k)}
    (ha : (Stmt.selectForUpdate k cond).Answers s.view a) :
    Owes debt (s.perform fleetSchema (.selectForUpdate k cond) a) :=
  hs.offBalance offBalance_nil (within_lock _ _ _) ha

theorem Owes.update (hs : Owes debt s) (slot : Slot) {cond : FleetRow slot.key → Bool}
    {set : FleetRow slot.key → FleetRow slot.key} {row : FleetRow slot.key}
    (ha : (Stmt.update slot.key cond set).Answers s.view (some row)) :
    ∃ before, s.view slot.key = some before ∧ cond before = true ∧
      Owes (debt + (weight slot.key (some (set before)) - weight slot.key (some before)))
        (s.perform fleetSchema (.update slot.key cond set) (some row)) := by
  obtain ⟨before, hbefore, rfl⟩ := map_eq_some_iff.mp (Eq.symm ha)
  obtain ⟨hview, hcond⟩ := filter_eq_some_iff.mp hbefore
  have hwrite := hs.write slot
    (touch_update fleetSchema s.view slot.key cond set (some (set before)))
  rw [hview] at hwrite
  exact ⟨before, hview, hcond, hwrite⟩

theorem Owes.insert (hs : Owes debt s) (slot : Slot) {row : FleetRow slot.key} {a : Unit}
    (hadmitted : (Stmt.insert slot.key row).Admitted fleetSchema s.view) :
    Owes (debt + weight slot.key (some row)) (s.perform fleetSchema (.insert slot.key row) a) := by
  have hwrite := hs.write slot (touch_insert fleetSchema s.view slot.key row a)
  rw [hadmitted.1, weight_none, sub_zero] at hwrite
  exact hwrite

/-- Deleting a row of a slot does not change the weight of another: it only clears where a
branch came from. -/
theorem weight_onDelete {slot slot' : Slot} {row : FleetRow slot'.key}
    {r : Option (FleetRow slot'.key)}
    (h : fleetSchema.onDelete slot.key slot'.key row = some r) :
    weight slot'.key r = weight slot'.key (some row) := by
  obtain ⟨kind, id⟩ := slot
  obtain ⟨kind', id'⟩ := slot'
  cases kind with
  | branch =>
    cases kind' with
    | branch =>
      obtain ⟨_, hr⟩ := ite_none_right_eq_some.mp h
      cases hr
      exact (weight_branch id' _).trans (weight_branch id' row).symm
    | _ => cases h
  | _ => cases kind' <;> cases h

theorem Owes.delete (hs : Owes debt s) (slot : Slot) {cond : FleetRow slot.key → Bool}
    {p : (k : FleetKey) → FleetRow k → Bool} {row : FleetRow slot.key}
    (ha : (Stmt.delete slot.key cond p).Answers s.view (some row)) :
    s.view slot.key = some row ∧ cond row = true ∧
      Owes (debt - weight slot.key (some row))
        (s.perform fleetSchema (.delete slot.key cond p) (some row)) := by
  have hfound : (s.view slot.key).filter cond = some row := by
    obtain ⟨ha, _⟩ | ⟨ha, _⟩ := ha
    · exact ha.symm
    · cases ha
  obtain ⟨hview, hcond⟩ := filter_eq_some_iff.mp hfound
  refine ⟨hview, hcond, ?_⟩
  have hdeleted :
      (s.perform fleetSchema (.delete slot.key cond p) (some row)).view slot.key = none := by
    rw [view_perform, touch_delete_some, cascade_self]
    rfl
  have hother (slot' : Slot) (hne : slot' ≠ slot) :
      weight slot'.key
        ((s.perform fleetSchema (.delete slot.key cond p) (some row)).view slot'.key) =
        weight slot'.key (s.view slot'.key) := by
    have hkey : slot'.key ≠ slot.key := fun h => hne (Slot.key_injective h)
    rw [view_perform, touch_delete_some, cascade_of_ne hkey]
    cases hview' : s.view slot'.key with
    | none => rfl
    | some row' =>
      cases hdelete : fleetSchema.onDelete slot.key slot'.key row' with
      | none => rw [bind_some, hdelete]; rfl
      | some r =>
        rw [bind_some, hdelete]
        exact weight_onDelete hdelete
  have hmove := hs.move (perform_rows _ _ _ _) slot hother
  rw [hdeleted, hview, weight_none, zero_sub] at hmove
  exact hmove

/-! ## The calls -/

section Calls

variable {ok : FleetCall → Session FleetRow → Stmt FleetRow → Prop}
  {Post : (c : FleetCall) → c.Reply → Session FleetRow → Prop} {c : FleetCall}

theorem stable_owes (debt : Uuid → ℤ) : (fleetWorld ok Post c).Stable (Owes debt) := by
  refine stable_own fun s s' hheld _ hrows hs => ?_
  rw [← hs]
  refine Finset.sum_congr rfl fun slot _ => ?_
  cases h : s.held slot.key with
  | none =>
    have h' : s'.held slot.key = none := by rw [hheld, h]
    rw [view_of_free h, view_of_free h', sub_self, sub_self]
  | some r =>
    have h' : s'.held slot.key = some r := by rw [hheld, h]
    rw [view_of_held h, view_of_held h',
      hrows _ (by rw [h]; exact some_ne_none r)]

/-- A program that ends owing `debt'` where it starts owing `debt`. -/
abbrev Settles (ok : FleetCall → Session FleetRow → Stmt FleetRow → Prop)
    (Post : (c : FleetCall) → c.Reply → Session FleetRow → Prop) (c : FleetCall) (debt : Uuid → ℤ)
    {α : Type} (p : Fleet α) (debt' : Uuid → ℤ) : Prop :=
  (fleetWorld ok Post c).Yields (Owes debt) p fun _ => Owes debt'

theorem stable_owes_of (p : Prop) (debt : Uuid → ℤ) :
    (fleetWorld ok Post c).Stable fun s => p → Owes debt s :=
  fun _ _ hs he hp => stable_owes debt (hs hp) he

variable {α : Type} {F : Session FleetRow → Prop} {artifact : ArtifactRecord} {vm : VmRecord}
  {artifact_id branch_id vm_id : Uuid} {owner_key message : String} {updated_at now : Timestamp}
  {rounds : Nat} {ready : ArtifactRecord → Bool} {expected_revision : UInt64}

theorem yields_offBalance {tables : List Table} {p : Fleet α} (hp : Fleet.Uses (Within tables) p)
    (htables : OffBalance tables) :
    Settles ok Post c debt p debt :=
  yields_uses hp (stable_owes debt) fun _ _ _ hst hs _ ha _ => hs.offBalance htables hst ha

/-- A fact that updates of artifacts leave alone. -/
structure Framed (w : World (Session FleetRow) (Stmt FleetRow) Stmt.Answer)
    (F : Session FleetRow → Prop) : Prop where
  stable : w.Stable F
  keep : ∀ s id cond set (a : Option ArtifactRecord), F s →
    F (s.perform fleetSchema (.update (.artifact id) cond set) a)

theorem framed_true : Framed (fleetWorld ok Post c) fun _ => True :=
  ⟨World.stable_const, fun _ _ _ _ _ _ => trivial⟩

theorem framed_held (hk : ∀ id, k ≠ .artifact id) (h : Option (Option (FleetRow k))) :
    Framed (fleetWorld ok Post c) fun s => s.held k = h := by
  constructor
  · exact stable_held c k h
  · intro s id cond set a hs
    rw [perform_held, touch_update, only_of_ne (hk id), none_or, hs]

theorem yields_updated {P Q : Session FleetRow → Prop} {set : FleetRow k → FleetRow k}
    (e : FleetError) (hP : (fleetWorld ok Post c).Stable P) (hQ : (fleetWorld ok Post c).Stable Q)
    (h : ∀ s row, P s → (Stmt.update k cond set).Answers s.view (some row) →
      Q (s.perform fleetSchema (.update k cond set) (some row))) :
    (fleetWorld ok Post c).Yields P
      (do let changed ← query (.update k cond set); ensure (Option.isSome changed) e)
      fun _ => Q := by
  refine .bind (Q := fun changed s => ∀ row, changed = some row → Q s)
    (yields_query hP (fun _ _ _ hs he row hrow => hQ (hs row hrow) he)
      fun s a hs _ ha _ row hrow => ?_) fun changed => ?_
  · subst hrow
    exact h s row hs ha
  · cases changed with
    | none => exact .throw _
    | some row =>
      exact .conseq (.pure hQ fun _ hs => hs) (fun _ hs => hs row rfl) fun _ _ hs => hs

theorem acquireArtifact_owes (hF : Framed (fleetWorld ok Post c) F) :
    (fleetWorld ok Post c).Yields (fun s => Owes debt s ∧ F s)
      (acquireArtifact artifact_id owner_key ready updated_at)
      fun _ s => Owes (debt + owed (some artifact_id)) s ∧ F s := by
  refine yields_updated _ (.and (stable_owes _) hF.stable)
    (.and (stable_owes _) hF.stable) fun s row hs ha => ?_
  obtain ⟨before, _, _, howes⟩ := hs.1.update (.artifact, artifact_id) ha
  have hweight := weight_referenced artifact_id before updated_at
  exact ⟨hweight ▸ howes, hF.keep _ _ _ _ _ hs.2⟩

theorem releaseArtifact_owes (hF : Framed (fleetWorld ok Post c) F) : (fleetWorld ok Post c).Yields
      (fun s => Owes (debt + owed (some artifact_id)) s ∧ F s)
      (releaseArtifact artifact_id owner_key updated_at message)
      fun _ s => Owes debt s ∧ F s := by
  refine yields_updated _ (.and (stable_owes _) hF.stable)
    (.and (stable_owes _) hF.stable) fun s row hs ha => ?_
  obtain ⟨before, _, hcond, howes⟩ := hs.1.update (.artifact, artifact_id) ha
  have hpositive : 0 < before.reference_count := by
    simp only [Bool.and_eq_true, decide_eq_true_eq] at hcond
    exact hcond.2
  have hweight := weight_unreferenced artifact_id before updated_at hpositive
  have howes' : Owes (debt + owed (some artifact_id) + -owed (some artifact_id)) _ :=
    hweight ▸ howes
  rw [add_neg_cancel_right] at howes'
  exact ⟨howes', hF.keep _ _ _ _ _ hs.2⟩

theorem yields_acquired :
    Settles ok Post c debt (acquireArtifact artifact_id owner_key ready updated_at)
      (debt + owed (some artifact_id)) :=
  .conseq (acquireArtifact_owes framed_true) (fun _ hs => ⟨hs, trivial⟩) fun _ _ hs => hs.1

theorem yields_released :
    Settles ok Post c (debt + owed (some artifact_id))
      (releaseArtifact artifact_id owner_key updated_at message) debt :=
  .conseq (releaseArtifact_owes framed_true) (fun _ hs => ⟨hs, trivial⟩) fun _ _ hs => hs.1

theorem yields_forUpdate {p : Option (FleetRow k) → Fleet α} {Q : α → Session FleetRow → Prop}
    (hnone : (fleetWorld ok Post c).Yields (Owes debt) (p none) Q)
    (hsome : ∀ row, cond row = true → (fleetWorld ok Post c).Yields
      (fun s => Owes debt s ∧ s.held k = some (some row)) (p (some row)) Q) :
    (fleetWorld ok Post c).Yields (Owes debt) (query (.selectForUpdate k cond) >>= p) Q := by
  refine .bind (Q := fun found s => Owes debt s ∧
      ∀ row, found = some row → s.held k = some (some row) ∧ cond row = true)
    (yields_query (stable_owes debt) (fun found => .and (stable_owes debt)
      (stable_own fun s s' hheld _ _ hs row hrow => by rw [hheld]; exact hs row hrow))
      fun s a hs _ ha _ => ⟨hs.lock ha, fun row hrow => ?_⟩) fun found => ?_
  · subst hrow
    refine ⟨?_, (filter_eq_some_iff.mp (Eq.symm ha)).2⟩
    rw [perform_held, touch_selectForUpdate, only_self]
    rfl
  · cases found with
    | none => exact hnone.pre fun _ hs => hs.1
    | some row =>
      refine .assume (fun _ hs => (hs.2 row rfl).2) fun hcond => ?_
      exact (hsome row hcond).pre fun _ hs => ⟨hs.1, (hs.2 row rfl).1⟩

/-- Deleting a row that is held leaves its reference, and what it counts, to be settled. -/
theorem yields_deleted (slot : Slot) {cond : FleetRow slot.key → Bool} {row : FleetRow slot.key}
    (hcond : cond row = true) {reference : Option Uuid}
    (hweight : weight slot.key (some row) = -owed reference) :
    (fleetWorld ok Post c).Yields
      (fun s => Owes debt s ∧ s.held slot.key = some (some row))
      (query (.delete slot.key cond fun _ _ => false))
      fun _ => Owes (debt + owed reference) := by
  refine yields_query (.and (stable_owes _) (stable_held _ _ _))
    (fun _ => stable_owes _) fun s a hs _ ha _ => ?_
  have hview : s.view slot.key = some row := view_of_held hs.2
  have hfound : a = some row := by
    obtain ⟨ha, _⟩ | ⟨_, _, _, _, hfalse⟩ := ha
    · rw [ha, hview]
      exact filter_some_pos hcond
    · cases hfalse
  subst hfound
  have howes := (hs.1.delete slot ha).2.2
  rw [hweight, sub_neg_eq_add] at howes
  exact howes

theorem yields_settled (a : α) : Settles ok Post c debt (pure a : Fleet α) debt :=
  .pure (stable_owes debt) fun _ hs => hs

theorem yields_unowed (a : α) :
    Settles ok Post c (debt + owed none) (pure a : Fleet α) debt := by
  rw [owed_none, add_zero]
  exact yields_settled a

/-- The loop deletes artifacts nobody refers to and settles the references they made. -/
theorem chain_owes (candidate : Uuid) : Settles ok Post c 0
      (deleteUnreferencedArtifactChainTx owner_key now rounds candidate) 0 := by
  induction rounds generalizing candidate with
  | zero => exact .throw _
  | succ rounds ih =>
    refine yields_forUpdate (yields_settled ()) fun artifact howner => ?_
    dsimp only
    split
    · next hcount =>
      have hcond : (artifact.owner_key == owner_key && artifact.reference_count == 0) = true := by
        rw [hcount, howner]
        rfl
      refine .bind (yields_deleted (.artifact, candidate) hcond
        (weight_of_count_eq_zero _ _ hcount)) fun _ => ?_
      cases artifact.parent_artifact_id with
      | none => exact yields_unowed ()
      | some parent_id => exact .bind yields_released fun _ => ih parent_id
    · exact (yields_settled ()).pre fun _ hs => hs.1

/-- Release the artifact that a deleted row referred to, and delete it if that was the last
reference. -/
theorem settle_owes : Settles ok Post c (0 + owed (some artifact_id)) (do
        releaseArtifact artifact_id owner_key now message
        deleteUnreferencedArtifactChainTx owner_key now rounds artifact_id) 0 :=
  .bind yields_released fun _ => chain_owes _

theorem releaseVmArtifactRefTx_owes :
    Settles ok Post c 0 (releaseVmArtifactRefTx vm now rounds) 0 := by
  refine yields_forUpdate (yields_settled ()) fun row _ => yields_ensure fun _ => ?_
  refine .bind (yields_deleted (.vmArtifactRef, vm.id) ?_
    (weight_vmArtifactRef _ _)) fun _ => settle_owes
  rw [beq_self_eq_true, beq_self_eq_true, Bool.and_self]

theorem yields_inserted (slot : Slot) {row : FleetRow slot.key} {reference : Option Uuid}
    (hweight : weight slot.key (some row) = -owed reference) :
    Settles ok Post c (debt + owed reference) (query (.insert slot.key row)) debt := by
  refine yields_query (stable_owes _) (fun _ => stable_owes _)
    fun s a hs hadmitted _ _ => ?_
  have howes := hs.insert slot hadmitted (a := a)
  rw [hweight, add_neg_cancel_right] at howes
  exact howes

theorem acquireVmArtifactRef_owes :
    Settles ok Post c 0 (acquireVmArtifactRef vm artifact_id now) 0 := by
  unfold acquireVmArtifactRef
  dsimp only
  split
  · exact .throw _
  refine yields_forUpdate ?_ fun row _ =>
    (yields_ensured (stable_owes 0) _ _).pre fun _ hs => hs.1
  exact .bind yields_acquired fun _ =>
    yields_inserted (.vmArtifactRef, _) (weight_vmArtifactRef _ _)

theorem yields_reweighed (slot : Slot) (cond : FleetRow slot.key → Bool)
    (set : FleetRow slot.key → FleetRow slot.key)
    (hset : ∀ row, weight slot.key (some (set row)) = weight slot.key (some row)) :
    Settles ok Post c debt (query (.update slot.key cond set)) debt := by
  refine yields_query (stable_owes _) (fun _ => stable_owes _) fun s a hs _ ha _ => ?_
  cases a with
  | none =>
    have hwrite := hs.write slot (touch_update fleetSchema s.view slot.key cond set none)
    rw [map_none, getD_none, sub_self, add_zero] at hwrite
    exact hwrite
  | some row =>
    obtain ⟨before, _, _, howes⟩ := hs.update slot ha
    rw [hset, sub_self, add_zero] at howes
    exact howes

theorem yields_taken (slot : Slot) (cond : FleetRow slot.key → Bool)
    {reference : FleetRow slot.key → Uuid}
    (hweight : ∀ row, weight slot.key (some row) = -owed (some (reference row))) :
    (fleetWorld ok Post c).Yields (Owes debt)
      (query (.delete slot.key cond fun _ _ => false))
      fun found => Owes (debt + owed (Option.map reference found)) := by
  refine yields_query (stable_owes _) (fun _ => stable_owes _) fun s a hs _ ha _ => ?_
  cases a with
  | none =>
    rw [map_none, owed_none, add_zero]
    exact hs.keep rfl fun slot' => by
      rw [view_perform]
      rfl
  | some row =>
    have howes := (hs.delete slot ha).2.2
    rw [hweight, sub_neg_eq_add] at howes
    exact howes

theorem deleteHibernation_owes :
    Settles ok Post c 0 (deleteHibernation owner_key vm_id now rounds) 0 := by
  refine .bind (yields_taken (.hibernation, vm_id) _ (weight_hibernation vm_id)) fun found => ?_
  cases found with
  | none => exact .throw _
  | some row => exact settle_owes

theorem releaseHibernation_owes (found : Option HibernationRow) :
    Settles ok Post c (0 + owed (found.map HibernationRow.artifact_id))
      (releaseHibernation now rounds found) 0 := by
  cases found with
  | none => exact yields_unowed ()
  | some row => exact settle_owes

theorem releaseParent_owes (parent : Option Uuid) :
    Settles ok Post c (0 + owed parent) (releaseParent owner_key now parent) 0 := by
  cases parent with
  | none => exact yields_unowed ()
  | some parent_id => exact yields_released

theorem deleteArtifactIfUnreferenced_owes :
    Settles ok Post c 0 (deleteArtifactIfUnreferenced owner_key artifact_id now) 0 := by
  refine yields_forUpdate (.throw _) fun artifact howner => ?_
  refine yields_ensure fun hcount => ?_
  have hcond : (artifact.owner_key == owner_key && artifact.reference_count == 0) = true := by
    rw [howner, hcount]
    rfl
  refine .bind (yields_deleted (.artifact, artifact_id) hcond
    (weight_of_count_eq_zero _ _ (eq_of_beq hcount))) fun _ => ?_
  exact .bind (releaseParent_owes _) fun _ => yields_settled artifact

theorem acquireParent_owes :
    Settles ok Post c 0 (acquireParent artifact) (0 + owed artifact.parent_artifact_id) := by
  unfold acquireParent
  cases artifact.parent_artifact_id with
  | none =>
    rw [owed_none, add_zero]
    exact yields_settled ()
  | some parent =>
    exact yields_acquired

theorem insertArtifact_owes (single : Bool) :
    Settles ok Post c 0 (insertArtifact artifact single now) 0 := by
  refine yields_ensure fun hcount => ?_
  refine .bind (yields_offBalance (.query (within_select [] _)) offBalance_nil) fun existing => ?_
  split
  · exact yields_ensured (stable_owes 0) _ _
  refine .bind acquireParent_owes fun _ => ?_
  refine yields_ensure fun _ => yields_ensure fun _ =>
    yields_ensure fun _ => yields_ensure fun _ => ?_
  refine .bind (yields_offBalance initialReplicationState_within offBalance_nil) fun state => ?_
  exact yields_inserted (.artifact, artifact.artifact_id)
    (weight_of_count_eq_zero _ _ (eq_of_beq hcount))

theorem insertBranch_owes (branch : BranchRecord) :
    Settles ok Post c 0 (insertBranch branch) 0 := by
  refine .bind (yields_offBalance (.query (within_select [] _)) offBalance_nil) fun existing => ?_
  split
  · exact yields_ensure fun _ => yields_settled _
  refine .bind (yields_offBalance ensureSourceBranch_within offBalance_nil) fun _ => ?_
  refine .bind (yields_offBalance ensureSourceVm_within offBalance_nil) fun _ => ?_
  refine .bind yields_acquired fun _ => ?_
  refine yields_ensure fun _ => ?_
  exact .bind (yields_inserted (.branch, _) (weight_branch _ _)) fun _ => yields_settled _

theorem deleteBranch_owes :
    Settles ok Post c 0 (deleteBranch owner_key branch_id now rounds) 0 := by
  refine yields_forUpdate (.throw _) fun branch howner => ?_
  refine .bind (yields_deleted (.branch, branch_id) howner (weight_branch _ _)) fun _ => ?_
  refine .bind yields_released fun _ => ?_
  exact .bind (chain_owes _) fun _ => yields_settled branch

theorem yields_moved (slot : Slot) {cond : FleetRow slot.key → Bool}
    {set : FleetRow slot.key → FleetRow slot.key} {row : FleetRow slot.key}
    (hcond : cond row = true) {new : Option Uuid} (hold : weight slot.key (some row) = -owed old)
    (hnew : weight slot.key (some (set row)) = -owed new) :
    (fleetWorld ok Post c).Yields
      (fun s => Owes (0 + owed (replacing old new)) s ∧ s.held slot.key = some (some row))
      (query (.update slot.key cond set)) fun _ => Owes (0 + owed (replacing new old)) := by
  refine yields_query (.and (stable_owes _) (stable_held _ _ _))
    (fun _ => stable_owes _) fun s a hs _ ha _ => ?_
  have hview : s.view slot.key = some row := view_of_held hs.2
  have hfound : a = some (set row) := by
    have ha' : a = ((s.view slot.key).filter cond).map set := ha
    rw [ha', hview, filter_some_pos hcond]
    rfl
  subst hfound
  obtain ⟨before, hbefore, _, howes⟩ := hs.1.update slot ha
  obtain rfl : row = before := Option.some.inj (hview.symm.trans hbefore)
  rw [hold, hnew, add_assoc, neg_sub_neg, owed_replacing] at howes
  exact howes

theorem yields_acquiredUnless (hF : Framed (fleetWorld ok Post c) F) {same : Prop}
    [Decidable same] {new : Uuid} (hsame : same ↔ old = some new) :
    (fleetWorld ok Post c).Yields (fun s => Owes 0 s ∧ F s)
      (if same then pure () else acquireArtifact new owner_key ready updated_at)
      fun _ s => Owes (0 + owed (replacing old (some new))) s ∧ F s := by
  split
  · next h =>
    rw [hsame.mp h, replacing_self, owed_none, add_zero]
    exact .pure (.and (stable_owes 0) hF.stable) fun _ hs => hs
  · next h =>
    rw [replacing_of_ne fun heq => h (hsame.mpr heq)]
    exact acquireArtifact_owes hF

theorem yields_releasedUnless {same : Prop} [Decidable same] {old new : Uuid}
    (hsame : same ↔ old = new) :
    Settles ok Post c (0 + owed (replacing (some new) (some old)))
      (if same then pure () else releaseArtifact old owner_key updated_at message) 0 := by
  split
  · next h =>
    rw [hsame.mp h, replacing_self]
    exact yields_unowed ()
  · next h =>
    rw [replacing_of_ne fun heq => h (hsame.mpr (Option.some.inj heq).symm)]
    exact yields_released

theorem updateBranchHead_owes (new_head : Uuid) :
    Settles ok Post c 0
      (updateBranchHead owner_key branch_id expected_revision new_head updated_at) 0 := by
  refine yields_forUpdate (.throw _) fun branch howner => ?_
  refine yields_ensure fun hrevision => ?_
  refine .bind (yields_acquiredUnless (framed_held (by simp) _) some_inj.symm) fun _ => ?_
  refine yields_checkedSucc fun revision _ => yields_ensure fun _ => yields_ensure fun _ => ?_
  have hcond : (branch.owner_key == owner_key && branch.revision == expected_revision) = true := by
    rw [howner, hrevision]
    rfl
  exact .bind (yields_moved (.branch, branch_id) hcond (weight_branch _ _)
    (weight_branch _ _)) fun _ => yields_releasedUnless Iff.rfl

theorem updateHibernationEgress_owes (policy : EgressPolicyRecord) :
    Settles ok Post c 0 (updateHibernationEgress owner_key vm_id expected_revision policy) 0 := by
  refine yields_checkedSucc fun next _ => ?_
  refine yields_ensure fun _ => yields_ensure fun _ => yields_ensure fun _ => ?_
  exact .bind (yields_reweighed (.hibernation, vm_id) _ _ fun _ => rfl) fun _ =>
    yields_ensured (stable_owes 0) _ _

theorem releasePrevious_owes (record : FleetHibernationRecord) (previous : Option Uuid) :
    Settles ok Post c (0 + owed (replacing (some record.artifact_id) previous))
      (releasePrevious record previous) 0 := by
  cases previous with
  | none =>
    rw [replacing_of_ne (some_ne_none _)]
    exact yields_unowed ()
  | some previous => exact yields_releasedUnless Iff.rfl

abbrev upsertHibernationStmt (record : FleetHibernationRecord) : Stmt FleetRow :=
  .upsert (.hibernation record.vm_id) (hibernationRow record)
    (fun row => row.owner_key == record.owner_key) fun row =>
      { hibernationRow record with owner_key := row.owner_key, created_at := row.created_at }

/-- Where it changes a row, that is the row found before or, if none was, a new one. -/
theorem Owes.upsertHibernation {record : FleetHibernationRecord} {found : Option HibernationRow}
    (hs : Owes (0 + owed (replacing (found.map HibernationRow.artifact_id)
      (some record.artifact_id))) s) (hheld : s.held (.hibernation record.vm_id) = found.map some)
    (hok : ∀ row, s.view (.hibernation record.vm_id) = some row →
      row.owner_key = record.owner_key → (s.held (.hibernation record.vm_id)).isSome)
    {a : Option HibernationRow} (ha : (upsertHibernationStmt record).Answers s.view a)
    (hchanged : a.isSome = true) :
    Owes (0 + owed (replacing (some record.artifact_id) (found.map HibernationRow.artifact_id)))
      (s.perform fleetSchema (upsertHibernationStmt record) a) := by
  have hwrite := hs.write (.hibernation, record.vm_id)
    (touch_upsert fleetSchema s.view (.hibernation record.vm_id) (hibernationRow record)
      (fun row => row.owner_key == record.owner_key) (fun row =>
        { hibernationRow record with owner_key := row.owner_key, created_at := row.created_at }) a)
  have hfound : s.view (.hibernation record.vm_id) = found := by
    cases found with
    | some row => exact view_of_held hheld
    | none =>
      cases hview : s.view (.hibernation record.vm_id) with
      | none => rfl
      | some row =>
        -- a row of this tenant that is not held is excluded, and another tenant's is kept
        simp only [Stmt.Answers, hview] at ha
        split at ha
        · next howner =>
          have hsome := hok row hview (eq_of_beq howner)
          rw [hheld] at hsome
          cases hsome
        · subst ha
          cases hchanged
  obtain ⟨row, rfl⟩ := isSome_iff_exists.mp hchanged
  have hrow : row.artifact_id = record.artifact_id := by
    simp only [Stmt.Answers, hfound] at ha
    cases found with
    | none =>
      cases ha
      rfl
    | some before =>
      dsimp only at ha
      split at ha
      · cases ha
        rfl
      · cases ha
  have hnew : weight (.hibernation record.vm_id) (some row) = -owed (some record.artifact_id) := by
    rw [weight_hibernation, hrow]
  have hold : weight (.hibernation record.vm_id) (s.view (.hibernation record.vm_id)) =
      -owed (found.map HibernationRow.artifact_id) := by
    rw [hfound]
    cases found with
    | none => rw [weight_none, map_none, owed_none, neg_zero]
    | some before => exact weight_hibernation _ _
  have hmoved : Owes (0 + owed (replacing (found.map HibernationRow.artifact_id)
      (some record.artifact_id)) + (weight (.hibernation record.vm_id) (some row) -
        weight (.hibernation record.vm_id) (s.view (.hibernation record.vm_id)))) _ := hwrite
  rw [hnew, hold, neg_sub_neg, add_assoc, owed_replacing] at hmoved
  exact hmoved

theorem upsertHibernation_owes (record : FleetHibernationRecord)
    (hok : ∀ s, ok c s (upsertHibernationStmt record) → ∀ row,
      s.view (.hibernation record.vm_id) = some row → row.owner_key = record.owner_key →
        (s.held (.hibernation record.vm_id)).isSome) :
    (fleetWorld ok Post c).Yields (fun s => Owes 0 s ∧ Fresh s)
      (upsertHibernation record) fun _ => Owes 0 := by
  let k : FleetKey := .hibernation record.vm_id
  refine yields_ensure fun _ => ?_
  refine .bind (Q := fun found s => Owes 0 s ∧ s.held k = found.map some)
    (yields_query (.and (stable_owes 0) (stable_fresh _))
      (fun found => .and (stable_owes 0) (stable_held _ _ _))
      fun s a hs _ ha _ => ⟨hs.1.lock ha, ?_⟩) fun found => ?_
  · rw [perform_held, touch_selectForUpdate, only_self, hs.2, or_none]
  refine .bind (yields_acquiredUnless (framed_held (by simp) _) Iff.rfl) fun _ => ?_
  have hstable : (fleetWorld ok Post c).Stable fun s =>
      Owes (0 + owed (replacing (found.map HibernationRow.artifact_id)
        (some record.artifact_id))) s ∧ s.held k = found.map some :=
    .and (stable_owes _) (stable_held _ _ _)
  refine yields_ensure fun _ => ?_
  refine .bind (Q := fun changed s => changed.isSome = true →
      Owes (0 + owed (replacing (some record.artifact_id)
        (found.map HibernationRow.artifact_id))) s)
    (yields_query hstable (fun _ => stable_owes_of _ _)
      fun s a hs _ ha hok' hsome => hs.1.upsertHibernation hs.2 (hok s hok') ha hsome)
    fun changed => ?_
  refine yields_ensure fun hsome => ?_
  exact (releasePrevious_owes record _).pre fun _ hs => hs hsome

theorem Owes.deleteVm {debt : Uuid → ℤ} (hs : Owes debt s) {id : Uuid} {cond : VmRow → Bool}
    {a : Option VmRow} (hnone : s.view (.hibernation id) = none) :
    Owes debt (s.perform fleetSchema (.delete (.vm id) cond fun _ _ => false) a) := by
  refine hs.keep rfl fun slot => ?_
  rw [view_perform]
  cases a with
  | none => rfl
  | some row =>
    have hne : slot.key ≠ .vm id := by
      obtain ⟨kind, id'⟩ := slot
      cases kind <;> exact nofun
    have hkept (row : FleetRow slot.key) (hrow : s.view slot.key = some row) :
        fleetSchema.onDelete (.vm id) slot.key row = none := by
      obtain ⟨kind, id'⟩ := slot
      cases kind with
      | hibernation =>
        refine if_neg fun hid => ?_
        subst hid
        cases hnone.symm.trans hrow
      | _ => rfl
    rw [touch_delete_some, cascade_of_ne hne, bind_eq_none_iff.mpr hkept]
    rfl

/-- The rows that refer to the VM go with it, and their artifacts are released. -/
theorem deleteVm_owes (vm : VmRecord) (now : Timestamp) (rounds : Nat)
    (hok : ∀ s cond, ok c s (.delete (.vm vm.id) cond fun _ _ => false) →
      s.view (.hibernation vm.id) = none) :
    Settles ok Post c 0 (deleteVm vm now rounds) 0 := by
  refine .bind (yields_offBalance (.query (within_lock [] _ _)) offBalance_nil)
    fun current => yields_ensure fun _ => ?_
  refine .bind releaseVmArtifactRefTx_owes fun _ => ?_
  refine .bind (yields_taken (.hibernation, vm.id) _ (weight_hibernation _)) fun hibernation => ?_
  refine .bind (releaseHibernation_owes _) fun _ => ?_
  exact .bind (yields_query (stable_owes 0) (fun _ => stable_owes 0)
    fun s a hs _ _ hok' => hs.deleteVm (hok s _ hok')) fun _ => yields_settled ()

end Calls

/-! ## Every interleaving -/

/-- What is there of the hibernation of a VM when a call that looked it up writes it: the
row that `upsert_hibernation` of the same tenant replaces is the one it holds, and no row goes
with the VM that `delete_vm` deletes. -/
def WritesFound (c : FleetCall) (s : Session FleetRow) (st : Stmt FleetRow) : Prop :=
  match c, st with
  | .upsertHibernation record, .upsert (.hibernation id) _ _ _ =>
    ∀ row, s.view (.hibernation id) = some row → row.owner_key = record.owner_key →
      (s.held (.hibernation id)).isSome
  | .deleteVm _ _ _, .delete (.vm id) _ _ => s.view (.hibernation id) = none
  | _, _ => True

/-- Every call pays what it owes before it commits. -/
theorem prog_owes (c : FleetCall) {Post : (c : FleetCall) → c.Reply → Session FleetRow → Prop} :
    (fleetWorld WritesFound Post c).Yields (fun s => Owes 0 s ∧ Fresh s) c.prog
      fun _ => Owes 0 := by
  have hweaken {p : Fleet c.Reply} (h : Settles WritesFound Post c 0 p 0) :
      (fleetWorld WritesFound Post c).Yields (fun s => Owes 0 s ∧ Fresh s) p fun _ => Owes 0 :=
    h.pre fun _ hs => hs.1
  have hrest (htables : OffBalance c.writes) := hweaken (yields_offBalance (prog_within c) htables)
  cases c with
  | upsertHibernation record => exact upsertHibernation_owes record fun _ hok => hok
  | deleteVm vm now rounds => exact hweaken (deleteVm_owes vm now rounds fun _ _ hok => hok)
  | updateHibernationEgress => exact hweaken (updateHibernationEgress_owes _)
  | deleteHibernation => exact hweaken deleteHibernation_owes
  | acquireVmArtifactRef => exact hweaken acquireVmArtifactRef_owes
  | releaseVmArtifactRef => exact hweaken releaseVmArtifactRefTx_owes
  | insertArtifact => exact hweaken (insertArtifact_owes _)
  | setReplicationState =>
    exact hweaken (.bind (yields_reweighed (.artifact, _) _ _ fun _ => rfl) fun _ =>
      yields_settled ())
  | deleteArtifactIfUnreferenced => exact hweaken deleteArtifactIfUnreferenced_owes
  | insertBranch => exact hweaken (insertBranch_owes _)
  | updateBranchHead => exact hweaken (updateBranchHead_owes _)
  | deleteBranch => exact hweaken deleteBranch_owes
  | _ => exact hrest (by simp [OffBalance, FleetCall.writes])

theorem owes_start (v : Rows FleetRow) : Owes 0 (.start v) := by
  refine Finset.sum_eq_zero fun slot _ => ?_
  exact sub_self _

/-- Whatever calls run, and however their statements interleave, the count of every artifact
is the number of rows that refer to it, and an artifact that is referred to is there. -/
theorem counts_are_references {T : Type} [DecidableEq T] {initial : Rows FleetRow}
    (hinitial : ∀ artifact_id, referenceCount initial artifact_id = references initial artifact_id)
    {s : Sys T FleetRow FleetCall.Reply FleetError}
    (hs : (fleetService WritesFound).Reaches initial s) (artifact_id : Uuid) :
    referenceCount s.rows artifact_id = references s.rows artifact_id ∧
      (references s.rows artifact_id ≠ 0 → (s.rows (.artifact artifact_id)).isSome) := by
  have hsound : (fleetService WritesFound).Sound True (fun _ _ => Owes 0)
      (fun v => balance v = 0) s :=
    hs.sound (fun _ _ _ => trivial) ((balance_eq_zero_iff initial).mpr hinitial)
      (fun _ _ w hrows hw => by rw [Owes.balance hw, hrows, add_zero]) fun c =>
        (prog_owes c).pre fun w hw => by
          rw [hw.2]
          exact ⟨owes_start _, rfl⟩
  have hcount := (balance_eq_zero_iff s.rows).mp hsound.rows artifact_id
  refine ⟨hcount, fun hreferenced => ?_⟩
  cases hrow : s.rows (.artifact artifact_id) with
  | some artifact => rfl
  | none =>
    refine absurd ?_ hreferenced
    rw [← hcount, referenceCount, hrow]

def storedArtifact (artifact_id : Uuid) : ArtifactRecord where
  artifact_id := artifact_id
  owner_key := "tenant"
  host_id := "a"
  storage_locator := ""
  kind := .VmSnapshot
  status := .Available
  content_digest := ""
  size_bytes := 4096
  immutable_image_digest := ""
  agent_digest := ""
  boot_manifest_digest := ""
  parent_artifact_id := none
  source_vm_id := some 1
  creation_revision := 1
  integrity_manifest_digest := ""
  chunk_size_bytes := 4096
  chunk_count := 1
  replication_state := .Pending
  reference_count := 0
  created_at := 0
  updated_at := 0

def hibernationOf (artifact_id : Uuid) : FleetHibernationRecord where
  vm_id := 1
  owner_key := "tenant"
  artifact_id := artifact_id
  egress_policy := ⟨1, "tenant", 1, [], false, 0, 0⟩
  created_at := 0
  updated_at := 0

/-- A live host publishes VM 1 and two artifacts of it. -/
def artifactsStored : List (Action Bool FleetCall) :=
  [.start true (.upsertHost "a" ⟨none, true, 0⟩), .statement true, .commit true,
    .start true (.upsertVm (bootedVm "a" .Running 1)), .statement true, .commit true,
    .start true (.insertArtifact (storedArtifact 1) true 0), .statement true, .statement true,
    .statement true, .commit true,
    .start true (.insertArtifact (storedArtifact 2) true 0), .statement true, .statement true,
    .statement true, .commit true]

/-- The VM is hibernated to the first artifact and then to the second. -/
def hibernatedTwice : Option (Sys Bool FleetRow FleetCall.Reply FleetError) :=
  (fleetService WritesFound).run
    (fun c s st => match c, st with
      | .upsertHibernation _, .upsert (.hibernation id) _ _ _ =>
        (s.view (.hibernation id)).isNone || (s.held (.hibernation id)).isSome
      | .deleteVm _ _ _, _ => false
      | _, _ => true)
    [.host "a", .vm 1, .artifact 1, .artifact 2, .hibernation 1] [true]
    (artifactsStored ++
      [.start true (.upsertHibernation (hibernationOf 1)), .statement true, .statement true,
        .statement true, .commit true,
        .start true (.upsertHibernation (hibernationOf 2)), .statement true, .statement true,
        .statement true, .statement true, .commit true])
    ⟨fun _ => none, fun _ => none⟩

theorem references_empty (artifact_id : Uuid) : references (fun _ => none) artifact_id = 0 := by
  refine Finset.card_eq_zero.mpr (Finset.filter_eq_empty_iff.mpr fun slot _ => ?_)
  rw [target_none]
  exact (some_ne_none artifact_id).symm

/-- The reference moves from the first artifact to the second. -/
theorem hibernation_moves_reference : ∃ s : Sys Bool FleetRow FleetCall.Reply FleetError,
      (fleetService WritesFound).Reaches (fun _ => none) s ∧ references s.rows 1 = 0 ∧
        references s.rows 2 = 1 := by
  have hend : hibernatedTwice.isSome = true := rfl
  have hreaches : (fleetService WritesFound).Reaches (fun _ => none)
      (hibernatedTwice.get hend) := by
    refine run_empty (fun c w st hcheck => ?_) (some_get hend).symm
    cases c with
    | upsertHibernation record =>
      cases st with
      | upsert k =>
        cases k with
        | hibernation id =>
          intro row hrow _
          simpa [hrow] using hcheck
        | _ => trivial
      | _ => trivial
    | deleteVm => cases hcheck
    | _ => trivial
  have hempty (artifact_id : Uuid) : referenceCount (fun _ => none) artifact_id =
      references (fun _ => none) artifact_id := (references_empty artifact_id).symm
  have hfirst := (counts_are_references hempty hreaches 1).1
  have hsecond := (counts_are_references hempty hreaches 2).1
  exact ⟨hibernatedTwice.get hend, hreaches, hfirst.symm, hsecond.symm⟩

/-- Two hosts hibernate the VM at once, each to its own artifact, and neither finds a
hibernation. -/
def hibernatedAtOnce : Option (Sys Bool FleetRow FleetCall.Reply FleetError) :=
  (fleetService fun _ _ _ => True).run (fun _ _ _ => true)
    [.host "a", .vm 1, .artifact 1, .artifact 2, .hibernation 1] [true, false]
    (artifactsStored ++
      [.start true (.upsertHibernation (hibernationOf 1)), .statement true,
        .start false (.upsertHibernation (hibernationOf 2)), .statement false,
        .statement true, .statement true, .commit true,
        .statement false, .statement false, .commit false])
    ⟨fun _ => none, fun _ => none⟩

/-- The second insert turns into an update of the row that the first has committed, and the
artifact of the first keeps a reference that no row makes. -/
theorem hibernation_reference_lost : ∃ s : Sys Bool FleetRow FleetCall.Reply FleetError,
      (fleetService fun _ _ _ => True).Reaches (fun _ => none) s ∧ (∀ t, s.tx t = none) ∧
        referenceCount s.rows 1 = 1 ∧ references s.rows 1 = 0 := by
  have hend : hibernatedAtOnce.isSome = true := rfl
  have hrun := (some_get hend).symm
  have hunder := (run_reaches (fun _ _ _ _ => trivial) .init Sys.inside_empty hrun).2.rows
  refine ⟨hibernatedAtOnce.get hend, run_empty (fun _ _ _ _ => trivial) hrun, ?_, rfl, ?_⟩
  · intro t
    cases t <;> rfl
  · refine Finset.card_eq_zero.mpr (Finset.filter_eq_empty_iff.mpr fun slot _ htarget => ?_)
    cases hrow : (hibernatedAtOnce.get hend).rows slot.key with
    | none =>
      rw [hrow, target_none] at htarget
      cases htarget
    | some row =>
      -- of the rows there are, only the hibernation refers to an artifact, and to the second
      have hmem := hunder _ _ hrow
      obtain ⟨kind, id⟩ := slot
      cases kind <;> simp only [Slot.key, List.mem_cons, FleetKey.artifact.injEq,
        FleetKey.hibernation.injEq, reduceCtorEq, List.not_mem_nil, or_false, false_or] at hmem
      · obtain rfl | rfl := hmem <;> cases htarget
      · subst hmem
        exact absurd (Option.some.inj htarget) (by decide)

end Tarit.Fleet
