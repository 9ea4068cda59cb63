import Mathlib.Logic.Relation
import Tarit.Lib.Fallible
import Tarit.Lib.Table
import Tarit.Shares.Tokens

/-!
# Shares that several hosts change

A call on a share reads its row and then writes what it made of it, if the row still has the
version that was read and is not revoked. Every write raises the version by one, so two
records of a share with the same version grant the same; a token carries the version of the
share it was issued for, and is refused as soon as the row has another.

A step is one operation on the repository, or the signing of a token. Calls on any shares are
under way at once, each with the record it read, and any of them may be dropped.
-/
namespace Tarit.Shares

open Lib Fleet Node Store Function ShareTokenSigner
open List (any_eq_true forall_mem_cons length_replicate mem_map mem_of_find?_eq_some mem_singleton)

/-! ## Calls -/

inductive ApiRole where
  | Admin | User
  deriving DecidableEq

structure ApiIdentity where
  tenant : String
  role : ApiRole
  deriving DecidableEq

def ApiIdentity.isAdmin (identity : ApiIdentity) : Bool := identity.role = .Admin

structure CreateShareRequest where
  vm_id : Uuid
  guest_port : UInt16
  visibility : ShareVisibility

structure UpdateShareRequest where
  vm_id : Option Uuid
  guest_port : Option UInt16
  visibility : Option ShareVisibility

/-- `if bad { return Err(error); }` -/
def refuse (bad : Prop) [Decidable bad] (error : OrchError) : Except OrchError Unit :=
  if bad then throw error else pure ()

def CreateShareRequest.validate (request : CreateShareRequest) : Except OrchError Unit :=
  refuse (request.guest_port = 0) (.BadRequest "guest_port must be in 1..=65535")

def UpdateShareRequest.validate (request : UpdateShareRequest) : Except OrchError Unit :=
  refuse (request.guest_port = some 0) (.BadRequest "guest_port must be in 1..=65535")

def nextTokenVersion (version : UInt64) : Except OrchError UInt64 :=
  if version.toNat + 1 < 2 ^ 64 then pure (version + 1)
  else throw (.Internal "share token version overflow")

def applyUpdate (share : ShareRecord) (request : UpdateShareRequest) (now : Timestamp) :
    Except OrchError ShareRecord := do
  request.validate
  refuse share.revoked_at.isSome (.Conflict "share is revoked")
  let vm_id := request.vm_id.getD share.vm_id
  let guest_port := request.guest_port.getD share.guest_port
  let visibility := request.visibility.getD share.visibility
  let rotated :=
    vm_id != share.vm_id || guest_port != share.guest_port || visibility != share.visibility
  let token_version ← (bif rotated then nextTokenVersion share.token_version
    else pure share.token_version)
  pure { share with
    vm_id, guest_port, visibility, token_version
    updated_at := if rotated then now else share.updated_at }

def identityCanAccessVm (identity : ApiIdentity) (vm : VmRecord) : Prop :=
  identity.isAdmin ∨ vm.owner_key = some identity.tenant

instance (identity : ApiIdentity) (vm : VmRecord) : Decidable (identityCanAccessVm identity vm) :=
  inferInstanceAs (Decidable (_ ∨ _))

def ensureVmAccess (identity : ApiIdentity) (vm : VmRecord) : Except OrchError Unit :=
  refuse (¬ identityCanAccessVm identity vm) (.Forbidden "VM does not belong to this tenant")

def ensureShareVmAccess (identity : ApiIdentity) (vm : VmRecord) : Except OrchError Unit := do
  ensureVmAccess identity vm
  refuse (vm.status ≠ .Running) (.Conflict "VM must be running before it can be shared")

def shareVmOwner (vm : VmRecord) : Except OrchError String :=
  match vm.owner_key with
  | some owner_key => pure owner_key
  | none => throw (.BadRequest "VM must have a tenant owner before it can be shared")

/-- The record that `create_for_vm` inserts, with a fresh `id` and `slug` at each attempt. -/
def createForVm (identity : ApiIdentity) (vm : VmRecord) (request : CreateShareRequest) (id : Uuid)
    (slug : String) (now : Timestamp) : Except OrchError ShareRecord := do
  request.validate
  ensureShareVmAccess identity vm
  let owner_key ← shareVmOwner vm
  pure {
    id, slug, owner_key, vm_id := vm.id, guest_port := request.guest_port
    visibility := request.visibility, token_version := 0, revoked_at := none
    created_at := now, updated_at := now }

/-- `get_owned_share`, of the row that was read. -/
def getOwnedShare (identity : ApiIdentity) (row : Option ShareRecord) :
    Except OrchError ShareRecord :=
  match row with
  | none => throw (.NotFound "share not found")
  | some share =>
    if identity.isAdmin ∨ share.owner_key = identity.tenant then pure share
    else throw (.Forbidden "share does not belong to this tenant")

/-- What a call does after its read: a write of a record over the version that was read, or the
signing of a token. -/
inductive Pending where
  | updateIfCurrent (share : ShareRecord) (expected_token_version : UInt64)
  | issue (share : ShareRecord) (now : Timestamp)

/-- The checks of `update_for_share` on the VM that a share is moved to. -/
def checkReplacement (identity : ApiIdentity) (share : ShareRecord)
    (replacement_vm : Option VmRecord) (vm_id : Uuid) : Except OrchError Unit :=
  match replacement_vm with
  | none => throw (.BadRequest "replacement VM must be resolved before update")
  | some vm => do
    refuse (vm.id ≠ vm_id) (.BadRequest "replacement VM does not match update request")
    ensureShareVmAccess identity vm
    refuse (vm.owner_key ≠ some share.owner_key)
      (.Forbidden "replacement VM does not belong to the share owner")

/-- `update_for_share` up to its write. -/
def updateForShare (identity : ApiIdentity) (replacement_vm : Option VmRecord)
    (request : UpdateShareRequest) (now : Timestamp) (row : Option ShareRecord) :
    Except OrchError (Option Pending) := do
  let share ← getOwnedShare identity row
  (match request.vm_id with
    | none => pure ()
    | some vm_id => checkReplacement identity share replacement_vm vm_id)
  let updated ← applyUpdate share request now
  if updated.token_version ≠ share.token_version then
    pure (some (.updateIfCurrent updated share.token_version))
  else pure none

/-- `revoke_for_share` up to its write. -/
def revokeForShare (identity : ApiIdentity) (now : Timestamp) (row : Option ShareRecord) :
    Except OrchError (Option Pending) := do
  let share ← getOwnedShare identity row
  if share.revoked_at.isSome then pure none
  else
    let token_version ← nextTokenVersion share.token_version
    pure (some (.updateIfCurrent
      { share with token_version, revoked_at := some now, updated_at := now } share.token_version))

/-- `issue_token` up to the signing. -/
def issueToken (identity : ApiIdentity) (now : Timestamp) (row : Option ShareRecord) :
    Except OrchError (Option Pending) := do
  let share ← getOwnedShare identity row
  pure (some (.issue share now))

/-- The seconds that a `DateTime` holds. -/
def MIN_UTC : Int := -8334601228800
def MAX_UTC : Int := 8210266876799

def tokenExpiryAt (now : Timestamp) (ttl_secs : UInt64) : Except OrchError Timestamp := do
  let ttl ← ShareTokenSigner.ttlSeconds { key := .replicate 32 0, ttl := ttl_secs }
  match checkedAddI64 (timestamp now) ttl with
  | none => throw (.Internal "share token expiry overflow")
  | some exp =>
    if MIN_UTC ≤ exp ∧ exp ≤ MAX_UTC then pure exp
    else throw (.Internal "share token expiry is invalid")

inductive Call where
  | update (identity : ApiIdentity) (replacement_vm : Option VmRecord)
      (request : UpdateShareRequest)
  | revoke (identity : ApiIdentity)
  | issue (identity : ApiIdentity)

def Call.afterRead (now : Timestamp) (row : Option ShareRecord) :
    Call → Except OrchError (Option Pending)
  | .update identity replacement_vm request =>
    updateForShare identity replacement_vm request now row
  | .revoke identity => revokeForShare identity now row
  | .issue identity => issueToken identity now row

/-! ## The repository -/

abbrev Shares := Table ShareRecord.id

def insertShare (share : ShareRecord) (shares : Shares) : Except StoreError Shares :=
  if shares.rows.any fun row => row.id = share.id ∨ row.slug = share.slug then
    .error (.Conflict "share slug already exists")
  else .ok (shares.insert share)

def isCurrent (share : ShareRecord) (expected_token_version : UInt64) (row : ShareRecord) : Bool :=
  row.id = share.id ∧ row.token_version = expected_token_version ∧ row.revoked_at = none

def ShareRecord.set (row share : ShareRecord) : ShareRecord :=
  { row with
    slug := share.slug, vm_id := share.vm_id, guest_port := share.guest_port
    visibility := share.visibility, token_version := share.token_version
    revoked_at := share.revoked_at, updated_at := share.updated_at }

theorem ShareRecord.id_set (row share : ShareRecord) : (row.set share).id = row.id := rfl

def updateShareIfCurrent (share : ShareRecord) (expected_token_version : UInt64) (shares : Shares) :
    Except StoreError Shares :=
  if 2 ^ 63 ≤ share.token_version.toNat ∨ 2 ^ 63 ≤ expected_token_version.toNat then .error .Sqlite
  else if shares.rows.any (isCurrent share expected_token_version) then
    .ok (shares.update (isCurrent share expected_token_version) (·.set share) (·.id_set share))
  else .error (.Conflict "share was modified or revoked concurrently")

def getShareBySlug (slug : String) (shares : Shares) : Option ShareRecord :=
  shares.rows.find? fun row => row.slug = slug

def getVisible (slug : String) (shares : Shares) : Except OrchError ShareRecord :=
  match getShareBySlug slug shares with
  | none => .error (.NotFound "share not found")
  | some share =>
    if share.revoked_at.isSome then .error (.NotFound "share not found") else .ok share

section Gateway
variable (L : TokenLibraries) (signer : Option ShareTokenSigner)

def authorizeShare (share : ShareRecord) (token : Option String) (now : Timestamp) :
    Except OrchError ShareRecord :=
  if share.visibility = .Public then .ok share
  else
    match token, signer with
    | none, _ => .error .Unauthorized
    | some _, none => .error (.Internal "share token signer is unavailable")
    | some token, some signer => do
      signer.verify L token share now
      pure share

def authorizeGateway (slug : String) (token : Option String) (now : Timestamp) (shares : Shares) :
    Except OrchError ShareRecord := do
  let share ← getVisible slug shares
  match share.visibility, signer with
  | .Public, _ => authorizeShare L none share token now
  | .Private, none => .error (.Internal "share token signer is unavailable")
  | .Private, some signer => authorizeShare L (some signer) share token now

end Gateway

/-! ## Runs -/

/-- A token that was handed out: the share that was read for it, the time, and the claims. -/
structure Issued where
  share : ShareRecord
  now : Timestamp
  claims : ShareTokenClaims

structure State (T : Type) where
  shares : Shares
  calls : T → Option Pending
  issued : List Issued

def State.start (T : Type) : State T := { shares := ∅, calls := fun _ => none, issued := [] }

section Runs
variable {T : Type} [DecidableEq T] (signer : ShareTokenSigner)

/-- A call is its read and, later, its conditional write. -/
inductive Step (s : State T) : State T → Prop where
  | create {identity : ApiIdentity} {vm : VmRecord} {request : CreateShareRequest} {id : Uuid}
      {slug : String} {now : Timestamp} {share : ShareRecord} {shares : Shares}
      (made : createForVm identity vm request id slug now = .ok share)
      (inserted : insertShare share s.shares = .ok shares) : Step s { s with shares }
  | read {t : T} {id : Uuid} {now : Timestamp} {call : Call} {pending : Pending}
      (idle : s.calls t = none)
      (goes : call.afterRead now (s.shares.find? id) = .ok (some pending)) :
      Step s { s with calls := update s.calls t (some pending) }
  | write {t : T} {share : ShareRecord} {expected : UInt64} {shares : Shares}
      (pending : s.calls t = some (.updateIfCurrent share expected))
      (current : updateShareIfCurrent share expected s.shares = .ok shares) :
      Step s { s with shares, calls := update s.calls t none }
  | sign {t : T} {share : ShareRecord} {now expires_at : Timestamp} {claims : ShareTokenClaims}
      (pending : s.calls t = some (.issue share now)) (signs : signer.claims share now = .ok claims)
      (expires : tokenExpiryAt now signer.ttl = .ok expires_at) :
      Step s { s with
        issued := ⟨share, now, claims⟩ :: s.issued, calls := update s.calls t none }
  /-- The call fails, loses its compare-and-swap, or its host goes away. -/
  | drop {t : T} : Step s { s with calls := update s.calls t none }

abbrev Later : State T → State T → Prop := Relation.ReflTransGen (Step signer)

abbrev Reaches (s : State T) : Prop := Later signer (State.start T) s

/-- Every text in `token` that the key signed is that of a token that was handed out. -/
def Unforged (L : TokenLibraries) (s : State T) (token : String) : Prop :=
  ∀ payload, token.toList.splitOn '.' = [payload, L.encode (signer.sign L payload)] →
    ∃ i ∈ s.issued, payload = ShareTokenSigner.payload L i.claims

end Runs

/-! ## What a row can become -/

def SameGrant (share row : ShareRecord) : Prop :=
  share.vm_id = row.vm_id ∧ share.guest_port = row.guest_port ∧ share.visibility = row.visibility

/-- `share` is a record of the share of `row`, of now or earlier. -/
structure Sees (share row : ShareRecord) : Prop where
  slug : share.slug = row.slug
  owner : share.owner_key = row.owner_key
  le : share.token_version ≤ row.token_version
  same : share.token_version = row.token_version →
    SameGrant share row ∧ share.revoked_at = row.revoked_at
  revoked : share.revoked_at.isSome → row = share

theorem Sees.refl (row : ShareRecord) : Sees row row :=
  ⟨rfl, rfl, UInt64.le_refl _, fun _ => ⟨⟨rfl, rfl, rfl⟩, rfl⟩, fun _ => rfl⟩

variable {share row : ShareRecord} {shares shares' : Shares} {pending : Pending} {now : Timestamp}
  {expected : UInt64}

theorem Sees.trans {row' : ShareRecord} (h : Sees share row) (h' : Sees row row') :
    Sees share row' where
  slug := h.slug.trans h'.slug
  owner := h.owner.trans h'.owner
  le := UInt64.le_trans h.le h'.le
  same heq := by
    have hrow : share.token_version = row.token_version := UInt64.le_antisymm h.le (heq ▸ h'.le)
    obtain ⟨⟨hvm, hport, hvisibility⟩, hrevoked⟩ := h.same hrow
    obtain ⟨⟨hvm', hport', hvisibility'⟩, hrevoked'⟩ := h'.same (hrow.symm.trans heq)
    exact ⟨⟨hvm.trans hvm', hport.trans hport', hvisibility.trans hvisibility'⟩,
      hrevoked.trans hrevoked'⟩
  revoked hrevoked := by
    have hrow := h.revoked hrevoked
    rw [← hrow] at hrevoked
    exact (h'.revoked hrevoked).trans hrow

/-- The row of `share` is there, and is that record or a later one. -/
def Known (shares : Shares) (share : ShareRecord) : Prop :=
  ∃ row, shares.find? share.id = some row ∧ Sees share row

/-- Rows stay, and become later records of their shares. -/
def Evolves (shares shares' : Shares) : Prop :=
  ∀ id row, shares.find? id = some row → ∃ row', shares'.find? id = some row' ∧ Sees row row'

theorem Evolves.refl (shares : Shares) : Evolves shares shares :=
  fun _ row hrow => ⟨row, hrow, .refl row⟩

theorem Evolves.trans {shares'' : Shares} (h : Evolves shares shares')
    (h' : Evolves shares' shares'') : Evolves shares shares'' := by
  intro id row hrow
  obtain ⟨row', hrow', hsees⟩ := h id row hrow
  obtain ⟨row'', hrow'', hsees'⟩ := h' id row' hrow'
  exact ⟨row'', hrow'', hsees.trans hsees'⟩

theorem Known.evolves (h : Known shares share) (hevolves : Evolves shares shares') :
    Known shares' share := by
  obtain ⟨row, hrow, hsees⟩ := h
  obtain ⟨row', hrow', hsees'⟩ := hevolves _ _ hrow
  exact ⟨row', hrow', hsees.trans hsees'⟩

/-- The write of a call comes from a record that it read, whose version it raises. -/
def Rotates (shares : Shares) (share : ShareRecord) (expected : UInt64) : Prop :=
  ∃ read, Known shares read ∧ share.id = read.id ∧ share.slug = read.slug ∧
    expected = read.token_version ∧ share.token_version.toNat = expected.toNat + 1

def Pending.Fits (shares : Shares) : Pending → Prop
  | .updateIfCurrent share expected => Rotates shares share expected
  | .issue share _ => Known shares share

theorem Pending.Fits.evolves (h : pending.Fits shares) (hevolves : Evolves shares shares') :
    pending.Fits shares' := by
  cases pending with
  | updateIfCurrent share expected =>
    obtain ⟨read, hread, hrest⟩ := h
    exact ⟨read, hread.evolves hevolves, hrest⟩
  | issue share now => exact .evolves h hevolves

theorem nextTokenVersion_ok {version next : UInt64} (h : nextTokenVersion version = .ok next) :
    next.toNat = version.toNat + 1 := by
  obtain ⟨hlt, ⟨⟩⟩ := ite_eq_ok.mp h
  rw [UInt64.toNat_add]
  exact Nat.mod_eq_of_lt hlt

theorem getOwnedShare_ok {identity : ApiIdentity} {row : Option ShareRecord}
    (h : getOwnedShare identity row = .ok share) : row = some share := by
  unfold getOwnedShare at h
  split at h
  · cases h
  · obtain ⟨-, ⟨⟩⟩ := ite_eq_ok.mp h
    rfl

theorem applyUpdate_ok {updated : ShareRecord} {request : UpdateShareRequest}
    (h : applyUpdate share request now = .ok updated) :
    updated.id = share.id ∧ updated.slug = share.slug ∧
      (updated.token_version ≠ share.token_version →
        updated.token_version.toNat = share.token_version.toNat + 1) := by
  simp only [applyUpdate, bind_eq_ok] at h
  obtain ⟨_, _, _, _, token_version, hversion, hupdated⟩ := h
  cases hupdated
  refine ⟨rfl, rfl, fun hne => ?_⟩
  rw [Bool.cond_eq_ite] at hversion
  split at hversion
  · exact nextTokenVersion_ok hversion
  · cases hversion
    exact absurd rfl hne

theorem updateForShare_ok {identity : ApiIdentity} {replacement_vm : Option VmRecord}
    {request : UpdateShareRequest} {row : Option ShareRecord}
    (h : updateForShare identity replacement_vm request now row = .ok (some pending)) :
    ∃ share updated, row = some share ∧ applyUpdate share request now = .ok updated ∧
      updated.token_version ≠ share.token_version ∧
      pending = .updateIfCurrent updated share.token_version := by
  simp only [updateForShare, bind_eq_ok] at h
  obtain ⟨share, hread, _, _, updated, hupdated, hpending⟩ := h
  split at hpending
  · next hne =>
    cases hpending
    exact ⟨share, updated, getOwnedShare_ok hread, hupdated, hne, rfl⟩
  · cases hpending

theorem Call.afterRead_fits {call : Call} {id : Uuid}
    (h : call.afterRead now (shares.find? id) = .ok (some pending)) : pending.Fits shares := by
  have hknown (share : ShareRecord) (hrow : shares.find? id = some share) : Known shares share := by
    have hid := (shares.find?_eq_some_iff.mp hrow).2
    exact ⟨share, hid.symm ▸ hrow, .refl share⟩
  cases call with
  | update identity replacement_vm request =>
    obtain ⟨share, updated, hrow, hupdated, hne, rfl⟩ := updateForShare_ok h
    obtain ⟨hid, hslug, hversion⟩ := applyUpdate_ok hupdated
    exact ⟨share, hknown share hrow, hid, hslug, rfl, hversion hne⟩
  | revoke identity =>
    simp only [Call.afterRead, revokeForShare, bind_eq_ok] at h
    obtain ⟨share, hread, hpending⟩ := h
    split at hpending
    · cases hpending
    obtain ⟨version, hversion, hpending⟩ := bind_eq_ok.mp hpending
    cases hpending
    exact ⟨share, hknown share (getOwnedShare_ok hread), rfl, rfl, rfl,
      nextTokenVersion_ok hversion⟩
  | issue identity =>
    simp only [Call.afterRead, issueToken, bind_eq_ok] at h
    obtain ⟨share, hread, hpending⟩ := h
    cases hpending
    exact hknown share (getOwnedShare_ok hread)

theorem insertShare_ok (h : insertShare share shares = .ok shares') :
    shares.find? share.id = none ∧ (∀ row ∈ shares.rows, row.slug ≠ share.slug) ∧
      shares' = shares.insert share := by
  obtain ⟨hfree, ⟨⟩⟩ := ite_error_eq_ok.mp h
  simp only [decide_eq_true_eq, any_eq_true, not_exists, not_and, not_or] at hfree
  refine ⟨?_, fun row hrow => (hfree row hrow).2, rfl⟩
  rw [Table.find?_eq_none_iff, mem_map]
  rintro ⟨row, hrow, hid⟩
  exact (hfree row hrow).1 hid

theorem updateShareIfCurrent_ok (h : updateShareIfCurrent share expected shares = .ok shares') :
    shares' = shares.update (isCurrent share expected) (·.set share) (·.id_set share) := by
  obtain ⟨-, h⟩ := ite_error_eq_ok.mp h
  obtain ⟨-, ⟨⟩⟩ := ite_eq_ok.mp h
  rfl

theorem isCurrent_iff :
    isCurrent share expected row = true ↔
      row.id = share.id ∧ row.token_version = expected ∧ row.revoked_at = none := by
  simp [isCurrent]

theorem sees_set (hrotates : Rotates shares share expected)
    (hrow : shares.find? row.id = some row) (hcurrent : isCurrent share expected row = true) :
    Sees row (row.set share) := by
  obtain ⟨hid, hversion, hrevoked⟩ := isCurrent_iff.mp hcurrent
  obtain ⟨read, ⟨row', hrow', hsees⟩, hread, hslug, -, hnext⟩ := hrotates
  rw [← hread, ← hid, hrow] at hrow'
  cases hrow'
  rw [← hversion] at hnext
  refine ⟨(hslug.trans hsees.slug).symm, rfl, ?_, fun heq => ?_, fun hsome => ?_⟩
  · show row.token_version.toNat ≤ share.token_version.toNat
    omega
  · replace heq : row.token_version = share.token_version := heq
    rw [heq] at hnext
    omega
  · rw [hrevoked] at hsome
    cases hsome

theorem Rotates.evolves_update (hrotates : Rotates shares share expected)
    (h : updateShareIfCurrent share expected shares = .ok shares') : Evolves shares shares' := by
  rw [updateShareIfCurrent_ok h]
  intro id row hrow
  rw [Table.find?_update, hrow, Option.map_some]
  refine ⟨_, rfl, ?_⟩
  split
  · next hcurrent =>
    have hid := (shares.find?_eq_some_iff.mp hrow).2
    exact sees_set hrotates (hid.symm ▸ hrow) hcurrent
  · exact .refl row

theorem Rotates.slug_update (hrotates : Rotates shares share expected) (hrow : row ∈ shares.rows) :
    (if isCurrent share expected row then row.set share else row).slug = row.slug := by
  split
  · next hcurrent =>
    exact (sees_set hrotates (shares.find?_eq_some_iff.mpr ⟨hrow, rfl⟩) hcurrent).slug.symm
  · rfl

/-! ## Runs -/

section Invariant
variable {T : Type} [DecidableEq T] {signer : ShareTokenSigner} {s s' : State T}

structure Invariant (signer : ShareTokenSigner) (s : State T) : Prop where
  slugs : ∀ row ∈ s.shares.rows, ∀ row' ∈ s.shares.rows, row.slug = row'.slug → row = row'
  calls : ∀ t pending, s.calls t = some pending → pending.Fits s.shares
  issued : ∀ i ∈ s.issued, Known s.shares i.share ∧ signer.claims i.share i.now = .ok i.claims

/-- A step leaves every row in place, as a later record of its share. -/
theorem Step.evolves (hs : Invariant signer s) (h : Step signer s s') :
    Evolves s.shares s'.shares := by
  cases h with
  | create made inserted =>
    obtain ⟨hfree, -, rfl⟩ := insertShare_ok inserted
    intro id row hrow
    refine ⟨row, ?_, .refl row⟩
    rw [Table.find?_insert _ hfree]
    split
    · next hid =>
      rw [hid, hfree] at hrow
      cases hrow
    · exact hrow
  | write pending current => exact Rotates.evolves_update (hs.calls _ _ pending) current
  | read | sign | drop => exact .refl _

/-- A call that is set aside or has just read keeps the calls fitting. -/
theorem Invariant.calls_update (hs : Invariant signer s) (hevolves : Evolves s.shares shares)
    {t : T} {next : Option Pending} (hnext : ∀ pending, next = some pending → pending.Fits shares)
    (t' : T) (pending : Pending) (h : update s.calls t next t' = some pending) :
    pending.Fits shares := by
  by_cases ht : t' = t
  · subst ht
    rw [update_self] at h
    exact hnext pending h
  · rw [update_of_ne ht] at h
    exact (hs.calls t' pending h).evolves hevolves

/-- The step lemma, by the call or delivery made. -/
theorem Step.invariant (hs : Invariant signer s) (h : Step signer s s') : Invariant signer s' := by
  have hevolves := h.evolves hs
  have hissued : ∀ i ∈ s.issued, Known s'.shares i.share ∧
      signer.claims i.share i.now = .ok i.claims :=
    fun i hi => ⟨(hs.issued i hi).1.evolves hevolves, (hs.issued i hi).2⟩
  cases h with
  | create made inserted =>
    obtain ⟨hfree, hslug, rfl⟩ := insertShare_ok inserted
    refine ⟨fun row hrow row' hrow' heq => ?_, fun t pending h =>
      (hs.calls t pending h).evolves hevolves, hissued⟩
    rw [Table.mem_insert hfree] at hrow hrow'
    rcases hrow with hrow | rfl <;> rcases hrow' with hrow' | rfl
    · exact hs.slugs row hrow row' hrow' heq
    · exact absurd heq (hslug row hrow)
    · exact absurd heq.symm (hslug row' hrow')
    · rfl
  | read idle goes =>
    refine ⟨hs.slugs, hs.calls_update hevolves fun pending h => ?_, hissued⟩
    cases h
    exact Call.afterRead_fits goes
  | @write t share expected shares pending current =>
    refine ⟨fun row hrow row' hrow' heq => ?_,
      hs.calls_update hevolves (fun _ h => by cases h), hissued⟩
    have hrotates : Rotates s.shares share expected := hs.calls t _ pending
    rw [updateShareIfCurrent_ok current] at hrow hrow'
    obtain ⟨old, hold, rfl⟩ := mem_map.mp hrow
    obtain ⟨old', hold', rfl⟩ := mem_map.mp hrow'
    rw [hrotates.slug_update hold, hrotates.slug_update hold'] at heq
    rw [hs.slugs old hold old' hold' heq]
  | sign pending signs expires =>
    exact ⟨hs.slugs, hs.calls_update hevolves (fun _ h => by cases h),
      forall_mem_cons.mpr ⟨⟨hs.calls _ _ pending, signs⟩, hissued⟩⟩
  | drop => exact ⟨hs.slugs, hs.calls_update hevolves (fun _ h => by cases h), hissued⟩

omit [DecidableEq T] in
theorem Invariant.start : Invariant signer (State.start T) where
  slugs _ hrow := nomatch hrow
  calls _ _ h := nomatch h
  issued _ hi := nomatch hi

theorem Later.invariant (hs : Invariant signer s) (h : Later signer s s') :
    Invariant signer s' := by
  induction h with
  | refl => exact hs
  | tail _ hstep ih => exact hstep.invariant ih

theorem Later.evolves (hs : Invariant signer s) (h : Later signer s s') :
    Evolves s.shares s'.shares := by
  induction h with
  | refl => exact .refl _
  | tail hrun hstep ih => exact ih.trans (hstep.evolves (Later.invariant hs hrun))

theorem Later.sees (hs : Invariant signer s) (h : Later signer s s') {row' : ShareRecord}
    (hrow : row ∈ s.shares.rows) (hrow' : row' ∈ s'.shares.rows) (hid : row'.id = row.id) :
    Sees row row' := by
  obtain ⟨found, hfound, hsees⟩ :=
    Later.evolves hs h row.id row (s.shares.find?_eq_some_iff.mpr ⟨hrow, rfl⟩)
  rw [s'.shares.find?_eq_some_iff.mpr ⟨hrow', hid⟩] at hfound
  cases hfound
  exact hsees

theorem Reaches.invariant (h : Reaches signer s) : Invariant signer s :=
  Later.invariant .start h

end Invariant

/-! ## Tokens -/

theorem claims_ok {signer : ShareTokenSigner} {claims : ShareTokenClaims}
    (h : signer.claims share now = .ok claims) :
    share.visibility = .Private ∧ share.revoked_at = none ∧
      ∃ ttl exp, signer.ttlSeconds = .ok ttl ∧ checkedAddI64 (timestamp now) ttl = some exp ∧
        claims = {
          share_id := share.id, owner_key := share.owner_key, token_version := share.token_version
          aud := SHARE_TOKEN_AUDIENCE, iat := timestamp now, exp } := by
  obtain ⟨hactive, h⟩ := ite_error_eq_ok.mp h
  rw [not_or, not_not, Bool.not_eq_true, Option.isSome_eq_false_iff,
    Option.isNone_iff_eq_none] at hactive
  obtain ⟨ttl, httl, h⟩ := bind_eq_ok.mp h
  split at h
  · cases h
  rename_i exp hexp
  cases h
  exact ⟨hactive.1, hactive.2, ttl, exp, httl, hexp, rfl⟩

def Issued.Good (i : Issued) (row : ShareRecord) (now : Timestamp) : Prop :=
  i.share.id = row.id ∧ i.share.token_version = row.token_version ∧ SameGrant i.share row ∧
    timestamp i.now ≤ timestamp now ∧ timestamp now < i.claims.exp

section Tokens
variable {T : Type} {L : TokenLibraries}
  {signer : ShareTokenSigner} {s : State T} {row : ShareRecord} {token : String} {now : Timestamp}
  {i : Issued}

section Row

variable (hs : Invariant signer s) (hrow : row ∈ s.shares.rows)

include hs hrow

theorem Invariant.sees (hi : i ∈ s.issued) (hid : i.share.id = row.id) : Sees i.share row := by
  obtain ⟨row', hrow', hsees⟩ := (hs.issued i hi).1
  rw [hid, s.shares.find?_eq_some_iff.mpr ⟨hrow, rfl⟩] at hrow'
  cases hrow'
  exact hsees

theorem Invariant.accepts_iff_good (hi : i ∈ s.issued) :
    signer.accepts row (timestamp now) i.claims = true ↔ i.Good row now := by
  obtain ⟨-, -, ttl, exp, httl, hexp, hclaims⟩ := claims_ok (hs.issued i hi).2
  rw [accepts_iff, Issued.Good, hclaims]
  constructor
  · rintro ⟨_, -, -, -, hid, -, hversion, hiat, hnow⟩
    exact ⟨hid, hversion, ((hs.sees hrow hi hid).same hversion).1, hiat, hnow⟩
  · rintro ⟨hid, hversion, -, hiat, hnow⟩
    exact ⟨ttl, httl, hexp, rfl, hid, (hs.sees hrow hi hid).owner, hversion, hiat, hnow⟩

theorem Invariant.verify_iff (hunforged : Unforged signer L s token) :
    signer.verify L token row now = .ok () ↔
      token.utf8ByteSize ≤ MAX_SHARE_TOKEN_LEN ∧
        ∃ i ∈ s.issued, token = signer.token L i.claims ∧ i.Good row now := by
  constructor
  · intro h
    obtain ⟨payload, claims, hsplit, hclaims, -, -, hlength, haccepts⟩ := verify_ok h
    obtain ⟨i, hi, hpayload⟩ := hunforged payload hsplit
    rw [hpayload] at hsplit hclaims
    rw [decode_payload] at hclaims
    cases Option.some.inj hclaims
    exact ⟨hlength, i, hi, eq_token hsplit, (hs.accepts_iff_good hrow hi).mp haccepts⟩
  · intro ⟨hlength, i, hi, htoken, hgood⟩
    rw [htoken] at hlength ⊢
    obtain ⟨hprivate, hactive, -⟩ := claims_ok (hs.issued i hi).2
    obtain ⟨⟨-, -, hvisibility⟩, hrevoked⟩ := (hs.sees hrow hi hgood.1).same hgood.2.1
    exact verify_token hlength (hvisibility.symm.trans hprivate)
      (hrevoked.symm.trans hactive) ((hs.accepts_iff_good hrow hi).mpr hgood)

omit hrow in
/-- A token is refused by every row of its share with another version. -/
theorem Invariant.verify_error (hi : i ∈ s.issued)
    (hversion : i.share.token_version ≠ row.token_version) :
    signer.verify L (signer.token L i.claims) row now ≠ .ok () := by
  intro h
  obtain ⟨payload, claims, hsplit, hclaims, -, -, -, haccepts⟩ := verify_ok h
  rw [splitOn_token] at hsplit
  rw [← (List.cons.inj hsplit).1, decode_payload] at hclaims
  cases Option.some.inj hclaims
  obtain ⟨-, -, -, exp, -, -, hclaims⟩ := claims_ok (hs.issued i hi).2
  obtain ⟨-, -, -, -, -, -, heq, -⟩ := accepts_iff.mp haccepts
  rw [hclaims] at heq
  exact hversion heq

theorem Invariant.getShareBySlug_eq : getShareBySlug row.slug s.shares = some row := by
  cases h : getShareBySlug row.slug s.shares with
  | none => exact absurd (decide_eq_true rfl) (List.find?_eq_none.mp h row hrow)
  | some row' =>
    have hslug := List.find?_some h
    rw [hs.slugs row' (mem_of_find?_eq_some h) row hrow (of_decide_eq_true hslug)]

theorem Invariant.authorizeGateway_eq (hactive : row.revoked_at = none) (token : Option String) :
    authorizeGateway L (some signer) row.slug token now s.shares =
      authorizeShare L (some signer) row token now := by
  rw [authorizeGateway, getVisible, hs.getShareBySlug_eq hrow]
  dsimp only
  rw [hactive]
  cases hvisibility : row.visibility with
  | Public => simp [hvisibility, authorizeShare]
  | Private => simp [hvisibility]

theorem Invariant.authorizeGateway_revoked (hrevoked : row.revoked_at.isSome)
    (token : Option String) :
    authorizeGateway L (some signer) row.slug token now s.shares =
      .error (.NotFound "share not found") := by
  rw [authorizeGateway, getVisible, hs.getShareBySlug_eq hrow]
  dsimp only
  rw [if_pos hrevoked]
  rfl

end Row

theorem authorizeShare_eq_ok_iff :
    authorizeShare L (some signer) row (some token) now = .ok row ↔
      row.visibility = .Public ∨ signer.verify L token row now = .ok () := by
  unfold authorizeShare
  split
  · next hpublic => exact ⟨fun _ => .inl hpublic, fun _ => rfl⟩
  rename_i hpublic
  rw [bind_eq_ok]
  constructor
  · rintro ⟨_, h, _⟩
    exact .inr h
  · rintro (h | h)
    · exact absurd h hpublic
    · exact ⟨(), h, rfl⟩

/-- Which tokens open a share, in every state that is reached. A token of a share that has since
been changed or revoked opens it never again, and a revoked share stays closed. -/
theorem token_opens_iff_issued_for_grant [DecidableEq T] (hs : Reaches signer s) :
    (∀ row ∈ s.shares.rows, ∀ token now, Unforged signer L s token →
      (authorizeGateway L (some signer) row.slug (some token) now s.shares = .ok row ↔
        row.revoked_at = none ∧ (row.visibility = .Public ∨
          token.utf8ByteSize ≤ MAX_SHARE_TOKEN_LEN ∧
            ∃ i ∈ s.issued, token = signer.token L i.claims ∧ i.Good row now))) ∧
    (∀ s' s'' : State T, Later signer s s' → Later signer s' s'' →
      ∀ row ∈ s.shares.rows, ∀ row' ∈ s'.shares.rows, ∀ row'' ∈ s''.shares.rows,
        row'.id = row.id → row''.id = row.id →
        ¬ SameGrant row row' ∨ row'.revoked_at.isSome → ∀ i ∈ s.issued, i.share.id = row.id →
        ∀ now, signer.verify L (signer.token L i.claims) row'' now ≠ .ok ()) ∧
    (∀ s' : State T, Later signer s s' → ∀ row ∈ s.shares.rows, row.revoked_at.isSome →
      ∀ token now, authorizeGateway L (some signer) row.slug token now s'.shares =
        .error (.NotFound "share not found")) := by
  have hinv := Reaches.invariant hs
  refine ⟨fun row hrow token now hunforged => ?_, ?_, ?_⟩
  · cases hrevoked : row.revoked_at with
    | some at_ =>
      rw [hinv.authorizeGateway_revoked hrow (hrevoked ▸ rfl)]
      constructor
      · intro h
        cases h
      · intro h
        cases h.1
    | none =>
      rw [hinv.authorizeGateway_eq hrow hrevoked, authorizeShare_eq_ok_iff,
        hinv.verify_iff hrow hunforged]
      exact (and_iff_right rfl).symm
  · intro s' s'' hlater hlater' row hrow row' hrow' row'' hrow'' hid' hid'' hchange i hi hid now
    have hinv' := Later.invariant hinv hlater
    have hsees := Later.sees hinv hlater hrow hrow' hid'
    have hsees' := Later.sees hinv' hlater' hrow' hrow'' (hid''.trans hid'.symm)
    rcases hchange with hgrant | hrevoked
    · refine hinv.verify_error hi fun heq => hgrant (hsees.same ?_).1
      -- The versions of the three rows lie between that of the token and itself.
      have hle := (hinv.sees hrow hi hid).le
      have hge := hsees'.le
      rw [heq] at hle
      exact UInt64.le_antisymm hsees.le (UInt64.le_trans hge hle)
    · rw [hsees'.revoked hrevoked]
      intro h
      obtain ⟨-, -, -, -, -, hactive, -⟩ := verify_ok h
      rw [hactive] at hrevoked
      cases hrevoked
  · intro s' hlater row hrow hrevoked token now
    obtain ⟨row', hrow', hsees⟩ :=
      Later.evolves hinv hlater row.id row (s.shares.find?_eq_some_iff.mpr ⟨hrow, rfl⟩)
    rw [hsees.revoked hrevoked] at hrow'
    exact (Later.invariant hinv hlater).authorizeGateway_revoked
      (s'.shares.find?_eq_some_iff.mp hrow').1 hrevoked token

end Tokens

/-! ## A run -/

def sharedVm (tenant : String) : VmRecord :=
  { bootedVm "host" .Running 1 with owner_key := some tenant }

def privateShare (tenant : String) : ShareRecord where
  id := 7
  slug := "slug"
  owner_key := tenant
  vm_id := (sharedVm tenant).id
  guest_port := 80
  visibility := .Private
  token_version := 0
  revoked_at := none
  created_at := 0
  updated_at := 0

def hourly : ShareTokenSigner := { key := .replicate 32 0, ttl := 3600 }

/-- The token that `hourly` hands out at time 0 for the private share of `tenant`. -/
def firstToken (tenant : String) : Issued where
  share := privateShare tenant
  now := 0
  claims := {
    share_id := 7, owner_key := tenant, token_version := 0, aud := SHARE_TOKEN_AUDIENCE
    iat := 0, exp := 3600 }

def issuedOnce (tenant : String) : State Unit where
  shares := (∅ : Shares).insert (privateShare tenant)
  calls := fun _ => none
  issued := [firstToken tenant]

theorem reaches_issuedOnce (tenant : String) : Reaches hourly (issuedOnce tenant) := by
  let shared : State Unit :=
    { shares := (∅ : Shares).insert (privateShare tenant), calls := fun _ => none, issued := [] }
  let admin : ApiIdentity := ⟨"admin", .Admin⟩
  have hmade : createForVm admin (sharedVm tenant) ⟨(sharedVm tenant).id, 80, .Private⟩ 7 "slug" 0 =
      .ok (privateShare tenant) := rfl
  have hread : (Call.issue admin).afterRead 0 (shared.shares.find? 7) =
      .ok (some (.issue (privateShare tenant) 0)) := rfl
  have hsigns : hourly.claims (privateShare tenant) 0 = .ok (firstToken tenant).claims := rfl
  have hexpires : tokenExpiryAt 0 hourly.ttl = .ok 3600 := by decide
  let reading : State Unit :=
    { shared with calls := update shared.calls () (some (.issue (privateShare tenant) 0)) }
  have hcreate : Step hourly (.start Unit) shared := .create hmade rfl
  have hissue : Step hourly shared reading := .read rfl hread
  have hsign : Step hourly reading _ := .sign (t := ()) rfl hsigns hexpires
  have hidle : update reading.calls () none = fun _ => none := funext fun _ => rfl
  exact .tail (.tail (.single hcreate) hissue) hsign

/-- A token of a tenant with a name of 3072 letters is too long to be accepted, although the share
is as it was when the token was issued. -/
theorem long_token_refused :
    ∃ (tenant : String) (i : Issued), ∃ row ∈ (issuedOnce tenant).shares.rows,
      Reaches hourly (issuedOnce tenant) ∧ i ∈ (issuedOnce tenant).issued ∧ i.Good row 0 ∧
      row.revoked_at = none ∧ ∀ L,
        authorizeGateway L (some hourly) row.slug (some (hourly.token L i.claims)) 0
          (issuedOnce tenant).shares = .error .Unauthorized := by
  refine ⟨String.ofList (List.replicate 3072 'a'), _, _, mem_singleton.mpr rfl,
    reaches_issuedOnce _, mem_singleton.mpr rfl, ⟨rfl, rfl, ⟨rfl, rfl, rfl⟩, ?_, ?_⟩, rfl, ?_⟩
  · decide
  · decide
  · intro L
    rw [(Reaches.invariant (reaches_issuedOnce _)).authorizeGateway_eq (mem_singleton.mpr rfl) rfl,
      authorizeShare, if_neg (by decide), verify_token_of_long_owner]
    · rfl
    show 3070 < (String.ofList (List.replicate 3072 'a')).toList.length
    rw [String.toList_ofList, length_replicate]
    decide

/-- The share is revoked after the token was handed out. -/
theorem revoked_later (tenant : String) : ∃ s' : State Unit, Later hourly (issuedOnce tenant) s' ∧
    s'.shares.rows = [{ privateShare tenant with token_version := 1, revoked_at := some 0 }] := by
  have hread : (Call.revoke ⟨"admin", .Admin⟩).afterRead 0 ((issuedOnce tenant).shares.find? 7) =
      .ok (some (.updateIfCurrent
        { privateShare tenant with token_version := 1, revoked_at := some 0 } 0)) := rfl
  have hwrite : updateShareIfCurrent
      { privateShare tenant with token_version := 1, revoked_at := some 0 } 0
      (issuedOnce tenant).shares = .ok _ := rfl
  exact ⟨_, .tail (.single (.read (t := ()) rfl hread)) (.write (t := ()) rfl hwrite), rfl⟩

theorem short_token_opens :
    ∃ L, Reaches hourly (issuedOnce "tenant") ∧
      Unforged hourly L (issuedOnce "tenant") (hourly.token L (firstToken "tenant").claims) ∧
      authorizeGateway L (some hourly) "slug" (some (hourly.token L (firstToken "tenant").claims))
        0 (issuedOnce "tenant").shares = .ok (privateShare "tenant") ∧
      ∃ s', Later hourly (issuedOnce "tenant") s' ∧ ∃ row ∈ s'.shares.rows,
        hourly.verify L (hourly.token L (firstToken "tenant").claims) row 0 ≠ .ok () := by
  have hunforged : Unforged hourly testLibraries (issuedOnce "tenant")
      (hourly.token testLibraries (firstToken "tenant").claims) := by
    intro payload hsplit
    rw [splitOn_token] at hsplit
    exact ⟨_, mem_singleton.mpr rfl, (List.cons.inj hsplit).1.symm⟩
  obtain ⟨hopens, hclosed, -⟩ := token_opens_iff_issued_for_grant (reaches_issuedOnce "tenant")
  refine ⟨testLibraries, reaches_issuedOnce _, hunforged, ?_, ?_⟩
  · refine (hopens (privateShare "tenant") (mem_singleton.mpr rfl) _ 0 hunforged).mpr
      ⟨rfl, .inr ⟨?_, _, mem_singleton.mpr rfl, rfl, rfl, rfl, ⟨rfl, rfl, rfl⟩, ?_, ?_⟩⟩
    · decide +kernel
    · decide
    · decide
  · obtain ⟨s', hlater, hrows⟩ := revoked_later "tenant"
    have hrow := hrows ▸ mem_singleton.mpr rfl
    exact ⟨s', hlater, _, hrow, hclosed s' s' hlater .refl (privateShare "tenant")
      (mem_singleton.mpr rfl) _ hrow _ hrow rfl rfl (.inr rfl) (firstToken "tenant")
      (mem_singleton.mpr rfl) rfl 0⟩

end Tarit.Shares
