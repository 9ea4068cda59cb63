import Mathlib.Data.List.Induction
import Mathlib.Data.List.Sort
import Tarit.Gateway.PublicKeys

/-!
# Keys of the SSH gateway

Tenants register public keys and delete them again. A client that signs with a key is taken for the
tenant under which the fingerprint of the key is found, and the gateway lets it on to a VM that this
tenant owns. The lookup gives one record, though several tenants may have registered the key.
-/
namespace Tarit.Gateway

open Lib Fleet Node Store List Option

/-! ## Registered keys -/

structure SshKeyRecord where
  id : Uuid
  owner_key : String
  fingerprint : String
  public_key : String
  key_type : String
  created_at : Timestamp
  is_active : Bool
  deriving DecidableEq

abbrev SshKeys := Table SshKeyRecord.id

/-- `INSERT INTO ssh_keys`: the id is the primary key. -/
def insertSshKey (key : SshKeyRecord) (t : SshKeys) : Except StoreError SshKeys :=
  if (t.find? key.id).isSome then .error .Sqlite else .ok (t.insert key)

/-- The newest active record, and of several the one that was inserted first. -/
def getActiveSshKeyByFingerprint (fingerprint : String) (t : SshKeys) : Option SshKeyRecord :=
  ((t.rows.filter fun row => row.fingerprint == fingerprint && row.is_active).insertionSort
    fun row row' => row'.created_at ≤ row.created_at).head?

def deleteSshKey (owner_key : String) (id : Uuid) (t : SshKeys) : Except StoreError SshKeys :=
  let cond (row : SshKeyRecord) : Bool :=
    row.owner_key == owner_key && row.id == id && row.is_active
  if t.rows.any cond then
    .ok (t.update cond (fun row => { row with is_active := false }) fun _ => rfl)
  else .error .NotFound

section Calls

variable (L : KeyLibraries)

def newRecord (tenant public_key : String) (id : Uuid) (now : Timestamp)
    (parsed : ParsedPublicKey) : SshKeyRecord where
  id := id
  owner_key := tenant
  fingerprint := opensshSha256Fingerprint L parsed.blob
  public_key := String.ofList (trim public_key.toList)
  key_type := parsed.key_type
  created_at := now
  is_active := true

/-- The request of a tenant; the id is drawn and the time read by the handler. -/
def createSshKey (tenant public_key : String) (id : Uuid) (now : Timestamp) (t : SshKeys) :
    Except OrchError SshKeys := do
  let parsed ← parseOpensshPublicKey L public_key
  (insertSshKey (newRecord L tenant public_key id now parsed) t).mapError storeErr

inductive KeyCall where
  | create (tenant public_key : String) (id : Uuid) (now : Timestamp)
  | delete (tenant : String) (id : Uuid)

def KeyCall.result (t : SshKeys) : KeyCall → Except OrchError SshKeys
  | .create tenant public_key id now => createSshKey L tenant public_key id now t
  | .delete tenant id => (deleteSshKey tenant id t).mapError storeErr

/-- A call that fails changes nothing. -/
def KeyCall.after (t : SshKeys) (call : KeyCall) : SshKeys := (call.result L t).toOption.getD t

def runKeys (calls : List KeyCall) : SshKeys := calls.foldl (KeyCall.after L) ∅

/-! ## The gateway -/

structure Authenticated where
  owner_key : String
  vm_id : Uuid
  fingerprint : String

def parseTargetVmId (user : String) : Except String Uuid :=
  match L.parseStr user with
  | none => .error "SSH username must be the target VM UUID"
  | some vm_id => .ok vm_id

/-- `key` is what the client has signed with, as bytes. -/
def authPublickey (t : SshKeys) (user : String) (key : Bytes) : Option Authenticated := do
  let vm_id ← (parseTargetVmId L user).toOption
  let record ← getActiveSshKeyByFingerprint (opensshSha256Fingerprint L key) t
  pure ⟨record.owner_key, vm_id, opensshSha256Fingerprint L key⟩

/-- What the owner check reads of a VM record. -/
structure VmOwnerRow where
  owner_key : Option String

/-- The VM records of this host, and those of the fleet if there is one. -/
structure VmRows where
  vm_cache : Uuid → Option VmOwnerRow
  store : Uuid → Option VmOwnerRow
  fleet : Option (Uuid → Option VmOwnerRow)

def localVmRecord (vms : VmRows) (vm_id : Uuid) : Option VmOwnerRow :=
  (vms.vm_cache vm_id).or (vms.store vm_id)

def authorizeVmOwner (vms : VmRows) (auth : Authenticated) : Except OrchError Unit :=
  match (localVmRecord vms auth.vm_id).or (vms.fleet.bind (· auth.vm_id)) with
  | none => .error (.NotFound ("vm " ++ displayUuid auth.vm_id ++ " not found"))
  | some row =>
    if row.owner_key ≠ some auth.owner_key then
      .error (.NotFound ("vm " ++ displayUuid auth.vm_id ++ " not found"))
    else .ok ()

/-- The client signs with the key while the keys are `t`, and attaches later. -/
def admitted (t : SshKeys) (vms : VmRows) (user : String) (key : Bytes) : Bool :=
  (authPublickey L t user key).any fun auth => (authorizeVmOwner vms auth).isOk

/-! ## Registrations in force -/

def KeyCall.Registers (t : SshKeys) (call : KeyCall) (tenant : String) (id : Uuid)
    (fingerprint : String) : Prop :=
  ∃ public_key now, call = .create tenant public_key id now ∧ (call.result L t).isOk ∧
    (parseOpensshPublicKey L public_key).map (opensshSha256Fingerprint L ·.blob) = .ok fingerprint

/-- A call registered it, and the tenant has not asked to delete it since. -/
def RegisteredAs (calls : List KeyCall) (tenant : String) (id : Uuid) (fingerprint : String) :
    Prop :=
  ∃ before call after, calls = before ++ call :: after ∧
    call.Registers L (runKeys L before) tenant id fingerprint ∧ .delete tenant id ∉ after

def Registered (calls : List KeyCall) (tenant : String) (key : Bytes) : Prop :=
  ∃ id, RegisteredAs L calls tenant id (opensshSha256Fingerprint L key)

end Calls

/-- The table has an active record of it. -/
def Holds (t : SshKeys) (tenant : String) (id : Uuid) (fingerprint : String) : Prop :=
  ∃ row, t.find? id = some row ∧ row.owner_key = tenant ∧ row.fingerprint = fingerprint ∧
    row.is_active = true

section Runs

variable {L : KeyLibraries} {t : SshKeys}
  {tenant tenant' fingerprint public_key : String} {id id' : Uuid} {now : Timestamp}
  {calls : List KeyCall} {call : KeyCall}

theorem find?_delete :
    ((KeyCall.delete tenant' id').after L t).find? id = (t.find? id).map fun row =>
    if row.owner_key == tenant' && row.id == id' && row.is_active then
      { row with is_active := false } else row := by
  unfold KeyCall.after KeyCall.result deleteSshKey
  dsimp only
  split
  · apply t.find?_update
    exact fun _ => rfl
  rename_i hnone
  show t.find? id = _
  cases hfind : t.find? id with
  | none => rfl
  | some row =>
    rw [map_some, if_neg]
    intro hcond
    exact hnone (any_eq_true.mpr ⟨row, (t.find?_eq_some_iff.mp hfind).1, hcond⟩)

theorem holds_delete : Holds ((KeyCall.delete tenant' id').after L t) tenant id fingerprint ↔
    Holds t tenant id fingerprint ∧ KeyCall.delete tenant' id' ≠ .delete tenant id := by
  unfold Holds
  rw [find?_delete]
  constructor
  · rintro ⟨_, hmap, howner, hfp, hactive⟩
    obtain ⟨row, hrow, rfl⟩ := map_eq_some_iff.mp hmap
    split at hactive
    · cases hactive
    rename_i hcond
    rw [if_neg hcond] at howner hfp
    refine ⟨⟨row, hrow, howner, hfp, hactive⟩, fun heq => hcond ?_⟩
    obtain ⟨rfl, rfl⟩ := KeyCall.delete.inj heq
    simp [howner, (t.find?_eq_some_iff.mp hrow).2, hactive]
  · rintro ⟨⟨row, hrow, howner, hfp, hactive⟩, hne⟩
    refine ⟨row, ?_, howner, hfp, hactive⟩
    rw [hrow, map_some, if_neg]
    intro hcond
    simp only [Bool.and_eq_true, beq_iff_eq] at hcond
    obtain ⟨⟨hown, hid⟩, -⟩ := hcond
    exact hne (by rw [← hown, howner, ← hid, (t.find?_eq_some_iff.mp hrow).2])

theorem create_cases : (∃ e, (KeyCall.create tenant public_key id now).result L t = .error e) ∨
    ∃ key, parseOpensshPublicKey L public_key = .ok key ∧ t.find? id = none ∧
      (KeyCall.create tenant public_key id now).result L t =
        .ok (t.insert (newRecord L tenant public_key id now key)) := by
  show (∃ e, createSshKey L tenant public_key id now t = .error e) ∨ ∃ key, _ ∧ _ ∧
    createSshKey L tenant public_key id now t = .ok _
  unfold createSshKey insertSshKey
  cases hparse : parseOpensshPublicKey L public_key with
  | error e => exact .inl ⟨e, rfl⟩
  | ok key =>
    cases hfind : t.find? id with
    | some row =>
      have hused : (t.find? id).isSome := by rw [hfind, isSome_some]
      exact .inl ⟨_, congrArg (Except.mapError storeErr) (if_pos hused)⟩
    | none =>
      have hfree : ¬ (t.find? id).isSome := by simp [hfind]
      exact .inr ⟨key, rfl, rfl, congrArg (Except.mapError storeErr) (if_neg hfree)⟩

theorem holds_create : Holds ((KeyCall.create tenant' public_key id' now).after L t) tenant id
      fingerprint ↔ (KeyCall.create tenant' public_key id' now).Registers L t tenant id
        fingerprint ∨
        Holds t tenant id fingerprint := by
  rcases create_cases (L := L) (t := t) with ⟨e, herr⟩ | ⟨key, hparse, hnone, hok⟩
  · rw [KeyCall.after, herr]
    refine ⟨.inr, fun h => h.resolve_left ?_⟩
    rintro ⟨_, _, -, hok, -⟩
    rw [herr] at hok
    cases hok
  · have hfind (k : Uuid) :
        (t.insert (newRecord L tenant' public_key id' now key)).find? k =
          if k = id' then some _ else t.find? k := t.find?_insert hnone k
    rw [KeyCall.after, hok, Except.toOption, getD_some]
    by_cases hid : id = id'
    · subst hid
      unfold Holds KeyCall.Registers
      rw [hfind, if_pos rfl, hnone, hok]
      constructor
      · rintro ⟨_, ⟨⟩, rfl, rfl, -⟩
        exact .inl ⟨public_key, now, rfl, rfl, by rw [hparse]; rfl⟩
      · rintro (⟨_, _, heq, -, hfp⟩ | ⟨_, ⟨⟩, -⟩)
        cases heq
        rw [hparse] at hfp
        exact ⟨_, rfl, rfl, Except.ok.inj hfp, rfl⟩
    · unfold Holds
      rw [hfind, if_neg hid]
      refine ⟨.inr, fun h => h.resolve_left ?_⟩
      rintro ⟨_, _, heq, -⟩
      cases heq
      exact hid rfl

/-- The step lemma: a call registers the key, or leaves it unless it deletes it. -/
theorem holds_after : Holds (call.after L t) tenant id fingerprint ↔
    call.Registers L t tenant id fingerprint ∨
      Holds t tenant id fingerprint ∧ call ≠ .delete tenant id := by
  cases call with
  | create tenant' public_key id' now =>
    rw [holds_create, and_iff_left]
    intro h
    cases h
  | delete tenant' id' =>
    rw [holds_delete, or_iff_right]
    rintro ⟨_, _, h, -⟩
    cases h

theorem runKeys_snoc : runKeys L (calls ++ [call]) = call.after L (runKeys L calls) :=
  foldl_append

theorem registeredAs_snoc : RegisteredAs L (calls ++ [call]) tenant id fingerprint ↔
    call.Registers L (runKeys L calls) tenant id fingerprint ∨
      RegisteredAs L calls tenant id fingerprint ∧ call ≠ .delete tenant id := by
  constructor
  · rintro ⟨before, call', after, heq, hreg, hafter⟩
    rcases eq_nil_or_concat after with rfl | ⟨after, last, rfl⟩
    · obtain ⟨rfl, ⟨⟩⟩ := append_inj' heq rfl
      exact .inl hreg
    · rw [concat_eq_append, ← cons_append, ← append_assoc] at heq
      obtain ⟨rfl, ⟨⟩⟩ := append_inj' heq rfl
      rw [concat_eq_append, mem_append, not_or, mem_singleton] at hafter
      exact .inr ⟨⟨before, call', after, rfl, hreg, hafter.1⟩, fun h => hafter.2 h.symm⟩
  · rintro (hreg | ⟨⟨before, call', after, rfl, hreg, hafter⟩, hne⟩)
    · exact ⟨calls, call, [], rfl, hreg, not_mem_nil⟩
    · refine ⟨before, call', after ++ [call], by rw [append_assoc, cons_append], hreg, ?_⟩
      rw [mem_append, not_or, mem_singleton]
      exact ⟨hafter, fun h => hne h.symm⟩

/-- The active records of the table are the registrations in force. -/
theorem holds_run : Holds (runKeys L calls) tenant id fingerprint ↔
    RegisteredAs L calls tenant id fingerprint := by
  induction calls using List.reverseRecOn with
  | nil =>
    constructor
    · rintro ⟨_, ⟨⟩, -⟩
    · rintro ⟨before, _, _, heq, -⟩
      cases before <;> cases heq
  | append_singleton calls call ih => rw [runKeys_snoc, holds_after, registeredAs_snoc, ih]

theorem getActive_holds {record : SshKeyRecord}
    (h : getActiveSshKeyByFingerprint fingerprint t = some record) :
    Holds t record.owner_key record.id fingerprint := by
  obtain ⟨hmem, hcond⟩ :=
    mem_filter.mp ((perm_insertionSort _ _).mem_iff.mp (mem_of_head? h))
  rw [Bool.and_eq_true, beq_iff_eq] at hcond
  exact ⟨record, t.find?_eq_some_iff.mpr ⟨hmem, rfl⟩, rfl, hcond⟩

theorem getActive_none (h : getActiveSshKeyByFingerprint fingerprint t = none) :
    ¬ Holds t tenant id fingerprint := by
  rintro ⟨row, hfind, -, hfp, hactive⟩
  have hmem := (t.find?_eq_some_iff.mp hfind).1
  have hnil := (List.head?_eq_none_iff.mp h ▸ perm_insertionSort _ _).nil_eq.symm
  exact filter_eq_nil_iff.mp hnil row hmem (by rw [hfp, hactive, beq_self_eq_true]; rfl)

/-- On a VM of this host, the tenant of the record found is compared with the owner. -/
theorem admitted_iff {vms : VmRows} {user : String} {key : Bytes} {vm_id : Uuid}
    (huser : parseTargetVmId L user = .ok vm_id)
    (hvm : localVmRecord vms vm_id = some ⟨some tenant⟩) :
    admitted L t vms user key = true ↔
      ∃ record, getActiveSshKeyByFingerprint (opensshSha256Fingerprint L key) t = some record ∧
        record.owner_key = tenant := by
  unfold admitted authPublickey
  rw [huser]
  cases hrec : getActiveSshKeyByFingerprint (opensshSha256Fingerprint L key) t with
  | none => simp
  | some record =>
    show (authorizeVmOwner vms ⟨record.owner_key, vm_id, _⟩).isOk = true ↔ _
    unfold authorizeVmOwner
    rw [hvm, some_or]
    by_cases howner : record.owner_key = tenant
    · simp [howner, Except.isOk, Except.toBool]
    · simp [howner, Ne.symm howner, Except.isOk, Except.toBool]

end Runs

/-- A client gets past the owner check of a VM of this host only with a key that the owner has
registered. With every such key it does exactly if no two tenants have the key registered: of the
others the lookup does not tell. -/
theorem admitted_iff_registered (L : KeyLibraries) (calls : List KeyCall)
    (user : String) (vm_id : Uuid) (huser : parseTargetVmId L user = .ok vm_id) (key : Bytes) :
    (∀ vms tenant, localVmRecord vms vm_id = some ⟨some tenant⟩ →
      admitted L (runKeys L calls) vms user key = true → Registered L calls tenant key) ∧
    ((∀ vms tenant, localVmRecord vms vm_id = some ⟨some tenant⟩ →
      (admitted L (runKeys L calls) vms user key = true ↔ Registered L calls tenant key)) ↔
    ∀ tenant tenant', Registered L calls tenant key → Registered L calls tenant' key →
      tenant = tenant') := by
  have hsound (vms : VmRows) (tenant : String)
      (hvm : localVmRecord vms vm_id = some ⟨some tenant⟩)
      (hadm : admitted L (runKeys L calls) vms user key = true) :
      Registered L calls tenant key := by
    obtain ⟨record, hrec, rfl⟩ := (admitted_iff huser hvm).mp hadm
    exact ⟨record.id, holds_run.mp (getActive_holds hrec)⟩
  refine ⟨hsound, fun hall tenant tenant' hreg hreg' => ?_, fun hone vms tenant hvm => ?_⟩
  · -- the record found is that of each tenant, as seen on a VM of theirs
    have hvm (owner : String) :
      localVmRecord ⟨fun _ => some ⟨some owner⟩, fun _ => none, none⟩ vm_id =
        some ⟨some owner⟩ := rfl
    obtain ⟨record, hrec, rfl⟩ :=
      (admitted_iff huser (hvm tenant)).mp ((hall _ _ (hvm tenant)).mpr hreg)
    obtain ⟨record', hrec', rfl⟩ :=
      (admitted_iff huser (hvm tenant')).mp ((hall _ _ (hvm tenant')).mpr hreg')
    rw [some.inj (hrec.symm.trans hrec')]
  · refine ⟨hsound vms tenant hvm, fun hreg => (admitted_iff huser hvm).mpr ?_⟩
    cases hrec : getActiveSshKeyByFingerprint (opensshSha256Fingerprint L key)
      (runKeys L calls) with
    | none =>
      obtain ⟨id, hid⟩ := hreg
      exact absurd (holds_run.mpr hid) (getActive_none hrec)
    | some record =>
      exact ⟨record, rfl, hone _ _ ⟨record.id, holds_run.mp (getActive_holds hrec)⟩ hreg⟩

/-! The key of the tests, with its fingerprint. -/

def ED25519_KEY : String :=
  "ssh-ed25519 AAAAC3NzaC1lZDI1NTE5AAAAIAECAwQFBgcICQoLDA0ODxAREhMUFRYXGBkaGxwdHh8g test@example"

/-- `ssh-ed25519` and the 32 bytes of the key, each after its length. -/
def ed25519Blob : Bytes :=
  [0, 0, 0, 11] ++ [115, 115, 104, 45, 101, 100, 50, 53, 53, 49, 57] ++ [0, 0, 0, 32] ++
    (range 32).map fun i => UInt8.ofNat (i + 1)

def base64Char (n : Nat) : Char :=
  "ABCDEFGHIJKLMNOPQRSTUVWXYZabcdefghijklmnopqrstuvwxyz0123456789+/".toList.getD n '='

def base64Value (c : Char) : Option Nat := (range 64).find? fun n => base64Char n = c

/-- Whole groups of four characters. -/
def readBase64 : List Char → Except String Bytes
  | w :: x :: y :: z :: text =>
    match [w, x, y, z].mapM base64Value with
    | some [w, x, y, z] =>
      let n := w * 262144 + x * 4096 + y * 64 + z
      (readBase64 text).map ([n / 65536, n / 256, n].map UInt8.ofNat ++ ·)
    | _ => .error "Invalid symbol"
  | [] => .ok []
  | _ => .error "Invalid padding"

def writeBase64 : Bytes → List Char
  | a :: b :: c :: rest =>
    let n := a.toNat * 65536 + b.toNat * 256 + c.toNat
    [n / 262144, n / 4096 % 64, n / 64 % 64, n % 64].map base64Char ++ writeBase64 rest
  | [a, b] => [a.toNat / 4, (a.toNat * 256 + b.toNat) / 16 % 64, b.toNat % 16 * 4].map base64Char
  | [a] => [a.toNat / 4, a.toNat % 4 * 16].map base64Char
  | [] => []

/-- Base64 of whole groups, texts of ASCII characters, and the digest of the blob. -/
def testLibraries : KeyLibraries where
  base64Decode := readBase64
  base64Encode := writeBase64
  fromUtf8 bytes :=
    if bytes.all (· < 128) then some (String.ofList (bytes.map fun b => Char.ofNat b.toNat))
    else none
  sha256 blob :=
    if blob = ed25519Blob then
      [152, 170, 148, 251, 66, 188, 58, 18, 166, 3, 198, 193, 66, 47, 81, 207, 68, 57,
        151, 191, 224, 215, 173, 33, 32, 255, 171, 37, 132, 147, 54, 62]
    else blob
  parseStr user := parseUuid user.toList

theorem parse_ED25519_KEY :
    parseOpensshPublicKey testLibraries ED25519_KEY = .ok ⟨"ssh-ed25519", ed25519Blob⟩ := by
  rfl

example : opensshSha256Fingerprint testLibraries ed25519Blob =
    "SHA256:mKqU+0K8OhKmA8bBQi9Rz0Q5l7/g160hIP+rJYSTNj4" := by
  decide +kernel

def vmUser : String := "6f9619ff-8b86-4d01-b42d-00cf4fc964ff"

def vmId : Uuid := 0x6f9619ff8b864d01b42d00cf4fc964ff

/-- A VM of the tenant on this host, and nothing else. -/
def tenantVm : VmRows :=
  ⟨fun id => if id = vmId then some ⟨some "tenant"⟩ else none, fun _ => none, none⟩

theorem registered_cons {after : List KeyCall} (h : .delete "tenant" 1 ∉ after) : Registered
    testLibraries (.create "tenant" ED25519_KEY 1 100 :: after) "tenant" ed25519Blob := by
  refine ⟨1, [], _, after, rfl, ⟨ED25519_KEY, 100, rfl, ?_, ?_⟩, h⟩
  · show (createSshKey testLibraries "tenant" ED25519_KEY 1 100 ∅).isOk = true
    unfold createSshKey
    rw [parse_ED25519_KEY]
    rfl
  · rw [parse_ED25519_KEY]
    rfl

def oneRegistration : List KeyCall := [.create "tenant" ED25519_KEY 1 100]

theorem admitted_iff_registered_one : (∀ tenant tenant',
    Registered testLibraries oneRegistration tenant ed25519Blob →
    Registered testLibraries oneRegistration tenant' ed25519Blob → tenant = tenant') ∧
    admitted testLibraries (runKeys testLibraries oneRegistration) tenantVm vmUser ed25519Blob =
      true := by
  have hone (tenant : String) (h : Registered testLibraries oneRegistration tenant ed25519Blob) :
      tenant = "tenant" := by
    obtain ⟨_, before, _, after, heq, ⟨_, _, rfl, -⟩, -⟩ := h
    cases before with
    | nil => cases heq; rfl
    | cons _ before => cases before <;> cases heq
  have hunique : ∀ tenant tenant', _ → _ → tenant = tenant' := fun tenant tenant' h h' =>
    (hone tenant h).trans (hone tenant' h').symm
  have hiff :=
    (admitted_iff_registered testLibraries oneRegistration vmUser vmId rfl ed25519Blob).2.mpr
    hunique
  exact ⟨hunique, (hiff tenantVm "tenant" rfl).mpr (registered_cons not_mem_nil)⟩

/-- Another tenant registers the key as well. -/
def sharedKey : List KeyCall := oneRegistration ++ [.create "other" ED25519_KEY 2 200]

theorem tenant_refused_sharedKey : Registered testLibraries sharedKey "tenant" ed25519Blob ∧
    admitted testLibraries (runKeys testLibraries sharedKey) tenantVm vmUser ed25519Blob =
      false := by
  constructor
  · apply registered_cons
    intro h
    rcases mem_singleton.mp h with ⟨⟩
  · decide +kernel

end Tarit.Gateway
