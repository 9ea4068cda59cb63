import Tarit.Lib.JsonText
import Tarit.Node.Records
import Tarit.Snapshot.Host

/-!
# Share tokens

A token of a private share is the claims of its issuer as JSON in base64, a dot, and the HMAC
of that text in base64. Nothing of the share but its id, owner and version is in it. JSON, base64
and the HMAC are those of the libraries; all that is asked of them is that what was written is read
back, that base64 has no dot, and how long the texts are at least.
-/
namespace Tarit.Shares

open Lib Fleet Node Snapshot
open List (data_toByteArray flatMap_cons intercalate_splitOn length_append length_cons
  splitOn_append_cons_self splitOn_eq_singleton)
open Option (bind_some)
open Lib.JsonText

/-! ## Records -/

inductive ShareVisibility where
  | Public | Private
  deriving DecidableEq

structure ShareRecord where
  id : Uuid
  slug : String
  owner_key : String
  vm_id : Uuid
  guest_port : UInt16
  visibility : ShareVisibility
  token_version : UInt64
  revoked_at : Option Timestamp
  created_at : Timestamp
  updated_at : Timestamp
  deriving DecidableEq

structure ShareTokenClaims where
  share_id : Uuid
  owner_key : String
  token_version : UInt64
  aud : String
  iat : Int
  exp : Int
  deriving DecidableEq

def SHARE_TOKEN_AUDIENCE : String := "tarit-share"

def MAX_SHARE_TOKEN_LEN : Nat := 4096

/-! ## The libraries -/

/-- `serde_json` for the claims, base64 in the URL-safe alphabet without padding, and
HMAC-SHA-256. -/
structure TokenLibraries where
  toVec : ShareTokenClaims → Bytes
  fromSlice : Bytes → Option ShareTokenClaims
  encode : Bytes → List Char
  decode : List Char → Option Bytes
  hmac : Vector UInt8 32 → Bytes → Vector UInt8 32
  fromSlice_toVec : ∀ claims, fromSlice (toVec claims) = some claims
  /-- The name of the owner stands in the text. -/
  owner_key_lt : ∀ claims, claims.owner_key.toList.length < (toVec claims).length
  decode_encode : ∀ bytes, decode (encode bytes) = some bytes
  dot_not_mem_encode : ∀ bytes, '.' ∉ encode bytes
  le_length_encode : ∀ bytes, (4 * bytes.length + 2) / 3 ≤ (encode bytes).length

namespace TokenLibraries

variable {L : TokenLibraries}

def decodeBase64url (L : TokenLibraries) (encoded : List Char) : Option Bytes :=
  (L.decode encoded).filter fun decoded => L.encode decoded = encoded

theorem decodeBase64url_encode {bytes : Bytes} :
    L.decodeBase64url (L.encode bytes) = some bytes := by
  rw [decodeBase64url, L.decode_encode]
  exact Option.filter_some_pos (decide_eq_true rfl)

theorem encode_ne_nil {bytes : Bytes} (h : bytes ≠ []) : L.encode bytes ≠ [] := by
  have hlength := L.le_length_encode bytes
  have hpos := List.length_pos_of_ne_nil h
  intro hnil
  rw [hnil, List.length_nil] at hlength
  omega

theorem toVec_ne_nil (claims : ShareTokenClaims) : L.toVec claims ≠ [] :=
  List.ne_nil_of_length_pos (Nat.zero_lt_of_lt (L.owner_key_lt claims))

end TokenLibraries

theorem length_asBytes (s : String) : (asBytes s).length = s.utf8ByteSize := rfl

theorem length_le_length_asBytes (s : String) : s.toList.length ≤ (asBytes s).length := by
  have hlen (cs : List Char) : cs.length ≤ (cs.flatMap String.utf8EncodeChar).length := by
    induction cs with
    | nil => exact le_refl 0
    | cons c cs ih =>
      have hc := c.utf8Size_pos
      rw [flatMap_cons, length_append, length_cons, String.length_utf8EncodeChar]
      omega
  have hbytes : asBytes s = s.toList.flatMap String.utf8EncodeChar := by
    rw [asBytes, String.toUTF8_eq_toByteArray, ← String.utf8Encode_toList, List.utf8Encode,
      data_toByteArray]
  rw [hbytes]
  exact hlen s.toList

/-! ## The signer -/

structure ShareTokenSigner where
  key : Vector UInt8 32
  /-- Whole seconds. -/
  ttl : UInt64

/-- `DateTime::timestamp`, in seconds. -/
def timestamp (now : Timestamp) : Int := now / 1000000000

def checkedAddI64 (a b : Int) : Option Int :=
  if -2 ^ 63 ≤ a + b ∧ a + b < 2 ^ 63 then some (a + b) else none

section Signer

variable (L : TokenLibraries)

namespace ShareTokenSigner

def ttlSeconds (signer : ShareTokenSigner) : Except OrchError Int :=
  if 0 < signer.ttl.toNat ∧ signer.ttl.toNat < 2 ^ 63 then .ok signer.ttl.toNat
  else .error (.Internal "share token TTL must be positive")

def sign (signer : ShareTokenSigner) (payload : List Char) : Bytes :=
  (L.hmac signer.key (asBytes (String.ofList payload))).toList

def claims (signer : ShareTokenSigner) (share : ShareRecord) (now : Timestamp) :
    Except OrchError ShareTokenClaims := do
  if share.visibility ≠ .Private ∨ share.revoked_at.isSome then
    throw (.BadRequest "tokens can only be issued for active private shares")
  let iat := timestamp now
  let ttl ← signer.ttlSeconds
  match checkedAddI64 iat ttl with
  | none => throw (.Internal "share token expiry overflow")
  | some exp =>
    pure {
      share_id := share.id, owner_key := share.owner_key, token_version := share.token_version
      aud := SHARE_TOKEN_AUDIENCE, iat, exp }

def payload (claims : ShareTokenClaims) : List Char := L.encode (L.toVec claims)

def token (signer : ShareTokenSigner) (claims : ShareTokenClaims) : String :=
  String.ofList (payload L claims ++ '.' :: L.encode (signer.sign L (payload L claims)))

def issue (signer : ShareTokenSigner) (share : ShareRecord) (now : Timestamp) :
    Except OrchError String := do
  let claims ← signer.claims share now
  pure (signer.token L claims)

/-- The claims of a token are those of the share, and not expired. -/
def accepts (signer : ShareTokenSigner) (share : ShareRecord) (now : Int)
    (claims : ShareTokenClaims) : Bool :=
  match signer.ttlSeconds with
  | .error _ => false
  | .ok ttl =>
    match checkedAddI64 claims.iat ttl with
    | none => false
    | some expected_exp =>
      !(claims.aud != SHARE_TOKEN_AUDIENCE || claims.share_id != share.id ||
        claims.owner_key != share.owner_key || claims.token_version != share.token_version ||
        claims.iat > now || claims.exp != expected_exp || claims.exp ≤ now)

def verify (signer : ShareTokenSigner) (token : String) (share : ShareRecord) (now : Timestamp) :
    Except OrchError Unit :=
  if token.utf8ByteSize > MAX_SHARE_TOKEN_LEN ∨ share.visibility ≠ .Private ∨
      share.revoked_at.isSome then .error .Unauthorized
  else
    match token.toList.splitOn '.' with
    | [payload, signature] =>
      if payload = [] ∨ signature = [] then .error .Unauthorized
      else if L.decodeBase64url signature = some (signer.sign L payload) then
        match (L.decodeBase64url payload).bind L.fromSlice with
        | none => .error .Unauthorized
        | some claims =>
          if signer.accepts share (timestamp now) claims then .ok () else .error .Unauthorized
      else .error .Unauthorized
    | _ => .error .Unauthorized

variable {L} {signer : ShareTokenSigner} {share : ShareRecord} {now : Timestamp}

theorem accepts_iff {now : Int} {claims : ShareTokenClaims} :
    signer.accepts share now claims = true ↔
      ∃ ttl, signer.ttlSeconds = .ok ttl ∧ checkedAddI64 claims.iat ttl = some claims.exp ∧
        claims.aud = SHARE_TOKEN_AUDIENCE ∧ claims.share_id = share.id ∧
        claims.owner_key = share.owner_key ∧ claims.token_version = share.token_version ∧
        claims.iat ≤ now ∧ now < claims.exp := by
  unfold accepts
  cases httl : signer.ttlSeconds with
  | error e => simp
  | ok ttl =>
    cases hexp : checkedAddI64 claims.iat ttl with
    | none => simp [hexp]
    | some expected_exp =>
      simp only [Except.ok.injEq, exists_eq_left', hexp, Option.some.injEq, Bool.not_eq_true',
        Bool.or_eq_false_iff, bne_eq_false_iff_eq, decide_eq_false_iff_not, not_lt,
        not_le, gt_iff_lt]
      constructor
      · rintro ⟨⟨⟨⟨⟨⟨haud, hid⟩, howner⟩, hversion⟩, hiat⟩, hexp'⟩, hnow⟩
        exact ⟨hexp'.symm, haud, hid, howner, hversion, hiat, hnow⟩
      · rintro ⟨hexp', haud, hid, howner, hversion, hiat, hnow⟩
        exact ⟨⟨⟨⟨⟨⟨haud, hid⟩, howner⟩, hversion⟩, hiat⟩, hexp'.symm⟩, hnow⟩

theorem verify_ok {token : String} (h : signer.verify L token share now = .ok ()) :
    ∃ payload claims,
      token.toList.splitOn '.' = [payload, L.encode (signer.sign L payload)] ∧
      (L.decodeBase64url payload).bind L.fromSlice = some claims ∧
      share.visibility = .Private ∧ share.revoked_at = none ∧
      token.utf8ByteSize ≤ MAX_SHARE_TOKEN_LEN ∧
      signer.accepts share (timestamp now) claims = true := by
  obtain ⟨hactive, h⟩ := ite_error_eq_ok.mp h
  rw [not_or, not_or, not_lt, not_not, Bool.not_eq_true, Option.isSome_eq_false_iff,
    Option.isNone_iff_eq_none] at hactive
  split at h
  · next payload signature hsplit =>
    obtain ⟨-, h⟩ := ite_error_eq_ok.mp h
    obtain ⟨hsigned, h⟩ := ite_eq_ok.mp h
    split at h
    · cases h
    rename_i claims hclaims
    obtain ⟨haccepts, -⟩ := ite_eq_ok.mp h
    refine ⟨payload, claims, ?_, hclaims, hactive.2.1, hactive.2.2, hactive.1, haccepts⟩
    rw [hsplit, of_decide_eq_true (Option.filter_eq_some_iff.mp hsigned).2]
  · cases h

theorem splitOn_token (signer : ShareTokenSigner) (claims : ShareTokenClaims) :
    (signer.token L claims).toList.splitOn '.' =
      [payload L claims, L.encode (signer.sign L (payload L claims))] := by
  have hpayload : '.' ∉ payload L claims := L.dot_not_mem_encode _
  rw [token, String.toList_ofList, splitOn_append_cons_self,
    splitOn_eq_singleton hpayload, splitOn_eq_singleton (L.dot_not_mem_encode _)]
  rfl

theorem eq_token {signer : ShareTokenSigner} {token : String} {claims : ShareTokenClaims}
    (h : token.toList.splitOn '.' =
      [payload L claims, L.encode (signer.sign L (payload L claims))]) :
    token = signer.token L claims := by
  have hjoin (text : List Char) : ['.'].intercalate (text.splitOn '.') = text :=
    intercalate_splitOn '.'
  have htext := hjoin token.toList
  rw [h, ← splitOn_token, hjoin] at htext
  exact String.toList_inj.mp htext.symm

theorem decode_payload (claims : ShareTokenClaims) :
    (L.decodeBase64url (payload L claims)).bind L.fromSlice = some claims := by
  rw [payload, TokenLibraries.decodeBase64url_encode, bind_some, L.fromSlice_toVec]

/-- A token of a share that is still as it was issued for is accepted, if it is short enough. -/
theorem verify_token {claims : ShareTokenClaims}
    (hlength : (signer.token L claims).utf8ByteSize ≤ MAX_SHARE_TOKEN_LEN)
    (hprivate : share.visibility = .Private) (hactive : share.revoked_at = none)
    (haccepts : signer.accepts share (timestamp now) claims = true) :
    signer.verify L (signer.token L claims) share now = .ok () := by
  unfold verify
  rw [if_neg, splitOn_token]
  · dsimp only
    rw [if_neg, if_pos TokenLibraries.decodeBase64url_encode, decode_payload]
    · exact if_pos haccepts
    rw [not_or]
    refine ⟨TokenLibraries.encode_ne_nil (TokenLibraries.toVec_ne_nil claims),
      TokenLibraries.encode_ne_nil fun hnil => ?_⟩
    have hlength := congrArg List.length hnil
    rw [sign, Vector.length_toList] at hlength
    cases hlength
  · rw [hprivate, hactive]
    simp [not_lt.mpr hlength]

/-- The token of a tenant whose name is longer than 3070 characters is never accepted. -/
theorem verify_token_of_long_owner {claims : ShareTokenClaims}
    (h : 3070 < claims.owner_key.toList.length) :
    signer.verify L (signer.token L claims) share now = .error .Unauthorized := by
  have hlength : MAX_SHARE_TOKEN_LEN < (signer.token L claims).utf8ByteSize := by
    have hbytes := L.owner_key_lt claims
    have hpayload : (4 * (L.toVec claims).length + 2) / 3 ≤ (payload L claims).length :=
      L.le_length_encode _
    have htoken := length_le_length_asBytes (signer.token L claims)
    rw [length_asBytes] at htoken
    have htext : (payload L claims).length < (signer.token L claims).toList.length := by
      rw [token, String.toList_ofList, length_append, length_cons]
      omega
    show 4096 < (signer.token L claims).utf8ByteSize
    omega
  exact if_pos (.inl hlength)

end ShareTokenSigner

end Signer

/-! ## Libraries for a run -/

/-- The claims one after the other, with blanks between them. -/
def writeField (n : Nat) (rest : List Char) : List Char := Nat.toDigits 10 n ++ ' ' :: rest

def writeClaims (claims : ShareTokenClaims) : List Char :=
  writeField claims.share_id.val <| writeField claims.token_version.toNat <|
    writeField claims.iat.toNat <| writeField (-claims.iat).toNat <|
    writeField claims.exp.toNat <| writeField (-claims.exp).toNat <|
    writeField claims.owner_key.toList.length <| claims.owner_key.toList ++ claims.aud.toList

def readClaims (text : List Char) : Option ShareTokenClaims := do
  let (share_id, text) ← readNat text
  let (token_version, text) ← readNat text.tail
  let (iat, text) ← readNat text.tail
  let (iat_neg, text) ← readNat text.tail
  let (exp, text) ← readNat text.tail
  let (exp_neg, text) ← readNat text.tail
  let (length, text) ← readNat text.tail
  pure {
    share_id := Fin.ofNat _ share_id, owner_key := String.ofList (text.tail.take length)
    token_version := UInt64.ofNat token_version, aud := String.ofList (text.tail.drop length)
    iat := iat - iat_neg, exp := exp - exp_neg }

theorem readClaims_writeClaims (claims : ShareTokenClaims) :
    readClaims (writeClaims claims) = some claims := by
  have hblank (text : List Char) : Ends (' ' :: text) := fun c hc => by cases hc; rfl
  simp [readClaims, writeClaims, writeField, readNat_toDigits _ (hblank _),
    Int.toNat_sub_toNat_neg, -Int.ofNat_toNat]

def writeHex (bytes : Bytes) : List Char :=
  bytes.flatMap fun b => [Nat.digitChar (b.toNat / 16), Nat.digitChar (b.toNat % 16)]

def readHex : List Char → Option Bytes
  | high :: low :: text => do
    return UInt8.ofNat ((← Fleet.hexDigit high) * 16 + (← Fleet.hexDigit low)) :: (← readHex text)
  | _ => some []

theorem readHex_writeHex (bytes : Bytes) : readHex (writeHex bytes) = some bytes := by
  have hdigit : ∀ n < 16, Fleet.hexDigit (Nat.digitChar n) = some n := by decide
  induction bytes with
  | nil => rfl
  | cons b bytes ih =>
    have hb := b.toNat_lt
    have hbyte : b.toNat / 16 * 16 + b.toNat % 16 = b.toNat := by omega
    rw [writeHex] at ih
    simp only [writeHex, flatMap_cons, List.cons_append, List.nil_append, readHex,
      hdigit _ (show b.toNat / 16 < 16 by omega), hdigit _ (Nat.mod_lt b.toNat (by decide)), ih]
    simp only [Option.bind_eq_bind, bind_some, hbyte, UInt8.ofNat_toNat]
    rfl

def testLibraries : TokenLibraries where
  toVec claims := asBytes (String.ofList (writeClaims claims))
  fromSlice bytes := (fromUtf8 bytes).bind fun text => readClaims text.toList
  encode := writeHex
  decode := readHex
  hmac key message := .ofFn fun i => key[i] + (message.getD i 0)
  fromSlice_toVec claims := by
    rw [fromUtf8_asBytes, bind_some, String.toList_ofList, readClaims_writeClaims]
  owner_key_lt claims := by
    refine lt_of_lt_of_le ?_ (length_le_length_asBytes _)
    rw [String.toList_ofList, writeClaims]
    simp only [writeField, length_append, length_cons]
    omega
  decode_encode := readHex_writeHex
  dot_not_mem_encode bytes := by
    have hdot (n : Nat) : '.' ≠ Nat.digitChar n := (Nat.digitChar_ne '.' (by decide)).symm
    simp [writeHex, hdot]
  le_length_encode bytes := by
    have hlength : (writeHex bytes).length = bytes.length * 2 := by simp [writeHex]
    omega

end Tarit.Shares
