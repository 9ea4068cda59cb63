import Tarit.Lib.Bytes
import Tarit.Lib.Words
import Tarit.Node.Records

/-!
# Public keys in the OpenSSH format

A line of `authorized_keys` has the type of the key, a blob in base64 and a comment. The blob is a
row of strings, each after its length in four bytes; the first repeats the type, and the type says
what the others are. A line is accepted only if the strings are what its type asks for and nothing
follows them. Base64, UTF-8 and SHA-256 are those of the libraries.
-/
namespace Tarit.Gateway

open Lib Fleet Node

structure KeyLibraries where
  /-- `general_purpose::STANDARD.decode`, with the text of its error. -/
  base64Decode : List Char → Except String Bytes
  /-- `general_purpose::STANDARD_NO_PAD.encode` -/
  base64Encode : Bytes → List Char
  /-- `String::from_utf8` -/
  fromUtf8 : Bytes → Option String
  sha256 : Bytes → Bytes
  /-- `Uuid::parse_str` -/
  parseStr : String → Option Uuid

structure ParsedPublicKey where
  key_type : String
  blob : Bytes
  deriving DecidableEq

/-! ## Reading a blob -/

/-- `BlobReader`; the state is what is left of the bytes. -/
abbrev BlobReader := StateT Bytes (Except OrchError)

def badKey {α : Type} (message : String) : BlobReader α := throw (.BadRequest message)

def readStringBytes : BlobReader Bytes := do
  match ← get with
  | a :: b :: c :: d :: rest =>
    let len := fromLeBytes [d, c, b, a]
    if rest.length < len then badKey "truncated SSH key blob"
    else
      set (rest.drop len)
      return rest.take len
  | _ => badKey "truncated SSH key blob"

def readMpint (name : String) : BlobReader Bytes := do
  let value ← readStringBytes
  if value.isEmpty then badKey (name ++ " is empty")
  else return value

section Parse

variable (L : KeyLibraries)

def readStringUtf8 : BlobReader String := do
  let bytes ← readStringBytes
  match L.fromUtf8 bytes with
  | none => badKey "SSH key blob contains non-UTF-8 string"
  | some text => return text

/-- A string of 32 bytes, of a key whose type is called `name` in the error. -/
def readEd25519 (name : String) : BlobReader Unit := do
  let key ← readStringBytes
  if key.length ≠ 32 then badKey (name ++ " public key must be 32 bytes")

def readPoint (message : String) : BlobReader Unit := do
  let point ← readStringBytes
  if point.isEmpty then badKey message

def readApplication : BlobReader Unit := do
  let application ← readStringUtf8 L
  if application = "" then badKey "security key application is empty"

def readEcdsa (expected : String) : BlobReader Unit := do
  let curve ← readStringUtf8 L
  if curve ≠ expected then
    badKey ("ECDSA curve mismatch: expected " ++ expected ++ ", got " ++ curve)
  else readPoint "ECDSA public point is empty"

def validateKeyBody (key_type : String) : BlobReader Unit :=
  match key_type with
  | "ssh-ed25519" => readEd25519 "ssh-ed25519"
  | "ssh-rsa" => do
    let _ ← readMpint "rsa exponent"
    let _ ← readMpint "rsa modulus"
  | "ssh-dss" => do
    let _ ← readMpint "dss p"
    let _ ← readMpint "dss q"
    let _ ← readMpint "dss g"
    let _ ← readMpint "dss y"
  | "ecdsa-sha2-nistp256" => readEcdsa L "nistp256"
  | "ecdsa-sha2-nistp384" => readEcdsa L "nistp384"
  | "ecdsa-sha2-nistp521" => readEcdsa L "nistp521"
  | "sk-ssh-ed25519@openssh.com" => do
    readEd25519 "sk-ssh-ed25519"
    readApplication L
  | "sk-ecdsa-sha2-nistp256@openssh.com" => do
    let curve ← readStringUtf8 L
    if curve ≠ "nistp256" then badKey ("security key ECDSA curve mismatch: " ++ curve)
    else
      readPoint "security key ECDSA public point is empty"
      readApplication L
  | _ => badKey ("unsupported SSH key type: " ++ key_type)

/-- A text without its padding is decoded with it. -/
def decodeBase64KeyBlob (key_blob : List Char) : Except OrchError Bytes :=
  let invalid (e : String) : OrchError := .BadRequest ("invalid SSH key base64: " ++ e)
  match L.base64Decode key_blob with
  | .ok blob => .ok blob
  | .error first_err =>
    let missing_padding := (4 - (String.ofList key_blob).utf8ByteSize % 4) % 4
    if missing_padding = 0 then .error (invalid first_err)
    else (L.base64Decode (key_blob ++ List.replicate missing_padding '=')).mapError invalid

def parseOpensshPublicKey (line : String) : Except OrchError ParsedPublicKey :=
  match splitWhitespace line.toList with
  | [] => .error (.BadRequest "missing SSH key type")
  | [_] => .error (.BadRequest "missing SSH key blob")
  | type :: key_blob :: _ => do
    if type.isEmpty || type.contains ',' then throw (.BadRequest "invalid SSH key type")
    let key_type := String.ofList type
    let blob ← decodeBase64KeyBlob L key_blob
    let (blob_type, body) ← (readStringUtf8 L).run blob
    if blob_type ≠ key_type then
      throw (.BadRequest
        ("SSH key type mismatch: line has " ++ key_type ++ ", blob has " ++ blob_type))
    let (_, rest) ← (validateKeyBody L key_type).run body
    if rest ≠ [] then throw (.BadRequest "SSH key blob has trailing bytes")
    return ⟨key_type, blob⟩

def opensshSha256Fingerprint (key_blob : Bytes) : String :=
  "SHA256:" ++ String.ofList (L.base64Encode (L.sha256 key_blob))

end Parse

end Tarit.Gateway
