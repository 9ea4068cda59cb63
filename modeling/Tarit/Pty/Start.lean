import Tarit.Lib.JsonText

/-!
# The START frame of a terminal session

The host writes the size of the terminal and the shell as JSON; the agent in the guest looks for
the keys in the text and decodes the shell by itself. Of the `\u` escapes that the host writes it
makes question marks, and an empty shell is no shell to it. A frame has its type, the length of its
payload and the payload, which is handled here by its characters.
-/
namespace Tarit.Pty

open Lib.JsonText List

def COLS : List Char := ['c', 'o', 'l', 's']

def ROWS : List Char := ['r', 'o', 'w', 's']

def SHELL : List Char := ['s', 'h', 'e', 'l', 'l']

def NULL : List Char := ['n', 'u', 'l', 'l']

/-! ## The host -/

structure PtyStart where
  cols : UInt16
  rows : UInt16
  shell : Option (List Char)

def quoted (key : List Char) : List Char := '"' :: key ++ ['"']

def member (key value rest : List Char) : List Char := quoted key ++ ':' :: (value ++ rest)

def PtyStart.json (start : PtyStart) : List Char :=
  '{' :: member COLS (Nat.toDigits 10 start.cols.toNat) (',' ::
    member ROWS (Nat.toDigits 10 start.rows.toNat) (',' ::
      member SHELL (start.shell.elim NULL fun s => quoted (writeString s)) ['}']))

/-- `serde_json::to_vec`, which writes the fields in order and escapes as `escape` does. -/
structure SerdeJson where
  toVec : PtyStart → List Char
  toVec_eq : ∀ start, toVec start = start.json

/-! ## The agent -/

/-- `strstr`, past what was found. -/
def strstr (needle : List Char) : List Char → Option (List Char)
  | [] => none
  | c :: text =>
    if needle.isPrefixOf (c :: text) then some ((c :: text).drop needle.length)
    else strstr needle text

def isBlank (c : Char) : Bool := c = ' ' || c = '\t' || c = '\r' || c = '\n'

def jsonValueForKey (json key : List Char) : Option (List Char) := do
  let p ← strstr (quoted key) json
  match p.dropWhile (· ≠ ':') with
  | [] => none
  | _ :: p => some (p.dropWhile isBlank)

/-- `isspace` -/
def isSpace (c : Char) : Bool := isBlank c || c = '\x0b' || c = '\x0c'

/-- `strtoul` in base 10, and `none` if it reads no digit. A number with a minus is negated as an
`unsigned long`. -/
def strtoul (p : List Char) : Option Nat :=
  let p := p.dropWhile isSpace
  let negative := p.head? = some '-'
  let digits := if negative ∨ p.head? = some '+' then p.tail else p
  (readNat digits).map fun (v, _) =>
    if v ≥ UInt64.size then UInt64.size - 1
    else if negative then (UInt64.size - v) % UInt64.size else v

def jsonGetU16 (json key : List Char) : Option Nat := do
  let p ← jsonValueForKey json key
  let v ← strtoul p
  if v > 65535 then none else some v

def isHexDigit (c : Char) : Bool :=
  c.isDigit || ('a' ≤ c && c ≤ 'f') || ('A' ≤ c && c ≤ 'F')

/-- The text up to a quote, and whether it ends after a backslash. `escaped` is after a backslash,
and of the digits after a `\u` so many are still skipped. -/
def decodeShell (digits : Nat) (escaped : Bool) : List Char → List Char × Bool
  | [] => ([], escaped)
  | c :: text =>
    let put (c : Char) (r : List Char × Bool) := (c :: r.1, r.2)
    if escaped then
      if c = 'u' then put '?' (decodeShell 4 false text)
      else put ((unescape c).getD c) (decodeShell 0 false text)
    else if digits ≠ 0 ∧ isHexDigit c then decodeShell (digits - 1) false text
    else if c = '"' then ([], false)
    else if c = '\\' then decodeShell 0 true text
    else put c (decodeShell 0 false text)

def jsonGetShell (json : List Char) : Option (List Char) := do
  let p ← jsonValueForKey json SHELL
  if NULL.isPrefixOf p then none
  else if p.head? ≠ some '"' then none
  else
    -- only a text that goes on to its end is given up if it is empty
    match decodeShell 0 false p.tail with
    | ([], false) => none
    | (shell, _) => some shell

/-- `handle_pty_client`: columns and rows that are not found are 80 and 24. -/
def extracted (json : List Char) : Nat × Nat × Option (List Char) :=
  ((jsonGetU16 json COLS).getD 80, (jsonGetU16 json ROWS).getD 24, jsonGetShell json)

/-! ## What is extracted -/

/-- The characters that are written as `\u` escapes. -/
def lossy (c : Char) : Bool := c.toNat < 32 && c ∉ ['\n', '\r', '\t', '\x08', '\x0c']

/-- What the agent makes of a character. -/
def decoded (c : Char) : Char := if lossy c then '?' else c

theorem decoded_eq_iff {c : Char} : decoded c = c ↔ lossy c = false := by
  unfold decoded
  constructor
  · intro heq
    by_contra hlossy
    rw [if_pos (Bool.of_not_eq_false hlossy)] at heq
    exact hlossy (heq ▸ rfl)
  · intro hplain
    rw [hplain]
    rfl

theorem isHexDigit_digitChar : ∀ n < 16, isHexDigit (Nat.digitChar n) = true := by decide

theorem decodeShell_escape (c : Char) (text : List Char) :
    decodeShell 0 false (escape c ++ text) =
      (decoded c :: (decodeShell 0 false text).1, (decodeShell 0 false text).2) := by
  by_cases hshort : c ∈ ['"', '\\', '\n', '\r', '\t', '\x08', '\x0c']
  · simp only [mem_cons, not_mem_nil, or_false] at hshort
    rcases hshort with rfl | rfl | rfl | rfl | rfl | rfl | rfl <;> rfl
  simp only [mem_cons, not_mem_nil, or_false, not_or] at hshort
  obtain ⟨hquote, hslash, hn, hr, ht, hb, hf⟩ := hshort
  simp only [escape, decoded, lossy, hquote, hslash, hn, hr, ht, hb, hf, if_false, mem_cons,
    not_mem_nil, or_false, not_false_eq_true, decide_true, Bool.and_true, decide_eq_true_eq]
  by_cases hcontrol : c.toNat < 32
  · have hhigh := isHexDigit_digitChar (c.toNat / 16) (by omega)
    have hlow := isHexDigit_digitChar (c.toNat % 16) (by omega)
    rw [if_pos hcontrol, if_pos hcontrol]
    simp [decodeShell, hexDigit, hhigh, hlow, isHexDigit.eq_1 '0']
  · rw [if_neg hcontrol, if_neg hcontrol]
    simp [decodeShell, hquote, hslash]

theorem decodeShell_writeString (s rest : List Char) :
    decodeShell 0 false (writeString s ++ '"' :: rest) = (s.map decoded, false) := by
  induction s with
  | nil => rfl
  | cons c s ih =>
    rw [writeString] at ih
    rw [writeString, flatMap_cons, append_assoc, decodeShell_escape, ih, map_cons]

theorem strstr_digits (key text : List Char) (n : Nat) :
    strstr (quoted key) (Nat.toDigits 10 n ++ text) = strstr (quoted key) text := by
  have hdigits := isDigit_of_mem_toDigits (n := n)
  generalize Nat.toDigits 10 n = digits at hdigits
  induction digits with
  | nil => rfl
  | cons d digits ih =>
    have hd : d ≠ '"' := fun h => absurd (hdigits d mem_cons_self) (h ▸ by decide)
    rw [cons_append, strstr, if_neg, ih fun c hc => hdigits c (.tail _ hc)]
    simp [quoted, hd.symm]

theorem isSpace_of_isDigit {c : Char} (h : c.isDigit = true) : isSpace c = false := by
  rw [Bool.eq_false_iff]
  intro hspace
  simp only [isSpace, isBlank, Bool.or_eq_true, decide_eq_true_eq] at hspace
  rcases hspace with ((((rfl | rfl) | rfl) | rfl) | rfl) | rfl <;> exact absurd h (by decide)

/-- A text of digits starts with one. -/
theorem toDigits_eq_cons (n : Nat) : ∃ d ds, Nat.toDigits 10 n = d :: ds ∧ d.isDigit = true := by
  cases hdigits : Nat.toDigits 10 n with
  | nil => exact absurd hdigits Nat.toDigits_ne_nil
  | cons d ds => exact ⟨d, ds, rfl, isDigit_of_mem_toDigits d (hdigits ▸ mem_cons_self)⟩

theorem strtoul_toDigits {n : Nat} {rest : List Char} (h : Ends rest) (hn : n < UInt64.size) :
    strtoul (Nat.toDigits 10 n ++ rest) = some n := by
  have hread := readNat_toDigits n h
  obtain ⟨d, ds, hdigits, hd⟩ := toDigits_eq_cons n
  have hminus : d ≠ '-' := fun h => absurd hd (h ▸ by decide)
  have hplus : d ≠ '+' := fun h => absurd hd (h ▸ by decide)
  rw [hdigits, cons_append] at hread ⊢
  rw [strtoul, dropWhile_cons_of_neg (by rw [isSpace_of_isDigit hd]; decide)]
  simp [hminus, hplus, hread]
  omega

theorem jsonGetU16_of_found {json key rest : List Char} {n : UInt16}
    (h : strstr (quoted key) json = some (':' :: (Nat.toDigits 10 n.toNat ++ ',' :: rest))) :
    jsonGetU16 json key = some n.toNat := by
  have hvalue : jsonValueForKey json key = some (Nat.toDigits 10 n.toNat ++ ',' :: rest) := by
    obtain ⟨d, ds, hdigits, hd⟩ := toDigits_eq_cons n.toNat
    have hblank : isBlank d = false := by
      have hspace := isSpace_of_isDigit hd
      simp only [isSpace, Bool.or_eq_false_iff] at hspace
      exact hspace.1.1
    rw [jsonValueForKey, h, hdigits]
    exact congrArg some (dropWhile_cons_of_neg (by rw [hblank]; decide))
  have hends : Ends (',' :: rest) := fun c hc => by cases hc; rfl
  have hn := n.toNat_lt
  have hlong : n.toNat < UInt64.size := Nat.lt_trans hn (by decide)
  rw [jsonGetU16, hvalue, Option.bind_eq_bind, Option.bind_some, strtoul_toDigits hends hlong,
    Option.bind_eq_bind, Option.bind_some]
  exact if_neg (by omega)

theorem extracted_eq (start : PtyStart) :
    extracted start.json = (start.cols.toNat, start.rows.toNat, start.shell.bind fun s =>
      if s.map decoded = [] then none else some (s.map decoded)) := by
  have hcols : jsonGetU16 start.json COLS = some start.cols.toNat := jsonGetU16_of_found rfl
  have hrows : jsonGetU16 start.json ROWS = some start.rows.toNat :=
    jsonGetU16_of_found (strstr_digits ROWS _ _)
  have hshell : strstr (quoted SHELL) start.json =
      some (':' :: (start.shell.elim NULL (fun s => quoted (writeString s)) ++ ['}'])) :=
    (strstr_digits SHELL _ _).trans (strstr_digits SHELL _ _)
  rw [extracted, hcols, hrows, jsonGetShell, jsonValueForKey, hshell]
  cases start.shell with
  | none => rfl
  | some s =>
    have hquoted : quoted (writeString s) ++ ['}'] = '"' :: (writeString s ++ '"' :: ['}']) := by
      simp [quoted]
    have hdecoded := decodeShell_writeString s ['}']
    rw [Option.elim_some, hquoted]
    show (_, _, match decodeShell 0 false (writeString s ++ '"' :: ['}']) with
      | ([], false) => none
      | (shell, _) => some shell) = _
    rw [hdecoded]
    cases s <;> rfl

/-- The agent extracts what the host put in just if the shell, where there is one, is not empty and
has no control characters but those with a short escape. -/
theorem start_extracted_iff (J : SerdeJson) (start : PtyStart) :
    extracted (J.toVec start) = (start.cols.toNat, start.rows.toNat, start.shell) ↔
      ∀ s, start.shell = some s → s ≠ [] ∧ ∀ c ∈ s, lossy c = false := by
  rw [J.toVec_eq, extracted_eq, Prod.mk.injEq, Prod.mk.injEq]
  cases start.shell with
  | none => simp
  | some s =>
    have hmap := map_inj_left (l := s) (f := decoded) (g := id)
    simp only [map_id, id, decoded_eq_iff] at hmap
    simp [← hmap]

def serdeJson : SerdeJson := ⟨PtyStart.json, fun _ => rfl⟩

/-- An escape character arrives as a question mark, and an empty shell not at all. -/
theorem escape_character_lost :
    extracted (serdeJson.toVec ⟨80, 24, some ['\x1b']⟩) = (80, 24, some ['?']) ∧
      extracted (serdeJson.toVec ⟨80, 24, some []⟩) = (80, 24, none) := by
  decide

end Tarit.Pty
