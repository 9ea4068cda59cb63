import Tarit.Lib.Ipv4
import Tarit.Lib.Words
import Tarit.Fleet.Records

/-!
# The text of nft rules

The provisioner reads its rules back from `nft -a list chain`: one rule a line, with a comment that
names the slot, the VM and the tap the rule is for. A line is read as its tag and its words. A word
is a keyword of the rules taritd writes or some other text, and a counter is one word, with or
without its values; so two rule texts are equal just if their words are.
-/
namespace Tarit.Net

open Lib Fleet List Option

/-! ## Words -/

inductive Word where
  | iifname | oifname | ip | saddr | daddr | ne | tcp | udp | dport | ct | state | established
  | counter | accept | drop | masquerade
  | other (text : List Char)
  deriving DecidableEq

def keywords : List (String × Word) :=
  [("iifname", .iifname), ("oifname", .oifname), ("ip", .ip), ("saddr", .saddr), ("daddr", .daddr),
    ("!=", .ne), ("tcp", .tcp), ("udp", .udp), ("dport", .dport), ("ct", .ct), ("state", .state),
    ("established,related", .established), ("counter", .counter), ("accept", .accept),
    ("drop", .drop), ("masquerade", .masquerade)]

def Word.read (text : List Char) : Word :=
  match keywords.find? fun keyword => keyword.1.toList == text with
  | some (_, word) => word
  | none => .other text

/-- The words of a rule; the values of a counter belong to it. -/
def readWords : List (List Char) → List Word
  | word :: packets :: count :: bytes :: size :: rest =>
    if word = "counter".toList && packets = "packets".toList && allDigits count &&
        bytes = "bytes".toList && allDigits size then
      .counter :: readWords rest
    else Word.read word :: readWords (packets :: count :: bytes :: size :: rest)
  | word :: rest => Word.read word :: readWords rest
  | [] => []

/-! ## Tags -/

inductive RuleKind where
  | Nat | Egress | Guard | Input | RecoveryQuarantine | EgressUpdateQuarantine
  deriving DecidableEq

structure RuleTag where
  kind : RuleKind
  slot : ℕ
  vm : Uuid
  tap : List Char
  deriving DecidableEq

def ruleKinds : List (String × RuleKind) :=
  [("taritd-recovery-quarantine ", .RecoveryQuarantine),
    ("taritd-egress-update-quarantine ", .EgressUpdateQuarantine), ("taritd-egress ", .Egress),
    ("taritd-guard ", .Guard), ("taritd-input ", .Input), ("taritd ", .Nat)]

def tapName (slot : ℕ) : List Char := "insta".toList ++ Nat.toDigits 10 slot

def nftHandle (line : List Char) : Option (List Char) :=
  (rsplitOnce "# handle ".toList line).bind fun (_, handle) =>
    let handle := trim handle
    if !handle.isEmpty && allDigits handle then some handle else none

/-- `slot=… vm=… tap=…`; `parseUuid` is `Uuid::parse_str`. -/
def parseFields (parseUuid : List Char → Option Uuid) (kind : RuleKind) (fields : List Char) :
    Option RuleTag :=
  match splitWhitespace fields with
  | [slot, vm, tap] => do
    let slot ← parseUnsigned (2 ^ 32) (← slot.dropPrefix? "slot=".toList)
    let vm ← parseUuid (← vm.dropPrefix? "vm=".toList)
    let tap ← tap.dropPrefix? "tap=".toList
    if tap = tapName slot then some ⟨kind, slot, vm, tap⟩ else none
  | _ => none

def parseTaritdNftRuleTag (parseUuid : List Char → Option Uuid) (line : List Char) :
    Option RuleTag := do
  let (_, comment) ← rsplitOnce " comment \"".toList line
  let (comment, suffix) ← splitOnce '"' comment
  if !(trim suffix).isEmpty && (nftHandle line).isNone then none
  else
    let (kind, fields) ← ruleKinds.findSome? fun (start, kind) =>
      (comment.dropPrefix? start.toList).map fun fields => (kind, fields)
    parseFields parseUuid kind fields

/-- `security_chain_rule_text`: the words before the comment. -/
def securityChainRuleText (line : List Char) : Option (List Word) :=
  (rsplitOnce " comment \"".toList line).map fun (rule, _) => readWords (splitWhitespace rule)

/-! ## Lines -/

/-- What the validation reads of a line. -/
structure Line where
  /-- Blank, or `table`, `chain`, `type` or a closing brace. -/
  structural : Bool
  /-- The line has `comment "taritd`. -/
  tagged : Bool
  tag : Option RuleTag
  rule : Option (List Word)

def Line.read (parseUuid : List Char → Option Uuid) (line : List Char) : Line :=
  let text := trim line
  { structural := text.isEmpty || "table ".toList.isPrefixOf text ||
    "chain ".toList.isPrefixOf text ||
      "type ".toList.isPrefixOf text || text = ['}']
    tagged := hasInfix "comment \"taritd".toList text
    tag := parseTaritdNftRuleTag parseUuid text
    rule := securityChainRuleText text }

theorem parseFields_tap {parseUuid : List Char → Option Uuid} {kind : RuleKind} {fields : List Char}
    {tag : RuleTag} (h : parseFields parseUuid kind fields = some tag) :
    tag.tap = tapName tag.slot := by
  unfold parseFields at h
  split at h
  · simp only [bind_eq_bind, bind_eq_some_iff] at h
    obtain ⟨_, _, slot, _, _, _, vm, _, tap, _, htap⟩ := h
    obtain ⟨heq, ⟨⟩⟩ := ite_none_right_eq_some.mp htap
    exact heq
  · cases h

theorem read_tap {parseUuid : List Char → Option Uuid} {line : List Char} {tag : RuleTag}
    (h : (Line.read parseUuid line).tag = some tag) : tag.tap = tapName tag.slot := by
  have h : parseTaritdNftRuleTag parseUuid (trim line) = some tag := h
  unfold parseTaritdNftRuleTag at h
  simp only [bind_eq_bind, bind_eq_some_iff, ite_none_left_eq_some] at h
  obtain ⟨_, _, _, _, _, _, _, h⟩ := h
  exact parseFields_tap h

/-! ## Names -/

def nftQuote (value : List Char) : List Char :=
  '"' :: (value.flatMap fun c => if c = '\\' ∨ c = '"' then ['\\', c] else [c]) ++ ['"']

theorem flatMap_escape_injective {a b : List Char}
    (h : (a.flatMap fun c => if c = '\\' ∨ c = '"' then ['\\', c] else [c]) =
      b.flatMap fun c => if c = '\\' ∨ c = '"' then ['\\', c] else [c]) : a = b := by
  induction a generalizing b with
  | nil =>
    cases b with
    | nil => rfl
    | cons d b =>
      rw [flatMap_nil, flatMap_cons] at h
      split at h <;> cases h
  | cons c a ih =>
    cases b with
    | nil =>
      rw [flatMap_nil, flatMap_cons] at h
      split at h <;> cases h
    | cons d b =>
      rw [flatMap_cons, flatMap_cons] at h
      split at h
      · split at h
        · injection h with _ h
          injection h with hc h
          rw [hc, ih h]
        · rename_i hc hd
          injection h with hd' _
          exact absurd (.inl hd'.symm) hd
      · split at h
        · rename_i hc hd
          injection h with hc' _
          exact absurd (.inl hc') hc
        · injection h with hc h
          rw [hc, ih h]

theorem nftQuote_injective {a b : List Char} (h : nftQuote a = nftQuote b) : a = b := by
  unfold nftQuote at h
  rw [cons_append, cons_append] at h
  injection h with _ h
  exact flatMap_escape_injective (append_cancel_right h)

theorem read_of_mem {c : Char} {text : List Char} (hc : c ∈ text)
    (h : ∀ keyword ∈ keywords, c ∉ keyword.1.toList) : Word.read text = .other text := by
  unfold Word.read
  rw [List.find?_eq_none.mpr]
  intro keyword hk heq
  rw [← eq_of_beq heq] at hc
  exact h keyword hk hc

theorem tapName_injective {a b : ℕ} (h : tapName a = tapName b) : a = b := by
  have h := append_cancel_left h
  rw [← Nat.ofDigitChars_toDigits (b := 10) (n := a) (by decide) (by decide), h,
    Nat.ofDigitChars_toDigits (by decide) (by decide)]

end Tarit.Net
