import Tarit.Net.Text

/-!
# Validation of the effective policies

Before a tap comes up, the provisioner reads its three chains back and refuses unless every rule is
one it knows, tagged for an allocation that is active, and every allocation has just the rules of
its policy, in an order that puts the guards before the accepts and those before the final drop.
-/
namespace Tarit.Net

open Lib Fleet

/-! ## Allocations and policies -/

structure NetAlloc where
  idx : ℕ
  vm : Uuid
  tap : List Char
  guestIp : List Char
  deriving DecidableEq

def poolSlots : ℕ := 16384

/-- The second address but one of the /30 of the slot. -/
def NetAlloc.forSlot (vm : Uuid) (idx : ℕ) : Option NetAlloc :=
  if idx ≥ poolSlots then none
  else some ⟨idx, vm, tapName idx, "172.16.".toList ++ Nat.toDigits 10 (idx * 4 / 256 % 256) ++
    '.' :: Nat.toDigits 10 (idx * 4 % 256 + 2)⟩

structure EgressPolicy where
  allowlist : List (List Char)
  allowExisting : Bool
  deriving DecidableEq

inductive Chain where
  | post | vmEgress | vmInput
  deriving DecidableEq

inductive SecurityRuleRole where
  | ForwardSourceGuard | ForwardLateralGuard | ForwardLinkLocalGuard | ForwardUplinkGuard
  | InputSourceGuard | InputStateful | InputDeny
  | EgressStateful | EgressAllow | EgressDeny
  | Quarantine
  deriving DecidableEq

inductive Refusal where
  | badEntry (entry : List Char)
  | invalidTaggedRule (chain : Chain)
  | unrecognizedRule (chain : Chain)
  | malformedRule (chain : Chain)
  | invalidRule (chain : Chain)
  | inactiveAllocation (chain : Chain) (tap : List Char)
  | misordered (chain : Chain) (tap : List Char)
  | notExactlyOne (tap : List Char) (role : SecurityRuleRole)
  | duplicateAllow (tap entry : List Char)
  | unpersistedRules (chain : Chain) (tap : List Char)
  | noMasquerade (tap : List Char)
  deriving DecidableEq

/-- The parsers of the libraries: UUIDs, IPv4 addresses and IPv4 networks. -/
structure Parsers where
  uuid : List Char → Option Uuid
  addr : List Char → Option Ipv4Addr
  net : List Char → Option Ipv4Net

inductive Proto where
  | tcp | udp
  deriving DecidableEq

def Proto.word : Proto → Word
  | tcp => .tcp
  | udp => .udp

def parseIpv4EgressCidr (parse : Parsers) (cidr : List Char) : Option Ipv4Net :=
  match parse.addr cidr with
  | some a => some ⟨a, 32⟩
  | none => (parse.net cidr).map Ipv4Net.trunc

/-- The port and the protocol after the colon of an entry; tcp if none is named. -/
def parsePort (text : List Char) : Option (Proto × ℕ) :=
  let named := match splitOnce '/' text with
    | some (port, proto) =>
      if proto = "tcp".toList then some (port, Proto.tcp)
      else if proto = "udp".toList then some (port, Proto.udp)
      else none
    | none => some (text, Proto.tcp)
  named.bind fun (port, proto) =>
    (parseUnsigned (2 ^ 16) port).bind fun port => if port = 0 then none else some (proto, port)

/-- `parse_egress_entry`, of `cidr[:port[/proto]]`. -/
def parseEgressEntry (parse : Parsers) (entry : List Char) :
    Except Refusal (Ipv4Net × Option (Proto × ℕ)) :=
  if entry.isEmpty || entry.contains '[' || entry.contains ']' || entry.count ':' > 1 then
    .error (.badEntry entry)
  else
    match splitOnce ':' entry with
    | none =>
      match parseIpv4EgressCidr parse entry with
      | none => .error (.badEntry entry)
      | some net => .ok (net, none)
    | some (cidr, port) =>
      if cidr.isEmpty then .error (.badEntry entry)
      else
        match parseIpv4EgressCidr parse cidr, parsePort port with
        | some net, some port => .ok (net, some port)
        | _, _ => .error (.badEntry entry)

/-! ## Rule texts -/

def tapWord (tap : List Char) : Word := Word.read (nftQuote tap)

def sourceGuard (tap guest : Word) : List Word :=
  [.iifname, tap, .ip, .saddr, .ne, guest, .counter, .drop]

def daddrGuard (tap guest : Word) (cidr : String) : List Word :=
  [.iifname, tap, .ip, .saddr, guest, .ip, .daddr, Word.read cidr.toList, .drop]

def poolCidr : String := "172.16.0.0/16"

def linkLocalCidr : String := "169.254.0.0/16"

def uplinkGuard (tap guest uplink : Word) : List Word :=
  [.iifname, tap, .ip, .saddr, guest, .oifname, .ne, uplink, .drop]

def egressStateful (tap guest : Word) : List Word :=
  [.iifname, tap, .ip, .saddr, guest, .ct, .state, .established, .accept]

def egressDeny (tap guest : Word) : List Word := [.iifname, tap, .ip, .saddr, guest, .drop]

def inputStateful (tap : Word) : List Word := [.iifname, tap, .ct, .state, .established, .accept]

def dropAll (tap : Word) : List Word := [.iifname, tap, .drop]

/-- `compile_host_egress_rule`, up to the comment. -/
def compileHostEgressRule (parse : Parsers) (alloc : NetAlloc) (entry : List Char) :
    Except Refusal (List Word) :=
  (parseEgressEntry parse entry).map fun (net, port) =>
    [.iifname, tapWord (tapName alloc.idx), .ip, .saddr, Word.read alloc.guestIp, .ip, .daddr,
        Word.read (showNet net)] ++
      (match port with
        | some (proto, port) => [proto.word, .dport, Word.read (Nat.toDigits 10 port)]
        | none => []) ++ [.accept]

/-! ## Recognised rules -/

def Word.text : Word → List Char
  | .other text => text
  | word => match keywords.find? fun keyword => keyword.2 == word with
    | some (spelling, _) => spelling.toList
    | none => []

def quoted (text : List Char) : Bool :=
  text.head? = some '"' && text.getLast? = some '"' && text.length > 2

def validAnyUplinkGuardRule (rule : List Word) (tap guest : Word) : Bool :=
  match rule with
  | [.iifname, interface, .ip, .saddr, source, .oifname, .ne, uplink, .drop] =>
    interface = tap && source = guest && quoted uplink.text
  | _ => false

def validUplinkGuardRule (rule : List Word) (tap guest : Word) (uplink : List Char) : Bool :=
  validAnyUplinkGuardRule rule tap guest && rule[7]? = some (Word.read (nftQuote uplink))

def validMasqueradeRule (rule : List Word) (tap guest : Word) : Bool :=
  match rule with
  | [.iifname, interface, .ip, .saddr, source, .oifname, uplink, .masquerade] =>
    interface = tap && source = guest && quoted uplink.text
  | _ => false

def validMasqueradeRuleForUplink (rule : List Word) (tap guest : Word) (uplink : List Char) :
    Bool :=
  validMasqueradeRule rule tap guest && rule[6]? = some (Word.read (nftQuote uplink))

def validEgressAllowRule (parse : Parsers) (rule : List Word) (tap guest : Word) : Bool :=
  match rule with
  | [.iifname, interface, .ip, .saddr, source, .ip, .daddr, cidr, .accept] =>
    interface = tap && source = guest && (parseIpv4EgressCidr parse cidr.text).isSome
  | [.iifname, interface, .ip, .saddr, source, .ip, .daddr, cidr, proto, .dport, port, .accept] =>
    (proto = .tcp || proto = .udp) && interface = tap && source = guest &&
      (parseIpv4EgressCidr parse cidr.text).isSome &&
      (parseUnsigned (2 ^ 16) port.text).any (· ≠ 0)
  | _ => false

/-- `valid_taritd_security_rule`: the role of a rule of a chain. -/
def validTaritdSecurityRule (parse : Parsers) (chain : Chain) (rule : List Word) (tag : RuleTag) :
    Option SecurityRuleRole :=
  match NetAlloc.forSlot tag.vm tag.slot with
  | none => none
  | some alloc =>
    let tap := tapWord tag.tap
    let guest := Word.read alloc.guestIp
    match chain, tag.kind with
    | _, .RecoveryQuarantine => if rule = dropAll tap then some .Quarantine else none
    | .vmEgress, .EgressUpdateQuarantine => if rule = dropAll tap then some .Quarantine else none
    | .vmEgress, .Guard =>
      if rule = sourceGuard tap guest then some .ForwardSourceGuard
      else if rule = daddrGuard tap guest poolCidr then some .ForwardLateralGuard
      else if rule = daddrGuard tap guest linkLocalCidr then some .ForwardLinkLocalGuard
      else if validAnyUplinkGuardRule rule tap guest then some .ForwardUplinkGuard
      else none
    | .vmInput, .Input =>
      if rule = sourceGuard tap guest then some .InputSourceGuard
      else if rule = inputStateful tap then some .InputStateful
      else if rule = dropAll tap then some .InputDeny
      else none
    | .vmEgress, .Egress =>
      if rule = egressStateful tap guest then some .EgressStateful
      else if rule = egressDeny tap guest then some .EgressDeny
      else if validEgressAllowRule parse rule tap guest then some .EgressAllow
      else none
    | _, _ => none

def isRecognizedTaritdRule (parse : Parsers) (chain : Chain) (line : Line) : Bool :=
  match line.tag, line.rule with
  | some tag, some rule =>
    match chain with
    | .post =>
      match NetAlloc.forSlot tag.vm tag.slot with
      | none => false
      | some alloc =>
        tag.kind = .Nat && validMasqueradeRule rule (tapWord tag.tap) (Word.read alloc.guestIp)
    | _ => (validTaritdSecurityRule parse chain rule tag).isSome
  | _, _ => false

/-! ## Chains -/

section Loops

variable {α β : Type}

/-- A loop that stops at the first refusal. -/
def checkAll (f : α → Except Refusal Unit) : List α → Except Refusal Unit
  | [] => .ok ()
  | x :: xs => do
    f x
    checkAll f xs

def collect (f : α → Except Refusal β) : List α → Except Refusal (List β)
  | [] => .ok []
  | x :: xs => do
    let y ← f x
    let ys ← collect f xs
    pure (y :: ys)

def refuseIf (b : Bool) (refusal : Refusal) : Except Refusal Unit :=
  if b then .error refusal else .ok ()

end Loops

def validateTaritdNatChain (parse : Parsers) (listing : List Line) : Except Refusal Unit :=
  checkAll (fun line =>
    refuseIf (line.tagged && !isRecognizedTaritdRule parse .post line)
      (.invalidTaggedRule .post)) listing

def guardRoles : List SecurityRuleRole :=
  [.ForwardSourceGuard, .ForwardLateralGuard, .ForwardLinkLocalGuard, .ForwardUplinkGuard]

/-- The first position of a rule with one of the roles, and the last one. -/
def firstOf (rules : List (ℕ × SecurityRuleRole)) (roles : List SecurityRuleRole) : Option ℕ :=
  ((rules.filter fun rule => roles.contains rule.2).map Prod.fst).min?

def lastOf (rules : List (ℕ × SecurityRuleRole)) (roles : List SecurityRuleRole) : Option ℕ :=
  ((rules.filter fun rule => roles.contains rule.2).map Prod.fst).max?

/-- Both are there, and the first one comes after the second one. -/
def follows : Option ℕ → Option ℕ → Bool
  | some a, some b => a > b
  | _, _ => false

def validateSecurityRuleOrder (chain : Chain) (tap : List Char)
    (rules : List (ℕ × SecurityRuleRole)) : Except Refusal Unit :=
  match chain with
  | .vmInput => do
    refuseIf (follows (lastOf rules [.InputSourceGuard]) (firstOf rules [.InputStateful]))
      (.misordered chain tap)
    refuseIf (follows (lastOf rules [.InputStateful]) (firstOf rules [.InputDeny]))
      (.misordered chain tap)
  | _ => do
    refuseIf (follows (lastOf rules guardRoles) (firstOf rules [.EgressStateful, .EgressAllow]))
      (.misordered chain tap)
    refuseIf (follows (firstOf rules [.EgressStateful]) (firstOf rules [.EgressAllow]))
      (.misordered chain tap)
    refuseIf (follows (lastOf rules [.EgressAllow]) (firstOf rules [.EgressDeny]))
      (.misordered chain tap)

/-- The tap, the position and the role of a rule. -/
def readManaged (parse : Parsers) (chain : Chain) (entry : Line × ℕ) :
    Except Refusal (List Char × ℕ × SecurityRuleRole) :=
  match entry.1.tag with
  | none => .error (.unrecognizedRule chain)
  | some tag =>
    match entry.1.rule with
    | none => .error (.malformedRule chain)
    | some rule =>
      match validTaritdSecurityRule parse chain rule tag with
      | none => .error (.invalidRule chain)
      | some role => .ok (tag.tap, entry.2, role)

def validateTaritdSecurityChain (parse : Parsers) (chain : Chain) (listing : List Line) :
    Except Refusal Unit := do
  let rules ← collect (readManaged parse chain)
    (listing.zipIdx.filter fun entry => !entry.1.structural)
  checkAll (fun tap => validateSecurityRuleOrder chain tap
    ((rules.filter fun rule => rule.1 == tap).map Prod.snd)) (rules.map Prod.fst).dedup

/-! ## Allocations -/

def RuleTag.isFor (tag : RuleTag) (alloc : NetAlloc) : Bool :=
  tag.slot = alloc.idx && tag.vm = alloc.vm && tag.tap = alloc.tap

def Line.isFor (line : Line) (alloc : NetAlloc) : Bool := line.tag.any fun tag => tag.isFor alloc

/-- A rule of an allocation: its position, its role and its words. -/
structure ManagedRule where
  index : ℕ
  role : SecurityRuleRole
  rule : List Word

def allocationRule (parse : Parsers) (chain : Chain) (entry : Line × ℕ) :
    Except Refusal ManagedRule :=
  match entry.1.tag, entry.1.rule with
  | some tag, some rule =>
    match validTaritdSecurityRule parse chain rule tag with
    | none => .error (.invalidRule chain)
    | some role => .ok ⟨entry.2, role, rule⟩
  | _, _ => .error (.malformedRule chain)

def allocationRules (parse : Parsers) (chain : Chain) (listing : List Line) (alloc : NetAlloc) :
    Except Refusal (List ManagedRule) :=
  collect (allocationRule parse chain) (listing.zipIdx.filter fun entry => entry.1.isFor alloc)

/-- The position of the one rule that `p` selects. -/
def exactlyOne (alloc : NetAlloc) (role : SecurityRuleRole) (rules : List ManagedRule)
    (p : ManagedRule → Bool) : Except Refusal ℕ :=
  match rules.filter p with
  | [rule] => .ok rule.index
  | _ => .error (.notExactlyOne alloc.tap role)

def exactlyOneRule (alloc : NetAlloc) (rules : List ManagedRule) (role : SecurityRuleRole)
    (expected : List Word) : Except Refusal ℕ :=
  exactlyOne alloc role rules fun rule => rule.role = role && rule.rule = expected

def guardPosition (alloc : NetAlloc) (uplink : List Char) (rules : List ManagedRule)
    (role : SecurityRuleRole) : Except Refusal ℕ :=
  let tap := tapWord alloc.tap
  let guest := Word.read alloc.guestIp
  match role with
  | .ForwardUplinkGuard => exactlyOne alloc role rules fun rule =>
      rule.role = role && validUplinkGuardRule rule.rule tap guest uplink
  | .ForwardLateralGuard => exactlyOneRule alloc rules role (daddrGuard tap guest poolCidr)
  | .ForwardLinkLocalGuard => exactlyOneRule alloc rules role (daddrGuard tap guest linkLocalCidr)
  | _ => exactlyOneRule alloc rules role (sourceGuard tap guest)

/-- The texts of the allowed entries, none of them twice. -/
def expectedAllows (parse : Parsers) (alloc : NetAlloc) :
    List (List Char) → List (List Word) → Except Refusal (List (List Word))
  | [], _ => .ok []
  | entry :: entries, seen => do
    let expected ← compileHostEgressRule parse alloc entry
    refuseIf (seen.contains expected) (.duplicateAllow alloc.tap entry)
    let rest ← expectedAllows parse alloc entries (expected :: seen)
    pure (expected :: rest)

def statefulPosition (alloc : NetAlloc) (policy : EgressPolicy) (rules : List ManagedRule) :
    Except Refusal (Option ℕ) :=
  if policy.allowExisting then
    (exactlyOneRule alloc rules .EgressStateful
      (egressStateful (tapWord alloc.tap) (Word.read alloc.guestIp))).map some
  else .ok none

def egressRoles : List SecurityRuleRole :=
  guardRoles ++ [.EgressStateful, .EgressAllow, .EgressDeny]

/-- Two neighbours are out of order. -/
def misorderedPairs : List ℕ → Bool
  | a :: b :: rest => a > b || misorderedPairs (b :: rest)
  | _ => false

def validateCompleteForwardPolicy (parse : Parsers) (alloc : NetAlloc) (policy : EgressPolicy)
    (uplink : List Char) (listing : List Line) : Except Refusal Unit := do
  let rules ← allocationRules parse .vmEgress listing alloc
  let guards ← collect (guardPosition alloc uplink rules) guardRoles
  let expected ← expectedAllows parse alloc policy.allowlist []
  let stateful ← statefulPosition alloc policy rules
  let allows ← collect (exactlyOneRule alloc rules .EgressAllow) expected
  let deny ← exactlyOneRule alloc rules .EgressDeny
    (egressDeny (tapWord alloc.tap) (Word.read alloc.guestIp))
  refuseIf ((rules.filter fun rule => egressRoles.contains rule.role).length ≠
    guards.length + stateful.toList.length + allows.length + 1)
      (.unpersistedRules .vmEgress alloc.tap)
  refuseIf ((stateful.toList ++ allows).min?.any (fun accept => guards.any (· > accept)) ||
    guards.any (· > deny)) (.misordered .vmEgress alloc.tap)
  refuseIf (stateful.any fun stateful => allows.any (stateful > ·))
    (.misordered .vmEgress alloc.tap)
  refuseIf (misorderedPairs allows || allows.any (· > deny)) (.misordered .vmEgress alloc.tap)

def validateCompleteMasqueradePolicy (alloc : NetAlloc) (uplink : List Char) (listing : List Line) :
    Except Refusal Unit := do
  let rules ← collect (fun line : Line => match line.rule with
    | none => .error (.malformedRule .post)
    | some rule => .ok rule) (listing.filter fun line => line.isFor alloc)
  match rules with
  | [rule] =>
    refuseIf (!validMasqueradeRuleForUplink rule (tapWord alloc.tap)
      (Word.read alloc.guestIp) uplink)
      (.noMasquerade alloc.tap)
  | _ => .error (.noMasquerade alloc.tap)

def inputRoles : List SecurityRuleRole := [.InputSourceGuard, .InputStateful, .InputDeny]

def validateCompleteInputPolicy (parse : Parsers) (alloc : NetAlloc) (listing : List Line) :
    Except Refusal Unit := do
  let rules ← allocationRules parse .vmInput listing alloc
  let source ← exactlyOneRule alloc rules .InputSourceGuard
    (sourceGuard (tapWord alloc.tap) (Word.read alloc.guestIp))
  let stateful ← exactlyOneRule alloc rules .InputStateful (inputStateful (tapWord alloc.tap))
  let deny ← exactlyOneRule alloc rules .InputDeny (dropAll (tapWord alloc.tap))
  refuseIf ((rules.filter fun rule => inputRoles.contains rule.role).length ≠ 3)
    (.unpersistedRules .vmInput alloc.tap)
  refuseIf (!(source < stateful && stateful < deny)) (.misordered .vmInput alloc.tap)

def validateActive (allocations : List (NetAlloc × EgressPolicy)) (chain : Chain)
    (listing : List Line) : Except Refusal Unit :=
  checkAll (fun line => match line.tag with
    | none => .error (.unrecognizedRule chain)
    | some tag =>
      refuseIf (!allocations.any fun entry => tag.isFor entry.1)
        (.inactiveAllocation chain tag.tap))
    (listing.filter fun line => !line.structural)

def validateCompleteEffectiveSecurityPolicies (parse : Parsers)
    (allocations : List (NetAlloc × EgressPolicy)) (uplink : List Char)
    (nat forward input : List Line) : Except Refusal Unit := do
  validateTaritdNatChain parse nat
  validateTaritdSecurityChain parse .vmEgress forward
  validateTaritdSecurityChain parse .vmInput input
  checkAll (fun (alloc, policy) => do
    validateCompleteMasqueradePolicy alloc uplink nat
    validateCompleteForwardPolicy parse alloc policy uplink forward
    validateCompleteInputPolicy parse alloc input) allocations
  validateActive allocations .post nat
  validateActive allocations .vmEgress forward
  validateActive allocations .vmInput input

end Tarit.Net
