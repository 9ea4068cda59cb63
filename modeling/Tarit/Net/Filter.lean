import Tarit.Lib.Fallible
import Tarit.Net.Policies

/-!
# Packets under validated policies

A chain of nft takes a packet through its rules in order, and the first rule whose matches all hold
decides. `evaluate` reads the rules from the same listing as the validation does; it gives no
verdict where it meets words it cannot read.

If the validation accepts a listing, a packet from the tap of a VM that the forward chain does not
drop is one of the VM's own, for a destination that its policy allows.
-/
namespace Tarit.Net

open Lib Fleet List Option Bool

/-! ## Evaluation -/

inductive Transport where
  | tcp (dport : ℕ) | udp (dport : ℕ) | other
  deriving DecidableEq

structure Packet where
  iif : List Char
  oif : List Char
  src : Ipv4Addr
  dst : Ipv4Addr
  transport : Transport
  /-- Of an established or related flow. -/
  established : Bool

inductive Verdict where
  | accept | drop
  deriving DecidableEq

def Packet.goesTo (p : Packet) (proto : Proto) (port : ℕ) : Bool :=
  match p.transport, proto with
  | .tcp dport, .tcp => dport = port
  | .udp dport, .udp => dport = port
  | _, _ => false

def readPort (text : List Char) : Option ℕ :=
  match JsonText.readNat text with
  | some (port, []) => some port
  | _ => none

/-- The rest of a rule decides only if the match holds. -/
def provided (holds : Bool) (rest : Option (Option Verdict)) : Option (Option Verdict) :=
  if holds then rest else some none

/-- The verdict of a rule, if all its matches hold; `none` where it cannot be read. -/
def outcome (p : Packet) : List Word → Option (Option Verdict)
  | [] => some none
  | .iifname :: name :: rest => provided (tapWord p.iif = name) (outcome p rest)
  | .oifname :: .ne :: name :: rest => provided (tapWord p.oif ≠ name) (outcome p rest)
  | .ip :: .saddr :: .ne :: net :: rest =>
    (readNet net.text).bind fun net => provided (!net.contains p.src) (outcome p rest)
  | .ip :: .saddr :: net :: rest =>
    (readNet net.text).bind fun net => provided (net.contains p.src) (outcome p rest)
  | .ip :: .daddr :: net :: rest =>
    (readNet net.text).bind fun net => provided (net.contains p.dst) (outcome p rest)
  | .tcp :: .dport :: port :: rest =>
    (readPort port.text).bind fun port => provided (p.goesTo .tcp port) (outcome p rest)
  | .udp :: .dport :: port :: rest =>
    (readPort port.text).bind fun port => provided (p.goesTo .udp port) (outcome p rest)
  | .ct :: .state :: .established :: rest => provided p.established (outcome p rest)
  | .counter :: rest => outcome p rest
  | .accept :: _ => some (some .accept)
  | .drop :: _ => some (some .drop)
  | _ => none

def Line.outcome (p : Packet) (line : Line) : Option (Option Verdict) :=
  if line.structural then some none else line.rule.bind (Net.outcome p)

/-- The verdict of a chain with the policy accept. -/
def evaluate (p : Packet) : List Line → Option Verdict
  | [] => some .accept
  | line :: rest =>
    match line.outcome p with
    | some none => evaluate p rest
    | some (some v) => some v
    | none => none

/-- What a rule does that can only drop. -/
def Mild (r : Option (Option Verdict)) : Prop := r = some none ∨ r = some (some .drop)

/-- A packet that is not dropped passes rules until one decides that could not drop it, or all. -/
theorem evaluate_ne_drop {p : Packet} {lines : List Line} (h : evaluate p lines ≠ some .drop) :
    ∃ n, (∀ i < n, ∀ line : Line, lines[i]? = some line → line.outcome p = some none) ∧
      (lines.length ≤ n ∨ ∃ line : Line, lines[n]? = some line ∧ ¬ Mild (line.outcome p)) := by
  induction lines with
  | nil => exact ⟨0, fun i hi => absurd hi (Nat.not_lt_zero i), .inl (Nat.le_refl 0)⟩
  | cons line lines ih =>
    by_cases hnext : line.outcome p = some none
    · have hrest : evaluate p lines ≠ some .drop := by
        simpa [evaluate, hnext] using h
      obtain ⟨n, hpass, hend⟩ := ih hrest
      refine ⟨n + 1, fun i hi earlier he => ?_, hend.imp Nat.succ_le_succ id⟩
      cases i with
      | zero =>
        cases he
        exact hnext
      | succ i => exact hpass i (Nat.lt_of_succ_lt_succ hi) earlier he
    · refine ⟨0, fun i hi => absurd hi (Nat.not_lt_zero i), .inr ⟨line, rfl, ?_⟩⟩
      rintro (hnone | hdrop)
      · exact hnext hnone
      · exact h (by simp [evaluate, hdrop])

/-! ## What the rules do -/

section Rules

variable {p : Packet} {rest : List Word} {r : Option (Option Verdict)} {b : Bool} {a : Ipv4Addr}

theorem Mild.provided (h : Mild r) : Mild (Net.provided b r) := by
  unfold Net.provided
  split
  · exact h
  · exact .inl rfl

theorem mild_drop : Mild (some (some .drop)) := .inr rfl

theorem provided_eq_none : provided b r = some none ↔ (b = true → r = some none) := by
  unfold provided
  split <;> simp_all

theorem of_not_mild (h : ¬ Mild (provided b r)) : b = true ∧ ¬ Mild r := by
  refine ⟨?_, fun hr => h hr.provided⟩
  by_contra hb
  exact h (.inl (provided_eq_none.mpr fun hb' => absurd hb' hb))

theorem text_read (text : List Char) : (Word.read text).text = text := by
  unfold Word.read
  split
  · rename_i spelling word hfind
    have hmem := mem_of_find?_eq_some hfind
    have hbeq := List.find?_some hfind
    have htext : spelling.toList = text := eq_of_beq hbeq
    have hall : ∀ keyword ∈ keywords, keyword.2.text = keyword.1.toList := by decide
    exact (hall _ hmem).trans htext
  · rfl

theorem read_injective {a b : List Char} (h : Word.read a = Word.read b) : a = b := by
  rw [← text_read a, h, text_read]

theorem read_showAddr : Word.read (showAddr a) = .other (showAddr a) :=
  read_of_mem (c := '.') (by simp [showAddr]) (by decide)

theorem contains_host (b : Ipv4Addr) : (⟨a, 32⟩ : Ipv4Net).contains b = decide (b = a) := by
  unfold Ipv4Net.contains
  simp [Fin.ext_iff, BEq.beq]

theorem outcome_saddr :
    outcome p (.ip :: .saddr :: Word.read (showAddr a) :: rest) =
      provided (p.src = a) (outcome p rest) := by
  rw [read_showAddr]
  show (readNet (showAddr a)).bind _ = _
  rw [readNet_showAddr, bind_some, contains_host]

theorem outcome_saddrNe :
    outcome p (.ip :: .saddr :: .ne :: Word.read (showAddr a) :: rest) =
      provided (p.src ≠ a) (outcome p rest) := by
  show (readNet (Word.read (showAddr a)).text).bind _ = _
  rw [text_read, readNet_showAddr, bind_some, contains_host, decide_not]

theorem outcome_daddr (net : Ipv4Net) :
    outcome p (.ip :: .daddr :: Word.read (showNet net) :: rest) =
      provided (net.contains p.dst) (outcome p rest) := by
  show (readNet (Word.read (showNet net)).text).bind _ = _
  rw [text_read, readNet_showNet, bind_some]

theorem outcome_dport (proto : Proto) (port : ℕ) :
    outcome p (proto.word :: .dport :: Word.read (Nat.toDigits 10 port) :: rest) =
      provided (p.goesTo proto port) (outcome p rest) := by
  have hnil : JsonText.Ends [] := nofun
  have hread := JsonText.readNat_toDigits port hnil
  rw [append_nil] at hread
  have hport : readPort (Word.read (Nat.toDigits 10 port)).text = some port := by
    rw [text_read, readPort, hread]
  cases proto with
  | tcp | udp =>
    show (readPort (Word.read (Nat.toDigits 10 port)).text).bind _ = _
    rw [hport, bind_some]

variable {tap : Word} {guest : Ipv4Addr}

theorem outcome_sourceGuard : outcome p (sourceGuard tap (Word.read (showAddr guest))) =
    provided (tapWord p.iif = tap) (provided (p.src ≠ guest) (some (some .drop))) := by
  show provided _ (outcome p (.ip :: .saddr :: .ne :: _ :: _)) = _
  rw [outcome_saddrNe]
  rfl

theorem outcome_from (rest : List Word) :
    outcome p (.iifname :: tap :: .ip :: .saddr :: Word.read (showAddr guest) :: rest) =
      provided (tapWord p.iif = tap) (provided (p.src = guest) (outcome p rest)) := by
  show provided _ (outcome p (.ip :: .saddr :: _ :: _)) = _
  rw [outcome_saddr]

theorem outcome_daddrGuard {cidr : String} {net : Ipv4Net} (hcidr : cidr.toList = showNet net) :
    outcome p (daddrGuard tap (Word.read (showAddr guest)) cidr) =
      provided (tapWord p.iif = tap) (provided (p.src = guest)
        (provided (net.contains p.dst) (some (some .drop)))) := by
  rw [daddrGuard, hcidr, outcome_from, outcome_daddr]
  rfl

end Rules

/-- What an entry of an allowlist allows. -/
def Packet.matchesEntry (parse : Parsers) (p : Packet) (entry : List Char) : Bool :=
  match parseEgressEntry parse entry with
  | .ok (net, none) => net.contains p.dst
  | .ok (net, some (proto, port)) => net.contains p.dst && p.goesTo proto port
  | .error _ => false

def poolNet : Ipv4Net := ⟨Fin.ofNat _ 2886729728, 16⟩

def linkLocalNet : Ipv4Net := ⟨Fin.ofNat _ 2851995648, 16⟩

theorem poolCidr_eq : poolCidr.toList = showNet poolNet := by decide

theorem linkLocalCidr_eq : linkLocalCidr.toList = showNet linkLocalNet := by decide

def guestAddr (idx : ℕ) : Ipv4Addr := Fin.ofNat _ (2886729728 + idx * 4 + 2)

theorem forSlot_eq {vm : Uuid} {idx : ℕ} {alloc : NetAlloc}
    (h : NetAlloc.forSlot vm idx = some alloc) :
    alloc = ⟨idx, vm, tapName idx, showAddr (guestAddr idx)⟩ := by
  obtain ⟨hidx, ⟨⟩⟩ := ite_none_left_eq_some.mp h
  have hidx : idx < 16384 := Nat.lt_of_not_ge hidx
  have hval : (guestAddr idx).val = 2886729728 + idx * 4 + 2 := by
    show (2886729728 + idx * 4 + 2) % 2 ^ 32 = _
    omega
  have h₁ : (2886729728 + idx * 4 + 2) / 16777216 = 172 := by omega
  have h₂ : (2886729728 + idx * 4 + 2) / 65536 % 256 = 16 := by omega
  have h₃ : (2886729728 + idx * 4 + 2) / 256 % 256 = idx * 4 / 256 % 256 := by omega
  have h₄ : (2886729728 + idx * 4 + 2) % 256 = idx * 4 % 256 + 2 := by omega
  unfold showAddr
  rw [hval, h₁, h₂, h₃, h₄]
  rfl

/-- The recognised rules of each role; an allow is known by its start only. -/
inductive Shape (tap guest : Word) : Chain → SecurityRuleRole → List Word → Prop where
  | source : Shape tap guest .vmEgress .ForwardSourceGuard (sourceGuard tap guest)
  | lateral : Shape tap guest .vmEgress .ForwardLateralGuard (daddrGuard tap guest poolCidr)
  | linkLocal : Shape tap guest .vmEgress .ForwardLinkLocalGuard
      (daddrGuard tap guest linkLocalCidr)
  | uplink (name : Word) : Shape tap guest .vmEgress .ForwardUplinkGuard
      (uplinkGuard tap guest name)
  | stateful : Shape tap guest .vmEgress .EgressStateful (egressStateful tap guest)
  | allow (rest : List Word) : Shape tap guest .vmEgress .EgressAllow (.iifname :: tap :: rest)
  | deny : Shape tap guest .vmEgress .EgressDeny (egressDeny tap guest)
  | inputSource : Shape tap guest .vmInput .InputSourceGuard (sourceGuard tap guest)
  | inputStateful : Shape tap guest .vmInput .InputStateful (inputStateful tap)
  | inputDeny : Shape tap guest .vmInput .InputDeny (dropAll tap)
  | quarantine (chain : Chain) : Shape tap guest chain .Quarantine (dropAll tap)

variable {rule : List Word} {tap guest : Word} {parse : Parsers} {role : SecurityRuleRole}

theorem uplink_shape (h : validAnyUplinkGuardRule rule tap guest = true) :
    ∃ name, rule = uplinkGuard tap guest name := by
  unfold validAnyUplinkGuardRule at h
  split at h
  · simp only [and_eq_true, decide_eq_true_eq] at h
    obtain ⟨⟨rfl, rfl⟩, _⟩ := h
    exact ⟨_, rfl⟩
  · cases h

theorem allow_shape (h : validEgressAllowRule parse rule tap guest = true) :
    ∃ rest, rule = .iifname :: tap :: rest := by
  unfold validEgressAllowRule at h
  split at h
  · simp only [and_eq_true, decide_eq_true_eq] at h
    obtain ⟨⟨rfl, _⟩, _⟩ := h
    exact ⟨_, rfl⟩
  · simp only [and_eq_true, decide_eq_true_eq] at h
    obtain ⟨⟨⟨⟨_, rfl⟩, _⟩, _⟩, _⟩ := h
    exact ⟨_, rfl⟩
  · cases h

theorem of_if {c : Prop} [Decidable c] {role' : SecurityRuleRole} {x : Option SecurityRuleRole}
    (h : (if c then some role else x) = some role') : c ∧ role = role' ∨ x = some role' := by
  split at h
  · rename_i hc
    exact .inl ⟨hc, some.inj h⟩
  · exact .inr h

theorem valid_shape {chain : Chain} {tag : RuleTag}
    (h : validTaritdSecurityRule parse chain rule tag = some role) :
    Shape (tapWord tag.tap) (Word.read (showAddr (guestAddr tag.slot))) chain role rule := by
  unfold validTaritdSecurityRule at h
  cases hslot : NetAlloc.forSlot tag.vm tag.slot with
  | none =>
    rw [hslot] at h
    cases h
  | some alloc =>
    obtain rfl := forSlot_eq hslot
    rw [hslot] at h
    simp only at h
    split at h
    case h_1 | h_2 =>
      rcases of_if h with ⟨rfl, rfl⟩ | h
      · exact .quarantine _
      · cases h
    case h_3 =>
      rcases of_if h with ⟨rfl, rfl⟩ | h
      · exact .source
      rcases of_if h with ⟨rfl, rfl⟩ | h
      · exact .lateral
      rcases of_if h with ⟨rfl, rfl⟩ | h
      · exact .linkLocal
      rcases of_if h with ⟨hvalid, rfl⟩ | h
      · obtain ⟨name, rfl⟩ := uplink_shape hvalid
        exact .uplink name
      · cases h
    case h_4 =>
      rcases of_if h with ⟨rfl, rfl⟩ | h
      · exact .inputSource
      rcases of_if h with ⟨rfl, rfl⟩ | h
      · exact .inputStateful
      rcases of_if h with ⟨rfl, rfl⟩ | h
      · exact .inputDeny
      · cases h
    case h_5 =>
      rcases of_if h with ⟨rfl, rfl⟩ | h
      · exact .stateful
      rcases of_if h with ⟨rfl, rfl⟩ | h
      · exact .deny
      rcases of_if h with ⟨hvalid, rfl⟩ | h
      · obtain ⟨rest, rfl⟩ := allow_shape hvalid
        exact .allow rest
      · cases h
    case h_6 => cases h

theorem Shape.start {chain : Chain} (h : Shape tap guest chain role rule) :
    ∃ rest, rule = .iifname :: tap :: rest := by
  cases h <;> exact ⟨_, rfl⟩

section Shapes

variable {p : Packet} {guest : Ipv4Addr} {chain : Chain}

theorem Shape.other {guest : Word} (h : Shape tap guest chain role rule)
    (hne : tapWord p.iif ≠ tap) : outcome p rule = some none := by
  obtain ⟨rest, rfl⟩ := h.start
  exact provided_eq_none.mpr fun heq => absurd (of_decide_eq_true heq) hne

theorem Shape.decides (h : Shape tap (Word.read (showAddr guest)) chain role rule)
    (hmild : ¬ Mild (outcome p rule)) :
    chain = .vmInput ∧ role = .InputStateful ∧ p.established ∨
    chain = .vmEgress ∧ role = .EgressStateful ∧ p.established ∨
    chain = .vmEgress ∧ role = .EgressAllow := by
  cases h with
  | source | inputSource =>
    rw [outcome_sourceGuard] at hmild
    exact absurd mild_drop.provided.provided hmild
  | lateral =>
    rw [outcome_daddrGuard poolCidr_eq] at hmild
    exact absurd mild_drop.provided.provided.provided hmild
  | linkLocal =>
    rw [outcome_daddrGuard linkLocalCidr_eq] at hmild
    exact absurd mild_drop.provided.provided.provided hmild
  | uplink name =>
    rw [uplinkGuard, outcome_from] at hmild
    exact absurd mild_drop.provided.provided.provided hmild
  | deny =>
    rw [egressDeny, outcome_from] at hmild
    exact absurd mild_drop.provided.provided hmild
  | inputDeny | quarantine => exact absurd mild_drop.provided hmild
  | stateful =>
    rw [egressStateful, outcome_from] at hmild
    have hct := (of_not_mild (of_not_mild hmild).2).2
    exact .inr (.inl ⟨rfl, rfl, (of_not_mild hct).1⟩)
  | inputStateful => exact .inl ⟨rfl, rfl, (of_not_mild (of_not_mild hmild).2).1⟩
  | allow rest => exact .inr (.inr ⟨rfl, rfl⟩)

end Shapes

theorem allow_matches {p : Packet} {alloc : NetAlloc} {entry : List Char}
    (hcompile : compileHostEgressRule parse alloc entry = .ok rule)
    (hguest : alloc.guestIp = showAddr (guestAddr alloc.idx)) (hmild : ¬ Mild (outcome p rule)) :
    p.matchesEntry parse entry := by
  unfold compileHostEgressRule at hcompile
  unfold Packet.matchesEntry
  cases hparse : parseEgressEntry parse entry with
  | error refusal =>
    rw [hparse] at hcompile
    cases hcompile
  | ok parsed =>
    obtain ⟨net, port⟩ := parsed
    rw [hparse] at hcompile
    cases hcompile
    rw [hguest] at hmild
    have hdaddr : ∀ tail, ¬ Mild (outcome p (.ip :: .saddr :: .read (showAddr (guestAddr alloc.idx))
        :: .ip :: .daddr :: .read (showNet net) :: tail)) →
        net.contains p.dst ∧ ¬ Mild (outcome p tail) := by
      intro tail h
      rw [outcome_saddr, outcome_daddr] at h
      exact of_not_mild (of_not_mild h).2
    cases port with
    | none => exact (hdaddr [.accept] (of_not_mild hmild).2).1
    | some port =>
      obtain ⟨hdst, hport⟩ := hdaddr (port.1.word :: .dport :: .read (Nat.toDigits 10 port.2) ::
        [.accept]) (of_not_mild hmild).2
      rw [outcome_dport] at hport
      exact and_eq_true_iff.mpr ⟨hdst, (of_not_mild hport).1⟩

/-! ## Accepted listings -/

section Loops

variable {α β : Type}

theorem refuseIf_ok {b : Bool} {refusal : Refusal} (h : refuseIf b refusal = .ok ()) :
    b = false := by
  cases b with
  | false => rfl
  | true => cases h

variable {l : List α}

theorem checkAll_ok {f : α → Except Refusal Unit} (h : checkAll f l = .ok ()) :
    ∀ x ∈ l, f x = .ok () := by
  induction l with
  | nil => exact fun x hx => absurd hx not_mem_nil
  | cons y l ih =>
    obtain ⟨⟨⟩, hy, hl⟩ := bind_eq_ok.mp h
    exact forall_mem_cons.mpr ⟨hy, ih hl⟩

theorem collect_ok {f : α → Except Refusal β} {ys : List β} (h : collect f l = .ok ys) :
    (∀ x ∈ l, ∃ y ∈ ys, f x = .ok y) ∧ (∀ y ∈ ys, ∃ x ∈ l, f x = .ok y) ∧ ys.length = l.length := by
  induction l generalizing ys with
  | nil =>
    cases h
    exact ⟨fun x hx => absurd hx not_mem_nil, fun y hy => absurd hy not_mem_nil, rfl⟩
  | cons x l ih =>
    obtain ⟨y, hy, h⟩ := bind_eq_ok.mp h
    obtain ⟨ys, hys, h⟩ := bind_eq_ok.mp h
    cases h
    obtain ⟨hleft, hright, hlen⟩ := ih hys
    refine ⟨forall_mem_cons.mpr ⟨⟨y, .head _, hy⟩, fun x' hx' => ?_⟩,
      forall_mem_cons.mpr ⟨⟨x, .head _, hy⟩, fun y' hy' => ?_⟩, congrArg (· + 1) hlen⟩
    · obtain ⟨y', hmem, hy'⟩ := hleft x' hx'
      exact ⟨y', .tail _ hmem, hy'⟩
    · obtain ⟨x', hmem, hx'⟩ := hright y' hy'
      exact ⟨x', .tail _ hmem, hx'⟩

/-- If each of some disjoint cases of `q` holds once and `q` no more often, there is no other. -/
theorem exists_of_countP {ps : List (α → Bool)} {q : α → Bool} (hone : ∀ p ∈ ps, l.countP p = 1)
    (himp : ∀ p ∈ ps, ∀ a, p a → q a) (hdisjoint : ps.Pairwise fun p p' => ∀ a, p a → ¬ p' a)
    (hcount : l.countP q = ps.length) : ∀ a ∈ l, q a → ∃ p ∈ ps, p a := by
  induction ps generalizing q with
  | nil =>
    intro a ha hq
    exact absurd hq (countP_eq_zero.mp hcount a ha)
  | cons p ps ih =>
    obtain ⟨hfirst, hdisjoint⟩ := pairwise_cons.mp hdisjoint
    intro a ha hq
    by_cases hp : p a
    · exact ⟨p, mem_cons_self .., hp⟩
    -- the other cases are those of `q` without `p`
    have hrest : l.countP (fun b => q b && !p b) = ps.length := by
      have hsplit := countP_eq_countP_filter_add l q p
      have hpq : l.countP (fun b => q b && p b) = l.countP p := by
        refine countP_congr fun b _ => ?_
        rw [and_eq_true]
        exact ⟨fun h => h.2, fun h => ⟨himp p (mem_cons_self ..) b h, h⟩⟩
      rw [countP_filter, countP_filter, hpq, hone p (mem_cons_self ..), hcount,
        length_cons] at hsplit
      omega
    obtain ⟨p', hp', hpa⟩ := ih (fun p' h => hone p' (mem_cons_of_mem _ h))
      (fun p' h b hb => by
        simp only [and_eq_true, not_eq_true']
        exact ⟨himp p' (mem_cons_of_mem _ h) b hb,
          eq_false_iff.mpr fun hpb => hfirst p' h b hpb hb⟩)
      hdisjoint hrest a ha (by simp [hq, hp])
    exact ⟨p', mem_cons_of_mem _ hp', hpa⟩

end Loops

end Tarit.Net
