import Mathlib.Data.List.Nodup
import Tarit.Net.Filter

/-!
# Isolation of accepted listings

A listing that the validation accepts holds for each allocation just the rules of its policy, the
guards before the accepts. All rules of a chain name their tap first, and taps belong to slots, so
the rules of other VMs do nothing to a packet of one.
-/
namespace Tarit.Net

open Lib Fleet List

/-! ## Rules of an allocation -/

def picks (role : SecurityRuleRole) (ok : List Word → Bool) (m : ManagedRule) : Bool :=
  m.role = role && ok m.rule

variable {m : ManagedRule} {parse : Parsers} {alloc : NetAlloc} {policy : EgressPolicy}
  {uplink : List Char} {rules : List ManagedRule} {role : SecurityRuleRole}
  {allocations : Allocations} {listing : List Line} {p : Packet}

theorem picks_iff {role : SecurityRuleRole} {ok : List Word → Bool} :
    picks role ok m ↔ m.role = role ∧ ok m.rule := by
  simp only [picks, Bool.and_eq_true, decide_eq_true_eq]

theorem picks_ne {r r' : SecurityRuleRole} {ok ok' : List Word → Bool} (h : r ≠ r')
    (m : ManagedRule) (hm : picks r ok m) : ¬ picks r' ok' m :=
  fun hm' => h ((picks_iff.mp hm).1.symm.trans (picks_iff.mp hm').1)

section Rules

variable {pos : ℕ}

theorem exactlyOne_ok {p : ManagedRule → Bool} (h : exactlyOne alloc role rules p = .ok pos) :
    rules.countP p = 1 ∧ ∃ m ∈ rules, p m ∧ m.index = pos ∧ ∀ m' ∈ rules, p m' → m' = m := by
  unfold exactlyOne at h
  split at h
  · rename_i m hm
    cases h
    have hmem : m ∈ rules.filter p := by
      rw [hm]
      exact mem_singleton_self m
    obtain ⟨hmem, hp⟩ := mem_filter.mp hmem
    refine ⟨?_, m, hmem, hp, rfl, fun m' hm' hp' => ?_⟩
    · rw [countP_eq_length_filter, hm]
      rfl
    · have hfilter := mem_filter.mpr ⟨hm', hp'⟩
      rw [hm] at hfilter
      exact mem_singleton.mp hfilter
  · cases h

def guardOk (alloc : NetAlloc) (uplink : List Char) (role : SecurityRuleRole) (rule : List Word) :
    Bool :=
  let tap := tapWord alloc.tap
  let guest := Word.read alloc.guestIp
  match role with
  | .ForwardUplinkGuard => validUplinkGuardRule rule tap guest uplink
  | .ForwardLateralGuard => rule = daddrGuard tap guest poolCidr
  | .ForwardLinkLocalGuard => rule = daddrGuard tap guest linkLocalCidr
  | _ => rule = sourceGuard tap guest

theorem guardPosition_eq : guardPosition alloc uplink rules role =
    exactlyOne alloc role rules (picks role (guardOk alloc uplink role)) := by
  cases role <;> rfl

variable {expected : List (List Word)} {stateful : Option ℕ}

theorem expectedAllows_ok {entries : List (List Char)} {seen : List (List Word)}
    (h : expectedAllows parse alloc entries seen = .ok expected) :
    expected.Nodup ∧ ∀ e ∈ expected, e ∉ seen ∧
      ∃ entry ∈ entries, compileHostEgressRule parse alloc entry = .ok e := by
  induction entries generalizing seen expected with
  | nil =>
    cases h
    exact ⟨nodup_nil, fun e he => absurd he not_mem_nil⟩
  | cons entry entries ih =>
    obtain ⟨first, hfirst, h⟩ := bind_eq_ok.mp h
    obtain ⟨⟨⟩, hseen, h⟩ := bind_eq_ok.mp h
    obtain ⟨rest, hrest, h⟩ := bind_eq_ok.mp h
    cases h
    obtain ⟨hnodup, hall⟩ := ih hrest
    refine ⟨nodup_cons.mpr ⟨fun hmem => ?_, hnodup⟩, fun e he => ?_⟩
    · exact (hall first hmem).1 (mem_cons_self ..)
    · rcases mem_cons.mp he with rfl | he
      · have hfresh := refuseIf_ok hseen
        exact ⟨fun hmem => by simp [hmem] at hfresh, entry, mem_cons_self .., hfirst⟩
      · obtain ⟨hout, entry', hentry, hcompile⟩ := hall e he
        exact ⟨fun hmem => hout (mem_cons_of_mem _ hmem), entry',
          mem_cons_of_mem _ hentry, hcompile⟩

theorem statefulPosition_ok (h : statefulPosition alloc policy rules = .ok stateful)
    (hpos : stateful = some pos) :
    policy.allowExisting ∧ exactlyOneRule alloc rules .EgressStateful
      (egressStateful (tapWord alloc.tap) (Word.read alloc.guestIp)) = .ok pos := by
  unfold statefulPosition at h
  split at h
  · rename_i hallow
    cases hone : exactlyOneRule alloc rules .EgressStateful
      (egressStateful (tapWord alloc.tap) (.read alloc.guestIp)) with
    | error refusal =>
      rw [hone] at h
      cases h
    | ok found =>
      rw [hone] at h
      cases h
      exact ⟨hallow, by rw [Option.some.inj hpos]⟩
  · cases h
    cases hpos

structure ForwardOk (parse : Parsers) (alloc : NetAlloc) (policy : EgressPolicy)
    (uplink : List Char) (rules : List ManagedRule) : Prop where
  guard : ∀ role ∈ guardRoles, ∃ m ∈ rules, picks role (guardOk alloc uplink role) m ∧
    ∀ m' ∈ rules, m'.role = .EgressStateful ∨ m'.role = .EgressAllow → m.index ≤ m'.index
  deny : ∃ m ∈ rules, m.rule = egressDeny (tapWord alloc.tap) (Word.read alloc.guestIp)
  stateful : ∀ m ∈ rules, m.role = .EgressStateful → policy.allowExisting
  allow : ∀ m ∈ rules, m.role = .EgressAllow →
    ∃ entry ∈ policy.allowlist, compileHostEgressRule parse alloc entry = .ok m.rule

/-- The cases of the rules that the policy of an allocation calls for. -/
def expectedPicks (alloc : NetAlloc) (uplink : List Char) (stateful : Option ℕ)
    (expected : List (List Word)) : List (ManagedRule → Bool) :=
  let tap := tapWord alloc.tap
  let guest := Word.read alloc.guestIp
  guardRoles.map (fun role => picks role (guardOk alloc uplink role)) ++
    (stateful.toList.map (fun _ => picks .EgressStateful (· = egressStateful tap guest)) ++
    (expected.map (fun e => picks .EgressAllow (· = e)) ++
    [picks .EgressDeny (· = egressDeny tap guest)]))

theorem mem_expectedPicks {p : ManagedRule → Bool}
    (h : p ∈ expectedPicks alloc uplink stateful expected) :
    (∃ role ∈ guardRoles, p = picks role (guardOk alloc uplink role)) ∨
    (∃ pos, stateful = some pos ∧ p = picks .EgressStateful
      (· = egressStateful (tapWord alloc.tap) (Word.read alloc.guestIp))) ∨
    (∃ e ∈ expected, p = picks .EgressAllow (· = e)) ∨
    p = picks .EgressDeny (· = egressDeny (tapWord alloc.tap) (Word.read alloc.guestIp)) := by
  simp only [expectedPicks, mem_append, mem_map, mem_singleton,
    Option.mem_toList] at h
  rcases h with ⟨role, hrole, rfl⟩ | ⟨pos, hpos, rfl⟩ | ⟨e, he, rfl⟩ | rfl
  · exact .inl ⟨role, hrole, rfl⟩
  · exact .inr (.inl ⟨pos, hpos, rfl⟩)
  · exact .inr (.inr (.inl ⟨e, he, rfl⟩))
  · exact .inr (.inr (.inr rfl))

theorem expectedPicks_disjoint (hexpected : expected.Nodup) :
    (expectedPicks alloc uplink stateful expected).Pairwise fun p p' => ∀ m, p m → ¬ p' m := by
  have hguards : guardRoles.Nodup := by decide
  refine pairwise_append.mpr ⟨pairwise_map.mpr (hguards.imp picks_ne),
    pairwise_append.mpr ⟨?_, pairwise_append.mpr ⟨?_, pairwise_singleton .., ?_⟩, ?_⟩,
    ?_⟩
  · cases stateful with
    | none => exact .nil
    | some pos => exact pairwise_singleton ..
  · refine pairwise_map.mpr (hexpected.imp fun hne m hm hm' => hne ?_)
    exact (of_decide_eq_true (picks_iff.mp hm).2).symm.trans
      (of_decide_eq_true (picks_iff.mp hm').2)
  · intro p hp p' hp'
    obtain ⟨e, _, rfl⟩ := mem_map.mp hp
    obtain rfl := mem_singleton.mp hp'
    exact picks_ne (by decide)
  · intro p hp p' hp'
    obtain ⟨pos, _, rfl⟩ := mem_map.mp hp
    rcases mem_append.mp hp' with hp' | hp'
    · obtain ⟨e, _, rfl⟩ := mem_map.mp hp'
      exact picks_ne (by decide)
    · obtain rfl := mem_singleton.mp hp'
      exact picks_ne (by decide)
  · intro p hp p' hp'
    obtain ⟨role, hrole, rfl⟩ := mem_map.mp hp
    have hother : ∀ role' ∉ guardRoles, role ≠ role' := fun role' hr he => hr (he ▸ hrole)
    rcases mem_append.mp hp' with hp' | hp'
    · obtain ⟨pos, _, rfl⟩ := mem_map.mp hp'
      exact picks_ne (hother _ (by decide))
    rcases mem_append.mp hp' with hp' | hp'
    · obtain ⟨e, _, rfl⟩ := mem_map.mp hp'
      exact picks_ne (hother _ (by decide))
    · obtain rfl := mem_singleton.mp hp'
      exact picks_ne (hother _ (by decide))

/-- Every accept of the chain is an expected one, at a position that the order was checked for. -/
theorem accept_expected {guards allows : List ℕ} {deny : ℕ}
    (hguards : collect (guardPosition alloc uplink rules) guardRoles = .ok guards)
    (hexpected : expected.Nodup) (hstateful : statefulPosition alloc policy rules = .ok stateful)
    (hallows : collect (exactlyOneRule alloc rules .EgressAllow) expected = .ok allows)
    (hdeny : exactlyOneRule alloc rules .EgressDeny
      (egressDeny (tapWord alloc.tap) (Word.read alloc.guestIp)) = .ok deny)
    (hcount : (rules.filter fun rule => egressRoles.contains rule.role).length =
      guards.length + stateful.toList.length + allows.length + 1) (hm : m ∈ rules)
    (hrole : m.role = .EgressStateful ∨ m.role = .EgressAllow) :
    m.index ∈ stateful.toList ++ allows ∧ (m.role = .EgressStateful → policy.allowExisting) ∧
      (m.role = .EgressAllow → m.rule ∈ expected) := by
  have hlen : rules.countP (fun rule => egressRoles.contains rule.role) =
      (expectedPicks alloc uplink stateful expected).length := by
    rw [countP_eq_length_filter, hcount, (collect_ok hguards).2.2, (collect_ok hallows).2.2]
    simp only [expectedPicks, length_append, length_map, length_singleton]
    omega
  have hone : ∀ p ∈ expectedPicks alloc uplink stateful expected, rules.countP p = 1 := by
    intro p hp
    rcases mem_expectedPicks hp with ⟨role, hrole, rfl⟩ | ⟨pos, hpos, rfl⟩ | ⟨e, he, rfl⟩ | rfl
    · obtain ⟨pos, _, hpos⟩ := (collect_ok hguards).1 role hrole
      rw [guardPosition_eq] at hpos
      exact (exactlyOne_ok hpos).1
    · exact (exactlyOne_ok (statefulPosition_ok hstateful hpos).2).1
    · obtain ⟨pos, _, hpos⟩ := (collect_ok hallows).1 e he
      exact (exactlyOne_ok hpos).1
    · exact (exactlyOne_ok hdeny).1
  have himp : ∀ p ∈ expectedPicks alloc uplink stateful expected, ∀ m, p m →
      egressRoles.contains m.role := by
    intro p hp m hpm
    have hroles : ∀ role ok, p = picks role ok → role ∈ egressRoles →
        egressRoles.contains m.role := by
      rintro role ok rfl hr
      rw [(picks_iff.mp hpm).1]
      exact contains_iff_mem.mpr hr
    rcases mem_expectedPicks hp with ⟨role, hrole, h⟩ | ⟨pos, hpos, h⟩ | ⟨e, he, h⟩ | h
    · exact hroles _ _ h (mem_append_left _ hrole)
    · exact hroles _ _ h (by decide)
    · exact hroles _ _ h (by decide)
    · exact hroles _ _ h (by decide)
  have hq : egressRoles.contains m.role := by
    rcases hrole with h | h <;> rw [h] <;> decide
  obtain ⟨p, hp, hpm⟩ := exists_of_countP hone himp (expectedPicks_disjoint hexpected) hlen m hm hq
  rcases mem_expectedPicks hp with ⟨role, hguard, rfl⟩ | ⟨pos, hpos, rfl⟩ | ⟨e, he, rfl⟩ | rfl
  · rw [(picks_iff.mp hpm).1] at hrole
    rcases hrole with rfl | rfl <;> exact absurd hguard (by decide)
  · obtain ⟨hallow, hone⟩ := statefulPosition_ok hstateful hpos
    obtain ⟨_, m', _, _, hindex, hunique⟩ := exactlyOne_ok hone
    rw [(picks_iff.mp hpm).1]
    refine ⟨?_, fun _ => hallow, nofun⟩
    rw [hunique m hm hpm, hindex, hpos]
    exact mem_append_left _ (mem_singleton_self pos)
  · obtain ⟨pos, hmem, hone⟩ := (collect_ok hallows).1 e he
    obtain ⟨_, m', _, _, hindex, hunique⟩ := exactlyOne_ok hone
    rw [(picks_iff.mp hpm).1, of_decide_eq_true (picks_iff.mp hpm).2]
    refine ⟨?_, nofun, fun _ => he⟩
    rw [hunique m hm hpm, hindex]
    exact mem_append_right _ hmem
  · rw [(picks_iff.mp hpm).1] at hrole
    rcases hrole with hrole | hrole <;> cases hrole

theorem validateCompleteForwardPolicy_ok {listing : List Line}
    (h : validateCompleteForwardPolicy parse alloc policy uplink listing = .ok ()) :
    ∃ rules, allocationRules parse .vmEgress listing alloc = .ok rules ∧
      ForwardOk parse alloc policy uplink rules := by
  simp only [validateCompleteForwardPolicy, bind_eq_ok] at h
  obtain ⟨rules, hrules, guards, hguards, expected, hexpected, stateful, hstateful, allows, hallows,
    deny, hdeny, _, hcount, _, horder, _⟩ := h
  have hcount := of_not_not (of_decide_eq_false (refuseIf_ok hcount))
  have horder := (Bool.or_eq_false_iff.mp (refuseIf_ok horder)).1
  obtain ⟨hnodup, hentry⟩ := expectedAllows_ok hexpected
  have haccept := fun m hm =>
    accept_expected hguards hnodup hstateful hallows hdeny hcount (m := m) hm
  refine ⟨rules, hrules, fun role hrole => ?_, ?_, fun m hm hr => ?_, fun m hm hr => ?_⟩
  · obtain ⟨pos, hpos, hguard⟩ := (collect_ok hguards).1 role hrole
    rw [guardPosition_eq] at hguard
    obtain ⟨_, m, hm, hpick, rfl, _⟩ := exactlyOne_ok hguard
    refine ⟨m, hm, hpick, fun m' hm' hr => ?_⟩
    -- the first accept is not before any guard, and this accept is not before the first
    have hmem := (haccept m' hm' hr).1
    cases hmin : (stateful.toList ++ allows).min? with
    | none =>
      rw [min?_eq_none_iff.mp hmin] at hmem
      cases hmem
    | some first =>
      rw [hmin, Option.any_some, any_eq_false] at horder
      have hfirst := (min?_eq_some_iff.mp hmin).2 _ hmem
      have hguard := horder m.index hpos
      simp only [gt_iff_lt, decide_eq_true_eq, not_lt] at hguard
      exact hguard.trans hfirst
  · obtain ⟨_, m, hm, hpick, _⟩ := exactlyOne_ok hdeny
    simp only [Bool.and_eq_true, decide_eq_true_eq] at hpick
    exact ⟨m, hm, hpick.2⟩
  · exact (haccept m hm (.inl hr)).2.1 hr
  · exact (hentry m.rule ((haccept m hm (.inr hr)).2.2 hr)).2

end Rules

/-! ## Lines of a listing -/

/-- A line as it is read: a tag names the tap of its slot, and what starts like a rule is one. -/
structure Line.Ok (line : Line) : Prop where
  tap : ∀ tag, line.tag = some tag → tag.tap = tapName tag.slot
  rule : ∀ rest, line.rule = some (.iifname :: rest) → line.structural = false

theorem readWords_iifname {word : List Char} {words : List (List Char)} {rest : List Word}
    (h : readWords (word :: words) = .iifname :: rest) : word = "iifname".toList := by
  have hread : ∀ ws, .read word :: ws = .iifname :: rest → word = "iifname".toList := by
    intro ws heq
    rw [← text_read word, (cons.inj heq).1]
    rfl
  unfold readWords at h
  split at h
  case h_1 heq =>
    obtain ⟨rfl, _⟩ := cons.inj heq
    split at h
    · cases h
    · exact hread _ h
  case h_2 heq =>
    obtain ⟨rfl, _⟩ := cons.inj heq
    exact hread _ h
  case h_3 heq => cases heq

theorem read_ok (parseUuid : List Char → Option Uuid) (line : List Char) :
    (Line.read parseUuid line).Ok := by
  refine ⟨fun tag => read_tap, fun rest h => ?_⟩
  obtain ⟨⟨before, after⟩, hsplit, hwords⟩ := Option.map_eq_some_iff.mp h
  simp only at hwords
  show (_ || _ || _ || _ || _) = false
  generalize trim line = text at hsplit ⊢
  cases text with
  | nil => cases hsplit
  | cons c text =>
    rcases rsplitOnce_cons hsplit with rfl | ⟨before, rfl⟩
    · cases hwords
    -- the line starts with white space or with the `i` of its first word
    have hstart : isWhitespace c = true ∨ c = 'i' := by
      cases hc : isWhitespace c with
      | true => exact .inl rfl
      | false =>
        obtain ⟨word, words, hcons⟩ := splitWhitespace_cons before hc
        rw [hcons] at hwords
        exact .inr (cons.inj (readWords_iifname hwords)).1
    have hne : c ≠ 't' ∧ c ≠ 'c' ∧ c ≠ '}' := by
      refine ⟨?_, ?_, ?_⟩ <;> rintro rfl <;> revert hstart <;> decide
    have hprefix : ∀ (d : Char) (word : List Char), c ≠ d →
        (d :: word).isPrefixOf (c :: text) = false := by
      intro d word hd
      simp [isPrefixOf, hd.symm]
    have htable := hprefix 't' "able ".toList hne.1
    have hchain := hprefix 'c' "hain ".toList hne.2.1
    have htype := hprefix 't' "ype ".toList hne.1
    have hbrace : decide (c :: text = ['}']) = false :=
      decide_eq_false fun h => hne.2.2 (cons.inj h).1
    simp only [Bool.or_eq_false_iff]
    exact ⟨⟨⟨⟨rfl, htable⟩, hchain⟩, htype⟩, hbrace⟩

structure Allocations where
  list : List (NetAlloc × EgressPolicy)
  slots : (list.map fun entry => entry.1.idx).Nodup

section Listings

variable {chain : Chain} {line : Line} {tag : RuleTag} {rule : List Word} {i : ℕ}

structure Line.Reads (line : Line) (parse : Parsers) (chain : Chain) (tag : RuleTag)
    (role : SecurityRuleRole) (rule : List Word) : Prop where
  tagged : line.tag = some tag
  words : line.rule = some rule
  valid : validTaritdSecurityRule parse chain rule tag = some role

theorem Line.Reads.outcome (h : line.Reads parse chain tag role rule) (hok : line.Ok) :
    line.outcome p = Net.outcome p rule := by
  obtain ⟨rest, rfl⟩ := (valid_shape h.valid).start
  rw [Line.outcome, hok.rule _ h.words, h.words]
  rfl

theorem reads_of_securityChain (h : validateTaritdSecurityChain parse chain listing = .ok ())
    (hline : listing[i]? = some line) (hrule : line.structural = false) :
    ∃ tag role rule, line.Reads parse chain tag role rule := by
  obtain ⟨managed, hcollect, _⟩ := bind_eq_ok.mp h
  have hmem : (line, i) ∈ listing.zipIdx.filter fun entry => !entry.1.structural :=
    mem_filter.mpr ⟨mem_zipIdx_iff_getElem?.mpr hline, by simp [hrule]⟩
  obtain ⟨y, _, hread⟩ := (collect_ok hcollect).1 _ hmem
  unfold readManaged at hread
  split at hread
  · cases hread
  rename_i tag htag
  split at hread
  · cases hread
  rename_i rule hrule
  split at hread
  · cases hread
  · rename_i role hvalid
    exact ⟨tag, role, rule, htag, hrule, hvalid⟩

section Rules

variable (h : allocationRules parse chain listing alloc = .ok rules)

include h

theorem mem_rules_of_line (hline : listing[i]? = some line)
    (hreads : line.Reads parse chain tag role rule) (hfor : tag.isFor alloc) :
    ⟨i, role, rule⟩ ∈ rules := by
  have hmem : (line, i) ∈ listing.zipIdx.filter fun entry => entry.1.isFor alloc :=
    mem_filter.mpr ⟨mem_zipIdx_iff_getElem?.mpr hline, by simp [Line.isFor, hreads.tagged, hfor]⟩
  obtain ⟨m, hm, hread⟩ := (collect_ok h).1 _ hmem
  simp only [allocationRule, hreads.tagged, hreads.words, hreads.valid] at hread
  rw [Except.ok.inj hread]
  exact hm

theorem line_of_mem_rules (hm : m ∈ rules) :
    ∃ line tag, listing[m.index]? = some line ∧
      line.Reads parse chain tag m.role m.rule ∧ tag.isFor alloc := by
  obtain ⟨⟨line, i⟩, hmem, hread⟩ := (collect_ok h).2.1 m hm
  obtain ⟨hmem, hfor⟩ := mem_filter.mp hmem
  have hline := mem_zipIdx_iff_getElem?.mp hmem
  unfold allocationRule at hread
  split at hread
  · rename_i tag rule htag hrule
    split at hread
    · cases hread
    rename_i role hvalid
    cases hread
    have hfor : line.tag.any (fun tag => tag.isFor alloc) = true := hfor
    rw [show line.tag = some tag from htag] at hfor
    exact ⟨line, tag, hline, ⟨htag, hrule, hvalid⟩, hfor⟩
  · cases hread

omit h in
theorem isFor_iff : tag.isFor alloc ↔ tag.slot = alloc.idx ∧ tag.vm = alloc.vm ∧
    tag.tap = alloc.tap := by
  simp only [RuleTag.isFor, Bool.and_eq_true, decide_eq_true_eq, and_assoc]

theorem rules_shape (hm : m ∈ rules) :
    Shape (tapWord alloc.tap) (Word.read (showAddr (guestAddr alloc.idx))) chain m.role m.rule := by
  obtain ⟨line, tag, _, hreads, hfor⟩ := line_of_mem_rules h hm
  obtain ⟨hslot, _, htap⟩ := isFor_iff.mp hfor
  have hshape := valid_shape hreads.valid
  rwa [hslot, htap] at hshape

theorem rules_tap (hok : ∀ line ∈ listing, line.Ok) (hm : m ∈ rules) :
    alloc.tap = tapName alloc.idx := by
  obtain ⟨line, tag, hline, hreads, hfor⟩ := line_of_mem_rules h hm
  obtain ⟨hslot, _, htap⟩ := isFor_iff.mp hfor
  rw [← hslot, ← htap]
  exact (hok line (mem_of_getElem? hline)).tap tag hreads.tagged

theorem rules_role {m' : ManagedRule} (hm : m ∈ rules) (hm' : m' ∈ rules)
    (hindex : m.index = m'.index) : m.role = m'.role := by
  obtain ⟨line, tag, hline, hreads, _⟩ := line_of_mem_rules h hm
  obtain ⟨line', tag', hline', hreads', _⟩ := line_of_mem_rules h hm'
  rw [hindex, hline'] at hline
  cases hline
  obtain rfl := Option.some.inj (hreads.tagged.symm.trans hreads'.tagged)
  have hvalid := hreads.valid
  rw [Option.some.inj (hreads.words.symm.trans hreads'.words), hreads'.valid] at hvalid
  exact (Option.some.inj hvalid).symm

end Rules

/-- What decides for a packet of a tap is a rule of its allocation: all others name other taps. -/
theorem decider (hchain : validateTaritdSecurityChain parse chain listing = .ok ())
    (hactive : validateActive allocations.list chain listing = .ok ())
    (hok : ∀ line ∈ listing, line.Ok) (halloc : (alloc, policy) ∈ allocations.list)
    (hrules : allocationRules parse chain listing alloc = .ok rules)
    (htap : alloc.tap = tapName alloc.idx) (hiif : p.iif = alloc.tap)
    (hne : evaluate p listing ≠ some .drop) :
    (∀ m ∈ rules, outcome p m.rule = some none) ∨
    ∃ d ∈ rules, ¬ Mild (outcome p d.rule) ∧
      ∀ m ∈ rules, m.index < d.index → outcome p m.rule = some none := by
  obtain ⟨n, hpass, hend⟩ := evaluate_ne_drop hne
  have hbefore : ∀ m ∈ rules, m.index < n → outcome p m.rule = some none := by
    intro m hm hlt
    obtain ⟨line, tag, hline, hreads, _⟩ := line_of_mem_rules hrules hm
    rw [← hreads.outcome (hok line (mem_of_getElem? hline))]
    exact hpass m.index hlt line hline
  rcases hend with hlen | ⟨line, hline, hmild⟩
  · refine .inl fun m hm => hbefore m hm ?_
    obtain ⟨line, tag, hline, _⟩ := line_of_mem_rules hrules hm
    exact lt_of_lt_of_le (List.getElem?_eq_some_iff.mp hline).1 hlen
  have hmem := mem_of_getElem? hline
  have hrule : line.structural = false := by
    by_contra hs
    rw [Line.outcome, Bool.eq_true_of_not_eq_false hs] at hmild
    exact hmild (.inl rfl)
  obtain ⟨tag, role, rule, hreads⟩ := reads_of_securityChain hchain hline hrule
  rw [hreads.outcome (hok line hmem)] at hmild
  have hslot : tag.slot = alloc.idx := by
    by_contra hother
    refine hmild (.inl ((valid_shape hreads.valid).other fun heq => hother ?_))
    have heq := nftQuote_injective (read_injective heq)
    rw [hiif, htap, (hok line hmem).tap tag hreads.tagged] at heq
    exact (tapName_injective heq).symm
  have hfor : tag.isFor alloc := by
    have hcheck := checkAll_ok hactive line (mem_filter.mpr ⟨hmem, by simp [hrule]⟩)
    simp only [hreads.tagged] at hcheck
    have hany := refuseIf_ok hcheck
    simp only [Bool.not_eq_false', any_eq_true] at hany
    obtain ⟨entry, hentry, hfor⟩ := hany
    have hsame := inj_on_of_nodup_map allocations.slots hentry halloc
      ((isFor_iff.mp hfor).1.symm.trans hslot)
    rwa [hsame] at hfor
  exact .inr ⟨_, mem_rules_of_line hrules hline hreads hfor, hmild, hbefore⟩

end Listings

/-! ## Isolation -/

theorem guest_of_forward {rules : List ManagedRule}
    (hrules : allocationRules parse .vmEgress listing alloc = .ok rules)
    (hforward : ForwardOk parse alloc policy uplink rules) :
    alloc.guestIp = showAddr (guestAddr alloc.idx) := by
  obtain ⟨source, hsource, hpick, _⟩ := hforward.guard .ForwardSourceGuard (by decide)
  obtain ⟨hrole, hrule⟩ := picks_iff.mp hpick
  have hshape := rules_shape hrules hsource
  rw [hrole, of_decide_eq_true hrule] at hshape
  generalize hwords : sourceGuard (tapWord alloc.tap) (.read alloc.guestIp) = words at hshape
  cases hshape
  simp only [sourceGuard, cons.injEq] at hwords
  exact read_injective hwords.2.2.2.2.2.1

/-- What passes the guards of a tap is from the guest and leaves by the uplink, and not to the pool
or a link-local address. -/
theorem guards_passed {rules : List ManagedRule} (hiif : p.iif = alloc.tap)
    (hguest : alloc.guestIp = showAddr (guestAddr alloc.idx))
    (hguards : ∀ role ∈ guardRoles, ∃ m ∈ rules, guardOk alloc uplink role m.rule ∧
      outcome p m.rule = some none) :
    p.src = guestAddr alloc.idx ∧ poolNet.contains p.dst = false ∧
      linkLocalNet.contains p.dst = false ∧ p.oif = uplink := by
  have hpass : ∀ {r b}, provided (tapWord p.iif = tapWord alloc.tap) (provided b r) = some none →
      b = true → r = some none := by
    intro r b h
    exact provided_eq_none.mp (provided_eq_none.mp h (decide_eq_true (congrArg tapWord hiif)))
  have hsrc : p.src = guestAddr alloc.idx := by
    obtain ⟨m, _, hrule, h⟩ := hguards .ForwardSourceGuard (by decide)
    rw [of_decide_eq_true hrule, hguest, outcome_sourceGuard] at h
    by_contra hother
    cases hpass h (decide_eq_true hother)
  have hlocal : ∀ role cidr net, role ∈ guardRoles → cidr.toList = showNet net →
      (∀ rule, guardOk alloc uplink role rule →
        rule = daddrGuard (tapWord alloc.tap) (.read alloc.guestIp) cidr) →
      net.contains p.dst = false := by
    intro role cidr net hrole hcidr hwords
    obtain ⟨m, _, hrule, h⟩ := hguards role hrole
    rw [hwords _ hrule, hguest, outcome_daddrGuard hcidr] at h
    by_contra hdst
    cases provided_eq_none.mp (hpass h (decide_eq_true hsrc)) (Bool.eq_true_of_not_eq_false hdst)
  have hpool := hlocal .ForwardLateralGuard _ _ (by decide) poolCidr_eq fun rule =>
    of_decide_eq_true
  have hlinkLocal :=
    hlocal .ForwardLinkLocalGuard _ _ (by decide) linkLocalCidr_eq fun rule => of_decide_eq_true
  refine ⟨hsrc, hpool, hlinkLocal, ?_⟩
  obtain ⟨m, _, hrule, h⟩ := hguards .ForwardUplinkGuard (by decide)
  obtain ⟨hany, hname⟩ := Bool.and_eq_true_iff.mp hrule
  obtain ⟨name, hwords⟩ := uplink_shape hany
  rw [hwords] at h hname
  rw [hguest, uplinkGuard, outcome_from] at h
  obtain rfl := Option.some.inj (of_decide_eq_true hname)
  by_contra hout
  have hleaves : tapWord p.oif ≠ .read (nftQuote uplink) :=
    fun heq => hout (nftQuote_injective (read_injective heq))
  cases provided_eq_none.mp (hpass h (decide_eq_true hsrc)) (decide_eq_true hleaves)

/-- What leaves the tap passed its guards and an allow rule. -/
theorem forward_isolated
    (hchain : validateTaritdSecurityChain parse .vmEgress listing = .ok ())
    (hactive : validateActive allocations.list .vmEgress listing = .ok ())
    (hok : ∀ line ∈ listing, line.Ok) (halloc : (alloc, policy) ∈ allocations.list)
    (hforward : validateCompleteForwardPolicy parse alloc policy uplink listing = .ok ())
    (hiif : p.iif = alloc.tap) (hne : evaluate p listing ≠ some .drop) :
    showAddr p.src = alloc.guestIp ∧ poolNet.contains p.dst = false ∧
      linkLocalNet.contains p.dst = false ∧ p.oif = uplink ∧
      ((∃ entry ∈ policy.allowlist, p.matchesEntry parse entry) ∨
        p.established ∧ policy.allowExisting) := by
  obtain ⟨rules, hrules, hforward⟩ := validateCompleteForwardPolicy_ok hforward
  have hguest := guest_of_forward hrules hforward
  obtain ⟨deny, hdeny, hrule⟩ := hforward.deny
  have htap := rules_tap hrules hok hdeny
  rcases decider hchain hactive hok halloc hrules htap hiif hne with hall | ⟨d, hd, hmild, hbefore⟩
  · -- a packet that passes the guards is dropped in the end
    obtain ⟨hsrc, _⟩ := guards_passed hiif hguest fun role hrole => by
      obtain ⟨m, hm, hpick, _⟩ := hforward.guard role hrole
      exact ⟨m, hm, (picks_iff.mp hpick).2, hall m hm⟩
    have h := hall deny hdeny
    rw [hrule, hguest, egressDeny, outcome_from] at h
    cases provided_eq_none.mp (provided_eq_none.mp h (decide_eq_true (congrArg tapWord hiif)))
      (decide_eq_true hsrc)
  · have hdecides := (rules_shape hrules hd).decides hmild
    have haccept : d.role = .EgressStateful ∨ d.role = .EgressAllow := by
      rcases hdecides with ⟨h, _⟩ | ⟨_, h, _⟩ | ⟨_, h⟩
      · cases h
      · exact .inl h
      · exact .inr h
    obtain ⟨hsrc, hpool, hlinkLocal, hoif⟩ := guards_passed hiif hguest fun role hrole => by
      obtain ⟨m, hm, hpick, hfirst⟩ := hforward.guard role hrole
      obtain ⟨rfl, hok⟩ := picks_iff.mp hpick
      refine ⟨m, hm, hok, hbefore m hm (lt_of_le_of_ne (hfirst d hd haccept) fun h => ?_)⟩
      rw [rules_role hrules hm hd h] at hrole
      rcases haccept with h | h <;> rw [h] at hrole <;> exact absurd hrole (by decide)
    refine ⟨by rw [hguest, hsrc], hpool, hlinkLocal, hoif, ?_⟩
    rcases hdecides with ⟨h, _⟩ | ⟨_, hrole, hestablished⟩ | ⟨_, hrole⟩
    · cases h
    · exact .inr ⟨hestablished, hforward.stateful d hd hrole⟩
    · obtain ⟨entry, hentry, hcompile⟩ := hforward.allow d hd hrole
      exact .inl ⟨entry, hentry, allow_matches hcompile hguest hmild⟩

/-- Only established traffic of the tap reaches the host. -/
theorem input_isolated
    (hchain : validateTaritdSecurityChain parse .vmInput listing = .ok ())
    (hactive : validateActive allocations.list .vmInput listing = .ok ())
    (hok : ∀ line ∈ listing, line.Ok) (halloc : (alloc, policy) ∈ allocations.list)
    (hinput : validateCompleteInputPolicy parse alloc listing = .ok ())
    (hiif : p.iif = alloc.tap) (hne : evaluate p listing ≠ some .drop) : p.established := by
  simp only [validateCompleteInputPolicy, bind_eq_ok] at hinput
  obtain ⟨rules, hrules, _, _, _, _, deny, hdeny, _⟩ := hinput
  obtain ⟨_, m, hm, hpick, _⟩ := exactlyOne_ok hdeny
  simp only [Bool.and_eq_true, decide_eq_true_eq] at hpick
  have htap := rules_tap hrules hok hm
  rcases decider hchain hactive hok halloc hrules htap hiif hne with hall | ⟨d, hd, hmild, _⟩
  · have h := hall m hm
    rw [hpick.2] at h
    cases provided_eq_none.mp h (decide_eq_true (congrArg tapWord hiif))
  · rcases (rules_shape hrules hd).decides hmild with ⟨_, _, h⟩ | ⟨h, _⟩ | ⟨h, _⟩
    · exact h
    · cases h
    · cases h

/-- Whatever the listings are, if they are accepted, the packets of a VM that are forwarded are from
its address, leave by the uplink for a destination that its policy allows, and none of its packets
reaches the host but those of established flows. -/
theorem accepted_policies_isolate (parse : Parsers) (allocations : Allocations) (uplink : List Char)
    (nat forward input : List (List Char))
    (haccept : validateCompleteEffectiveSecurityPolicies parse allocations.list uplink
      (nat.map (Line.read parse.uuid)) (forward.map (Line.read parse.uuid))
      (input.map (Line.read parse.uuid)) = .ok ()) :
    ∀ alloc policy, (alloc, policy) ∈ allocations.list → ∀ p : Packet, p.iif = alloc.tap →
      (evaluate p (forward.map (Line.read parse.uuid)) ≠ some .drop →
        showAddr p.src = alloc.guestIp ∧ poolNet.contains p.dst = false ∧
        linkLocalNet.contains p.dst = false ∧ p.oif = uplink ∧
        ((∃ entry ∈ policy.allowlist, p.matchesEntry parse entry) ∨
          p.established ∧ policy.allowExisting)) ∧
      (evaluate p (input.map (Line.read parse.uuid)) ≠ some .drop → p.established) := by
  simp only [validateCompleteEffectiveSecurityPolicies, bind_eq_ok] at haccept
  obtain ⟨_, _, _, hforward, _, hinput, _, hall, _, _, _, hactive, hactiveInput⟩ := haccept
  intro alloc policy halloc p hiif
  have hread : ∀ lines : List (List Char), ∀ line ∈ lines.map (Line.read parse.uuid), line.Ok := by
    intro lines line hline
    obtain ⟨text, _, rfl⟩ := mem_map.mp hline
    exact read_ok parse.uuid text
  have hpolicy := checkAll_ok hall (alloc, policy) halloc
  simp only [bind_eq_ok] at hpolicy
  obtain ⟨_, _, _, hcomplete, hcompleteInput⟩ := hpolicy
  exact ⟨forward_isolated hforward hactive (hread forward) halloc hcomplete hiif,
    input_isolated hinput hactiveInput (hread input) halloc hcompleteInput hiif⟩

/-! ## Two VMs -/

def libraryParsers : Parsers where
  uuid := parseUuid
  addr text := (readAddr text).bind fun (a, rest) => if rest.isEmpty then some a else none
  net := readNet

/-- A VM of a slot: its id as the rules have it, and its address. -/
structure ListedVm where
  slot : ℕ
  id : String
  guestIp : String

def vmA : ListedVm := ⟨0, "6f9619ff-8b86-4d01-b42d-00cf4fc964ff", "172.16.0.2"⟩

def vmB : ListedVm := ⟨1, "0b2c5a3e-91d7-4f60-8c14-7e5d3a9f1b26", "172.16.0.6"⟩

def allocOf (vm : ListedVm) : NetAlloc :=
  ⟨vm.slot, (parseUuid vm.id.toList).getD 0, tapName vm.slot, vm.guestIp.toList⟩

def twoAllocations : Allocations where
  list := [(allocOf vmA, ⟨["1.1.1.1:443".toList], true⟩),
    (allocOf vmB, ⟨["8.8.8.8:53/udp".toList], false⟩)]
  slots := by decide

def unwords (words : List String) : List Char := words.flatMap fun word => word.toList ++ [' ']

def listed (vm : ListedVm) (rule : List String) (kind : String) : List Char :=
  let tap := tapName vm.slot
  "iifname ".toList ++ nftQuote tap ++ ' ' :: unwords (rule ++ ["comment"]) ++ '"' :: kind.toList ++
    " slot=".toList ++ Nat.toDigits 10 vm.slot ++ " vm=".toList ++ vm.id.toList ++
    " tap=".toList ++ tap ++ "\" # handle 9".toList

def fromGuest (vm : ListedVm) : List String := ["ip", "saddr", vm.guestIp]

def spoofed (vm : ListedVm) : List String :=
  ["ip", "saddr", "!=", vm.guestIp, "counter", "packets", "3", "bytes", "180", "drop"]

def statefulWords : List String := ["ct", "state", "established,related", "accept"]

def natRule (vm : ListedVm) : List Char :=
  listed vm (fromGuest vm ++ ["oifname", "\"eth0\"", "masquerade"]) "taritd"

def guardRules (vm : ListedVm) : List (List Char) :=
  [listed vm (spoofed vm) "taritd-guard",
    listed vm (fromGuest vm ++ ["ip", "daddr", "172.16.0.0/16", "drop"]) "taritd-guard",
    listed vm (fromGuest vm ++ ["ip", "daddr", "169.254.0.0/16", "drop"]) "taritd-guard",
    listed vm (fromGuest vm ++ ["oifname", "!=", "\"eth0\"", "drop"]) "taritd-guard"]

def inputRules (vm : ListedVm) : List (List Char) :=
  [listed vm (spoofed vm) "taritd-input", listed vm statefulWords "taritd-input",
    listed vm ["drop"] "taritd-input"]

def twoForward : List (List Char) :=
  unwords ["chain", "vm_egress", "\x7b"] :: guardRules vmA ++
    [listed vmA (fromGuest vmA ++ statefulWords) "taritd-egress",
      listed vmA (fromGuest vmA ++ ["ip", "daddr", "1.1.1.1", "tcp", "dport", "443", "accept"])
        "taritd-egress",
      listed vmA (fromGuest vmA ++ ["drop"]) "taritd-egress"] ++
    guardRules vmB ++
    [listed vmB (fromGuest vmB ++ ["ip", "daddr", "8.8.8.8", "udp", "dport", "53", "accept"])
        "taritd-egress",
      listed vmB (fromGuest vmB ++ ["drop"]) "taritd-egress", unwords ["\x7d"]]

theorem twoListings_accepted :
    validateCompleteEffectiveSecurityPolicies libraryParsers twoAllocations.list "eth0".toList
      ([natRule vmA, natRule vmB].map (Line.read libraryParsers.uuid))
      (twoForward.map (Line.read libraryParsers.uuid))
      ((inputRules vmA ++ inputRules vmB).map (Line.read libraryParsers.uuid)) = .ok () := by
  decide +kernel

def packetTo (dst : Ipv4Addr) (port : ℕ) : Packet :=
  ⟨tapName 0, "eth0".toList, guestAddr 0, dst, .tcp port, false⟩

/-- The listings of two VMs are accepted. A packet of the first to the port that it may reach is
forwarded, and none to the second. -/
theorem two_vms_isolated :
    evaluate (packetTo (Fin.ofNat _ 16843009) 443)
      (twoForward.map (Line.read libraryParsers.uuid)) =
        some .accept ∧
      (∃ entry ∈ ["1.1.1.1:443".toList],
        (packetTo (Fin.ofNat _ 16843009) 443).matchesEntry libraryParsers entry) ∧
      evaluate (packetTo (guestAddr 1) 443) (twoForward.map (Line.read libraryParsers.uuid)) =
        some .drop := by
  have hisolated := accepted_policies_isolate libraryParsers twoAllocations "eth0".toList
    [natRule vmA, natRule vmB] twoForward (inputRules vmA ++ inputRules vmB) twoListings_accepted
    _ _ (mem_cons_self ..)
  have haccept : evaluate (packetTo (Fin.ofNat _ 16843009) 443)
      (twoForward.map (.read libraryParsers.uuid)) = some .accept := by
    decide +kernel
  refine ⟨haccept, ?_, ?_⟩
  · obtain ⟨_, _, _, _, hentry | ⟨hestablished, _⟩⟩ :=
      (hisolated (packetTo (Fin.ofNat _ 16843009) 443) rfl).1 (by rw [haccept]; decide)
    · exact hentry
    · cases hestablished
  · by_contra hne
    obtain ⟨_, hpool, _⟩ := (hisolated (packetTo (guestAddr 1) 443) rfl).1 hne
    revert hpool
    decide

end Tarit.Net
