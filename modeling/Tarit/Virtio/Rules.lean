import Tarit.Virtio.Queue

/-!
# Rules for the memory accesses and loops of a device

What a store leaves alone, which addresses of an accepted queue are inside RAM, and the
triples of `Tarit.Lib.World` for the accesses and for the loops of the walker. A loop rule
takes an assertion for every round; the callers say what a round keeps and never unfold
the loop.
-/
namespace Tarit.Virtio

open Lib Live Snapshot World Prog Triple

/-! ## Memory -/

variable {n a addr len : Nat} {L : Layout} {data : Bytes}

section Memory

variable {cells : Nat → UInt8} {i : Nat} {g : Guest}

theorem room_add (h : n ≤ room L addr) : room L addr ≤ n + room L (addr + n) := by
  unfold room at h ⊢
  split at h
  · rw [if_pos (by assumption)]
    split
    · omega
    · split <;> omega
  · rw [if_neg (by assumption)]
    split at h
    · rw [if_pos (by assumption), if_neg (by omega), if_pos (by omega)]
      omega
    · rw [if_neg (by assumption)]
      omega

theorem checkRange_sub {off : Nat} (h : checkRange L addr len = true) (hn : off + n ≤ len) :
    checkRange L (addr + off) n = true := by
  simp only [checkRange, decide_eq_true_eq] at h ⊢
  have hroom : off ≤ room L addr := by omega
  have := room_add hroom
  omega

theorem checkRange_le (h : checkRange L addr len = true) (hn : n ≤ len) :
    checkRange L addr n = true :=
  decide_eq_true (le_trans hn (of_decide_eq_true h))

theorem put_outside (h : i < addr ∨ addr + data.length ≤ i) : put cells addr data i = cells i := by
  unfold put
  rw [if_neg (by omega)]

theorem put_inside {j : Nat} (hj : j < data.length) :
    put cells addr data (addr + j) = data.getD j 0 := by
  unfold put
  rw [if_pos (by omega), Nat.add_sub_cancel_left]

theorem peek_congr {cells' : Nat → UInt8}
    (h : ∀ j, j < len → cells (addr + j) = cells' (addr + j)) :
    peek cells addr len = peek cells' addr len := by
  unfold peek
  rw [List.map_inj_left]
  intro j hj
  exact h j (List.mem_range.mp hj)

theorem peek_put_self : peek (put cells addr data) addr data.length = data := by
  apply List.ext_getElem?
  intro j
  by_cases hj : j < data.length
  · simp [peek, hj, put_inside hj]
  · rw [List.getElem?_eq_none (by simp [peek]; omega), List.getElem?_eq_none (by omega)]

theorem store_cells_outside (h : i < addr ∨ addr + data.length ≤ i) :
    (g.store L addr data).cells i = g.cells i := by
  apply put_outside
  rw [List.length_take]
  omega

theorem store_cells_of_range (h : checkRange L addr data.length = true) :
    (g.store L addr data).cells = put g.cells addr data := by
  have hl : data.length ≤ room L addr := by simpa [checkRange] using h
  simp only [Guest.store, List.take_of_length_le hl]

theorem peek_store_outside (h : a + n ≤ addr ∨ addr + data.length ≤ a) :
    peek (g.store L addr data).cells a n = peek g.cells a n := by
  apply peek_congr
  intro j hj
  apply store_cells_outside
  omega

end Memory

theorem slice_peek {cells : Nat → UInt8} {off : Nat} (h : off + n ≤ len) :
    slice (peek cells addr len) off n = peek cells (addr + off) n := by
  apply List.ext_getElem?
  intro j
  rw [getElem?_slice]
  by_cases hj : j < n
  · rw [if_pos hj]
    simp [peek, hj, show off + j < len by omega, add_assoc]
  · rw [if_neg hj, List.getElem?_eq_none (by simp [peek]; omega)]

def word (cells : Nat → UInt8) (addr : Nat) : UInt16 :=
  UInt16.ofNat (fromLeBytes (peek cells addr 2))

theorem word_store_outside {g : Guest} (h : a + 2 ≤ addr ∨ addr + data.length ≤ a) :
    word (g.store L addr data).cells a = word g.cells a := by
  unfold word
  rw [peek_store_outside h]

@[simp] theorem u16Bytes_length (v : UInt16) : (u16Bytes v).length = 2 := toLeBytes_length

@[simp] theorem usedElem_length (id : UInt16) (len : Nat) :
    (usedElem id len).length = USED_ELEM_SIZE := by
  simp [usedElem, USED_ELEM_SIZE]

theorem word_put_self (cells : Nat → UInt8) (addr : Nat) (v : UInt16) :
    word (put cells addr (u16Bytes v)) addr = v := by
  have h : peek (put cells addr (u16Bytes v)) addr (u16Bytes v).length = u16Bytes v := peek_put_self
  rw [u16Bytes_length] at h
  rw [word, h, u16Bytes, fromLeBytes_toLeBytes v.toNat_lt, UInt16.ofNat_toNat]

theorem word_put_outside {cells : Nat → UInt8} (h : a + 2 ≤ addr ∨ addr + data.length ≤ a) :
    word (put cells addr data) a = word cells a := by
  unfold word
  congr 2
  apply peek_congr
  intro j hj
  apply put_outside
  omega

/-! ## 16-bit distances -/

theorem sub_toNat_eq_zero {a b : UInt16} : (a - b).toNat = 0 ↔ b = a := by
  have ha := a.toNat_lt
  have hb := b.toNat_lt
  rw [← UInt16.toNat_inj, UInt16.toNat_sub]
  omega

theorem sub_succ_toNat {a b : UInt16} (h : (a - b).toNat = n + 1) : (a - (b + 1)).toNat = n := by
  have hb := b.toNat_lt
  rw [UInt16.toNat_sub] at h
  rw [UInt16.toNat_sub, UInt16.toNat_add, UInt16.toNat_one]
  omega

/-! ## Addresses of an accepted queue -/

theorem checkedAdd_eq_some {b : Nat} (h : checkedAdd a b = some n) : n = a + b := by
  obtain ⟨-, h⟩ := Option.ite_none_right_eq_some.mp h
  exact (Option.some.inj h).symm

/-- What `queue_is_usable` found out. -/
structure Usable (L : Layout) (c : QueueConfig) : Prop where
  size_pos : 0 < c.size.toNat
  size_le : c.size.toNat ≤ 1024
  desc : checkRange L c.desc_table_addr c.descBytes = true
  avail : checkRange L c.avail_ring_addr c.availBytes = true
  used : checkRange L c.used_ring_addr c.usedBytes = true
  desc_fits : c.desc_table_addr + c.descBytes ≤ u64Size
  avail_fits : c.avail_ring_addr + c.availBytes ≤ u64Size
  used_fits : c.used_ring_addr + c.usedBytes ≤ u64Size

theorem guestRangeIsValid_pos (h : guestRangeIsValid L addr len = true) (hlen : 0 < len) :
    checkRange L addr len = true ∧ addr + len ≤ u64Size := by
  simp only [guestRangeIsValid, Bool.or_eq_true, Bool.and_eq_true, decide_eq_true_eq] at h
  rcases h with h | ⟨hsome, hrange⟩
  · omega
  obtain ⟨last, hlast⟩ := Option.isSome_iff_exists.mp hsome
  unfold checkedAdd at hlast
  split at hlast
  · exact ⟨hrange, by omega⟩
  · cases hlast

theorem usable_of {c : QueueConfig} (h : c.queueIsUsable L = true) : Usable L c := by
  simp only [QueueConfig.queueIsUsable, Bool.and_eq_true, bne_iff_ne] at h
  obtain ⟨⟨⟨⟨⟨_, hsize⟩, hvalid⟩, hdesc⟩, havail⟩, hused⟩ := h
  have hpos : 0 < c.size.toNat := by
    have hne : c.size.toNat ≠ (0 : UInt16).toNat := fun h => hsize (UInt16.toNat_inj.mp h)
    have h0 : (0 : UInt16).toNat = 0 := rfl
    omega
  have hle : c.size.toNat ≤ 1024 := by
    simp only [QueueConfig.hasValidSize, isValidQueueSize, Bool.and_eq_true,
      decide_eq_true_eq] at hvalid
    exact UInt16.le_iff_toNat_le.mp hvalid.1.2
  obtain ⟨hdesc, hdesc'⟩ := guestRangeIsValid_pos hdesc (by
    unfold QueueConfig.descBytes DESCRIPTOR_SIZE; omega)
  obtain ⟨havail, havail'⟩ := guestRangeIsValid_pos havail (by
    unfold QueueConfig.availBytes; omega)
  obtain ⟨hused, hused'⟩ := guestRangeIsValid_pos hused (by
    unfold QueueConfig.usedBytes; omega)
  exact ⟨hpos, hle, hdesc, havail, hused, hdesc', havail', hused'⟩

namespace Usable

variable {c : QueueConfig} (hc : Usable L c) (position : UInt16)

include hc

theorem slot_lt : (position % c.size).toNat < c.size.toNat := by
  rw [UInt16.toNat_mod]
  exact Nat.mod_lt _ hc.size_pos

theorem availEntryAddr : ∃ addr, c.availEntryAddr position = some addr ∧
    checkRange L addr 2 = true := by
  have hslot := hc.slot_lt position
  have hfits := hc.avail_fits
  have havail := hc.avail
  unfold QueueConfig.availBytes at hfits havail
  exact ⟨_, if_pos (by omega), checkRange_sub havail (by omega)⟩

/-- Every entry of the used ring lies in the ring and can be written. -/
theorem usedEntryAddr : ∃ addr, c.usedEntryAddr position = some addr ∧
    checkRange L addr USED_ELEM_SIZE = true ∧
    c.used_ring_addr + 4 ≤ addr ∧ addr + USED_ELEM_SIZE ≤ c.used_ring_addr + c.usedBytes := by
  have hslot := hc.slot_lt position
  have hfits := hc.used_fits
  have hused := hc.used
  unfold QueueConfig.usedBytes USED_ELEM_SIZE at *
  exact ⟨_, if_pos (by unfold USED_ELEM_SIZE; omega),
    checkRange_sub hused (by unfold USED_ELEM_SIZE; omega), by omega,
    by unfold USED_ELEM_SIZE; omega⟩

omit position

theorem availIdxAddr : c.availIdxAddr = some (c.avail_ring_addr + 2) ∧
    checkRange L (c.avail_ring_addr + 2) 2 = true := by
  have hfits := hc.avail_fits
  have havail := hc.avail
  unfold QueueConfig.availBytes at hfits havail
  exact ⟨if_pos (by omega), checkRange_sub havail (by omega)⟩

theorem availHeader : checkRange L c.avail_ring_addr 4 = true := by
  have havail := hc.avail
  unfold QueueConfig.availBytes at havail
  exact checkRange_le havail (by omega)

theorem usedIdxAddr : c.usedIdxAddr = some (c.used_ring_addr + 2) ∧
    checkRange L (c.used_ring_addr + 2) 2 = true := by
  have hfits := hc.used_fits
  have hused := hc.used
  unfold QueueConfig.usedBytes USED_ELEM_SIZE at hfits hused
  exact ⟨if_pos (by omega), checkRange_sub hused (by omega)⟩

end Usable

/-! ## Accesses -/

section Triples

attribute [local irreducible] Triple

variable {H δ τ : Type} {A : H → Type} {S : Nat → Bytes → Prop} {env : Guest × τ → Guest × τ → Prop}
  {host : (call : H) → τ → A call → τ → Prop} {P : Guest × τ → Prop}

section Stable

variable (hP : (deviceWorld L S env host).Stable P)

include hP

theorem triple_load {Q : Option Bytes → Guest × τ → Prop}
    (hQ : ∀ r, (deviceWorld L S env host).Stable (Q r))
    (h : ∀ s, P s → Q (s.1.load L addr len) s) :
    (deviceWorld L S env host).Triple P (load addr len : Device A _) Q := by
  apply perform hP
  · intro s r t hs hexec
    obtain ⟨rfl, rfl⟩ := hexec
    exact h _ hs
  · exact hQ

theorem triple_readU16 {Q : Option UInt16 → Guest × τ → Prop} (haddr : checkRange L addr 2 = true)
    (hQ : ∀ r, (deviceWorld L S env host).Stable (Q r))
    (h : ∀ s, P s → Q (some (word s.1.cells addr)) s) :
    (deviceWorld L S env host).Triple P (readU16 addr : Device A _) Q := by
  apply map
  apply triple_load hP (fun r => hQ _)
  intro s hs
  rw [Guest.load, if_pos haddr]
  exact h s hs

/-- The call's host answers, and the assertion is about what it may answer. -/
theorem triple_call {c : H} {Q : A c → Guest × τ → Prop}
    (hQ : ∀ r, (deviceWorld L S env host).Stable (Q r))
    (h : ∀ g x r y, P (g, x) → host c x r y → Q r (g, y)) :
    (deviceWorld L S env host).Triple P (call c : Device A _) Q := by
  apply perform hP
  · intro s r t hs hexec
    obtain ⟨hhost, ht⟩ := hexec
    have := h s.1 s.2 r t.2 hs hhost
    rwa [← ht] at this
  · exact hQ

theorem triple_store {Q : Bool → Guest × τ → Prop}
    (hQ : ∀ r, (deviceWorld L S env host).Stable (Q r)) (h : ∀ s, P s → S addr data →
      Q (checkRange L addr data.length) (s.1.store L addr data, s.2)) :
    (deviceWorld L S env host).Triple P (store addr data : Device A _) Q := by
  apply perform hP
  · intro s r t hs hexec
    obtain ⟨hS, rfl, rfl⟩ := hexec
    exact h _ hs hS
  · exact hQ

theorem triple_markGuest {gpa : Nat} {Q : Guest × τ → Prop}
    (hQ : (deviceWorld L S env host).Stable Q)
    (h : ∀ s, P s → Q ({ s.1 with dirty := markGuestRange s.1.dirty gpa len }, s.2)) :
    (deviceWorld L S env host).Triple P (markGuest gpa len : Device A _) fun _ => Q := by
  apply perform hP
  · intro s r t hs hexec
    rw [hexec]
    exact h _ hs
  · exact fun _ => hQ

/-- A marked write: `M` holds between the store and the mark. -/
theorem triple_writeMem {M Q : Bool → Guest × τ → Prop}
    (hM : ∀ r, (deviceWorld L S env host).Stable (M r))
    (hQ : ∀ r, (deviceWorld L S env host).Stable (Q r)) (hstore : ∀ s, P s → S addr data →
      M (checkRange L addr data.length) (s.1.store L addr data, s.2)) (hmark : ∀ s, M true s →
      Q true ({ s.1 with dirty := markGuestRange s.1.dirty addr data.length }, s.2))
    (hfail : ∀ s, M false s → Q false s) :
    (deviceWorld L S env host).Triple P (writeMem addr data : Device A _) Q := by
  apply bind (triple_store hP hM hstore)
  intro r
  cases r with
  | true => exact .map (triple_markGuest (hM true) (hQ true) hmark)
  | false => exact .pure (hM false) hfail

end Stable

section Keeps

variable {I : Guest × τ → Prop} (hI : (deviceWorld L S env host).Stable I)
  (hmark : ∀ s gpa len, I s → I ({ s.1 with dirty := markGuestRange s.1.dirty gpa len }, s.2))

include hI hmark

theorem triple_writeMem_keeps (hstore : ∀ s, I s → S addr data → I (s.1.store L addr data, s.2)) :
    (deviceWorld L S env host).Triple I (writeMem addr data : Device A _) fun _ => I :=
  triple_writeMem hI (fun _ => hI) (fun _ => hI) hstore (fun s hs => hmark s _ _ hs) fun _ hs => hs

theorem triple_publish_keeps {addr : Option Nat} {v : UInt16}
    (hstore : ∀ a s, addr = some a → I s → S a (u16Bytes v) → I (s.1.store L a (u16Bytes v), s.2)) :
    (deviceWorld L S env host).Triple I (publish addr v : Device A _) fun _ => I := by
  cases addr with
  | none => exact .pure hI fun _ h => h
  | some a => exact .map (triple_writeMem_keeps hI hmark fun s hs hS => hstore a s rfl hs hS)

end Keeps

/-- Loads of bytes of `R`. -/
def LoadsIn (R : Nat → Prop) : Op H → Prop
  | .load addr len => ∀ j, j < len → R (addr + j)
  | _ => False

/-- Programs that only load keep every stable assertion. -/
theorem triple_loads {α : Type} {R : Nat → Prop} {p : Device A α} (hp : p.Uses (LoadsIn R))
    (hP : (deviceWorld L S env host).Stable P) :
    (deviceWorld L S env host).Triple P p fun _ => P := by
  apply of_uses hp hP
  intro o s r t ho hs hexec
  cases o with
  | load addr len =>
    obtain ⟨rfl, rfl⟩ := hexec
    exact hs
  | store => cases ho
  | mark => cases ho
  | host => cases ho

/-! ## The walk of a chain -/

def DescriptorChain.InRam (L : Layout) (chain : DescriptorChain) : Prop :=
  (∀ b ∈ chain.readable, checkRange L b.1 b.2 = true) ∧
    ∀ b ∈ chain.writable, checkRange L b.1 b.2 = true

def QueueConfig.Reads (c : QueueConfig) (i : Nat) : Prop :=
  (c.avail_ring_addr ≤ i ∧ i < c.avail_ring_addr + c.availBytes) ∨
    (c.desc_table_addr ≤ i ∧ i < c.desc_table_addr + c.descBytes)

theorem walkFrom_uses (c : QueueConfig) (left : Nat) (i : UInt16) (w : Walk) :
    (walkFrom L c left i w : Device A _).Uses (LoadsIn c.Reads) := by
  induction left generalizing i w with
  | zero => trivial
  | succ left ih =>
    unfold walkFrom
    split
    · trivial
    rename_i hi
    split
    · trivial
    rename_i addr haddr
    apply uses_bind
    · constructor
      · intro j hj
        have hlt : i.toNat < c.size.toNat := Nat.lt_of_not_le hi
        rw [checkedAdd_eq_some haddr]
        unfold QueueConfig.Reads QueueConfig.descBytes DESCRIPTOR_SIZE at *
        omega
      · exact fun _ => trivial
    · intro bytes
      cases bytes with
      | none => trivial
      | some bytes =>
        change Prog.Uses _ (if _ then _ else if _ then _ else _)
        split
        · trivial
        split
        · trivial
        · exact ih _ _

theorem walkDescriptorChain_uses (c : QueueConfig) (head : UInt16) :
    (walkDescriptorChain L c head : Device A _).Uses (LoadsIn c.Reads) := by
  unfold walkDescriptorChain
  split
  · trivial
  · exact walkFrom_uses c _ _ _

theorem Walk.push_inRam {w : Walk} {desc : Descriptor} (hw : w.chain.InRam L)
    (h : w.accepts L desc = true) : (w.push desc).chain.InRam L := by
  have hvalid : checkRange L desc.addr desc.len = true := by
    simp only [Walk.accepts, Bool.and_eq_true] at h
    by_cases hlen : desc.len = 0
    · simp [checkRange, hlen]
    · exact (guestRangeIsValid_pos h.2 (by omega)).1
  have hadd : ∀ bufs : List Buf, (∀ b ∈ bufs, checkRange L b.1 b.2 = true) →
      ∀ b ∈ bufs ++ [(desc.addr, desc.len)], checkRange L b.1 b.2 = true := fun _ hbufs =>
    List.forall_mem_append.mpr ⟨hbufs, List.forall_mem_singleton.mpr hvalid⟩
  unfold Walk.push
  split
  · exact ⟨hw.1, hadd _ hw.2⟩
  · exact ⟨hadd _ hw.1, hw.2⟩

theorem walkFrom_inRam (c : QueueConfig) (left : Nat) (i : UInt16) (w : Walk)
    (hw : w.chain.InRam L) :
    (walkFrom L c left i w : Device A _).Gives fun r =>
    ∀ chain, r = some chain → chain.InRam L := by
  have hnone : ∀ chain, (none : Option DescriptorChain) = some chain → chain.InRam L := nofun
  induction left generalizing i w with
  | zero => exact hnone
  | succ left ih =>
    unfold walkFrom
    split
    · exact hnone
    split
    · exact hnone
    intro bytes
    cases bytes with
    | none => exact hnone
    | some bytes =>
      change Prog.Gives _ (if _ then _ else if _ then _ else _)
      split
      · exact hnone
      rename_i haccept
      have hpush := Walk.push_inRam hw (not_not.mp haccept)
      split
      · intro chain hchain
        cases hchain
        exact hpush
      · exact ih _ _ hpush

theorem walkDescriptorChain_inRam (c : QueueConfig) (head : UInt16) :
    (walkDescriptorChain L c head : Device A _).Gives fun r =>
      ∀ chain, r = some chain → chain.InRam L := by
  unfold walkDescriptorChain
  split
  · exact nofun
  · apply walkFrom_inRam
    constructor <;> exact nofun

/-! ## The loops -/

/-- The inner loop keeps what its handler and the used entries keep. It runs to the available
index it was given unless the handler leaves a chain, and then `φ`. -/
theorem triple_drain {c : QueueConfig} (hc : Usable L c) {handler : Handler A δ} {v : UInt16}
    {I : Guest × τ → Prop} {φ : Prop} {ev : Bool} (hI : (deviceWorld L S env host).Stable I)
    (hmark : ∀ x gpa len, I x → I ({ x.1 with dirty := markGuestRange x.1.dirty gpa len }, x.2))
    (hentry : ∀ x position head addr len, c.usedEntryAddr position = some addr → I x →
      S addr (usedElem head len) → I (x.1.store L addr (usedElem head len), x.2))
    (hh : ∀ d readable writable, (deviceWorld L S env host).Triple I (handler d readable writable)
      fun r x => (r.1 = none → φ) ∧ I x)
    (n : Nat) (s : Session δ) (hs : s.queue.config = c ∧ s.queue.event_idx = ev)
    (hn : (v - s.queue.last_avail_idx).toNat = n) :
    (deviceWorld L S env host).Triple I (drain L handler v n s) fun r x =>
      ((r.2.queue.config = c ∧ r.2.queue.event_idx = ev) ∧ (r.1 = true → φ) ∧
        (r.1 = false → r.2.queue.last_avail_idx = v)) ∧ I x := by
  induction n generalizing s with
  | zero => exact .pure hI fun x hx => ⟨⟨hs, nofun, fun _ => sub_toNat_eq_zero.mp hn⟩, hx⟩
  | succ n ih =>
    have hnext := sub_succ_toNat hn
    unfold drain
    split
    · next heq => exact .pure hI fun x hx => ⟨⟨hs, nofun, fun _ => heq⟩, hx⟩
    obtain ⟨entry, havail, hrange⟩ := hc.availEntryAddr s.queue.last_avail_idx
    obtain ⟨addr, haddr, -⟩ := hc.usedEntryAddr s.queue.last_used_idx
    rw [hs.1, havail]
    apply bind (Q := fun r x => (∃ head, r = some head) ∧ I x)
    · apply triple_readU16 hI hrange (fun _ => .and World.stable_const hI)
      exact fun x hx => ⟨⟨_, rfl⟩, hx⟩
    · intro r
      apply of_and
      rintro ⟨head, rfl⟩
      apply bind (triple_loads (walkDescriptorChain_uses c head) hI)
      intro chain
      cases chain with
      | none => exact ih _ hs hnext
      | some chain =>
        apply bind (hh s.captured chain.readable chain.writable)
        rintro ⟨answer, d⟩
        cases answer with
        | none =>
          apply Triple.pure (.and World.stable_const hI)
          exact fun x hx => ⟨⟨hs, fun _ => hx.1 rfl, nofun⟩, hx.2⟩
        | some len =>
          rw [haddr]
          have hwrite := triple_writeMem_keeps hI hmark
            fun x hx hS => hentry x _ head addr len haddr hx hS
          exact bind (hwrite.pre fun x hx => hx.2) fun _ => ih _ hs hnext

/-- The outer loop: `J` at the head of every round, `R` when the call returns. -/
theorem triple_rounds {handler : Handler A δ} {J R : Session δ → Guest × τ → Prop}
    (stable : ∀ s, (deviceWorld L S env host).Stable (J s))
    (hround : ∀ s, (deviceWorld L S env host).Triple (J s) (round L handler s) fun r x =>
      match r with
      | .inl s => J s x
      | .inr s => R s x)
    (fuel : Nat) (s : Session δ) :
    (deviceWorld L S env host).Triple (J s) (rounds L handler fuel s) fun r x =>
      ∀ t, r = some t → R t x := by
  induction fuel generalizing s with
  | zero => exact .pure (stable s) fun _ _ => nofun
  | succ fuel ih =>
    obtain ⟨Q, hQ, hround', himp⟩ := (hround s).settled
    apply bind hround'
    intro r
    cases r with
    | inl t => exact (ih t).pre (himp (.inl t))
    | inr t =>
      apply Triple.pure (hQ _)
      rintro x hx _ ⟨⟩
      exact himp (.inr t) x hx

end Triples

/-! ## What the loops keep of their variables -/

section Kept

attribute [local irreducible] Triple

variable {σ H δ : Type} {A : H → Type} {L : Layout} {handler : Handler A δ} {J : Session δ → Prop}
  {w : World σ (Op H) (Res A)}

/-- A round after its inner loop: the session stays what the loop has left. -/
def endRound (r : Bool × Session δ) : Device A (Session δ ⊕ Session δ) := do
  publish r.2.queue.config.usedIdxAddr r.2.queue.last_used_idx
  if ¬ r.2.queue.event_idx then return .inr r.2
  publish r.2.queue.config.availEventAddr r.2.queue.last_avail_idx
  if r.1 then return .inr r.2
  match r.2.queue.config.availIdxAddr with
  | none => return .inr r.2
  | some addr =>
    match ← readU16 addr with
    | none => return .inr r.2
    | some idx => if idx ≠ r.2.queue.last_avail_idx then return .inl r.2 else return .inr r.2

theorem round_eq (s : Session δ) : round L handler s =
    (load s.queue.config.avail_ring_addr 4 >>= fun
      | none => pure (.inr s)
      | some header =>
        let avail_idx := UInt16.ofNat (fromLeBytes (slice header 2 2))
        drain L handler avail_idx (avail_idx - s.queue.last_avail_idx).toNat s >>= endRound) := rfl

theorem endRound_gives (r : Bool × Session δ) :
    (endRound r : Device A _).Gives fun x => x.elim id id = r.2 := by
  apply gives_skip
  intro _
  split
  · exact rfl
  apply gives_skip
  intro _
  split
  · exact rfl
  split
  · exact rfl
  apply gives_skip
  intro idx
  cases idx with
  | none => exact rfl
  | some idx => exact gives_ite (fun _ => rfl) fun _ => rfl

/-- What rejecting a chain, the handler and a used entry keep, whatever the memory holds. -/
structure KeptBy (w : World σ (Op H) (Res A)) (L : Layout) (handler : Handler A δ)
    (J : Session δ → Prop) : Prop where
  reject : ∀ s, J s → J { s with queue := s.queue.rejectAvailableChain }
  handle : ∀ s (chain : DescriptorChain), chain.InRam L → J s →
    w.Triple (fun _ => True) (handler s.captured chain.readable chain.writable) fun r _ =>
      J { s with captured := r.2 } ∧ (r.1 ≠ none → J ⟨s.queue.advance, s.processed + 1, r.2⟩)

theorem KeptBy.drain (h : KeptBy w L handler J) {avail_idx : UInt16} (n : Nat) {s : Session δ}
    (hs : J s) : w.Triple (fun _ => True) (drain L handler avail_idx n s) fun r _ => J r.2 := by
  induction n generalizing s with
  | zero => exact .ret fun _ => hs
  | succ n ih =>
    unfold Virtio.drain
    split
    · exact .ret fun _ => hs
    split
    · exact .ret fun _ => hs
    apply skip
    intro head
    cases head with
    | none => exact .ret fun _ => hs
    | some head =>
      apply known (.of_gives (walkDescriptorChain_inRam _ head))
      intro chain hchain
      cases chain with
      | none => exact ih (h.reject s hs)
      | some chain =>
        apply known (h.handle s chain (hchain chain rfl) hs)
        rintro ⟨answer, d⟩ hr
        cases answer with
        | none => exact .ret fun _ => hr.1
        | some len =>
          dsimp only
          split
          · exact .ret fun _ => hr.1
          apply skip
          intro _
          exact ih (hr.2 nofun)

/-- A round keeps what rejecting and handling one chain keep. -/
theorem KeptBy.round (h : KeptBy w L handler J) {s : Session δ} (hs : J s) :
    w.Triple (fun _ => True) (round L handler s) fun r _ => J (r.elim id id) := by
  rw [round_eq]
  apply skip
  intro header
  cases header with
  | none => exact .ret fun _ => hs
  | some header =>
    apply known (h.drain _ hs)
    intro r hr
    exact .of_gives ((endRound_gives r).imp fun x hx => hx ▸ hr)

theorem KeptBy.process (h : KeptBy w L handler J) (fuel : Nat) {q : VirtQueueProcessor} {d : δ}
    (hs : J ⟨q, 0, d⟩) :
    w.Triple (fun _ => True) (processQueueDescriptorsDirty L fuel handler q d) fun r _ =>
      ∀ t, r = some t → J t := by
  have hrounds : ∀ s, J s → w.Triple (fun _ => True) (rounds L handler fuel s) fun r _ =>
      ∀ t, r = some t → J t := by
    induction fuel with
    | zero =>
      intro s _
      exact .ret nofun
    | succ fuel ih =>
      intro s hs
      apply known (h.round hs)
      intro r hr
      cases r with
      | inl t => exact ih t hr
      | inr t =>
        apply ret
        rintro _ _ ⟨⟩
        exact hr
  unfold processQueueDescriptorsDirty
  split
  · exact hrounds _ hs
  apply ret
  rintro _ _ ⟨⟩
  exact hs

/-- A call relates what the closure captured as a run of the handler does. -/
theorem process_captured {R : δ → δ → Prop} (refl : ∀ d, R d d)
    (trans : ∀ a b c, R a b → R b c → R a c)
    (h : ∀ d readable writable, (handler d readable writable).Gives fun r => R d r.2)
    (fuel : Nat) (q : VirtQueueProcessor) (d : δ) :
    (processQueueDescriptorsDirty L fuel handler q d).Gives fun r =>
      ∀ t, r = some t → R d t.captured := by
  have hkept : KeptBy .any L handler fun s => R d s.captured := by
    constructor
    · exact fun s hs => hs
    · intro s chain _ hs
      apply of_gives
      apply (h s.captured chain.readable chain.writable).imp
      intro r hr
      exact ⟨trans _ _ _ hs hr, fun _ => trans _ _ _ hs hr⟩
  exact World.gives_of_any (hkept.process fuel (refl d))

/-- Without event indices one round is enough. -/
theorem process_plain (fuel : Nat) {q : VirtQueueProcessor} (hq : q.event_idx = false) (d : δ) :
    (processQueueDescriptorsDirty L (fuel + 1) handler q d).Gives fun r => ∃ t, r = some t := by
  have hkept : KeptBy .any L handler fun s => s.queue.event_idx = false := by
    constructor
    · exact fun s hs => hs
    · exact fun s _ _ hs => .of_gives ((gives_all _).imp fun _ _ => ⟨hs, fun _ => hs⟩)
  have hround : (round L handler ⟨q, 0, d⟩).Gives fun r => ∃ t, r = .inr t := by
    apply gives_skip
    intro header
    cases header with
    | none => exact ⟨_, rfl⟩
    | some header =>
      apply gives_bind (World.gives_of_any (hkept.drain _ hq))
      intro r hr
      obtain ⟨stopped, t⟩ := r
      apply gives_skip
      intro _
      rw [hr]
      exact ⟨t, rfl⟩
  unfold processQueueDescriptorsDirty
  split
  · apply gives_bind hround
    intro r hr
    obtain ⟨t, rfl⟩ := hr
    exact ⟨t, rfl⟩
  · exact ⟨_, rfl⟩

end Kept

end Tarit.Virtio
