import Tarit.Virtio.Rounds
import Tarit.Virtio.Net

/-!
# When the mergeable receive loops end

`inject_rx_mergeable` and `rx_mergeable_from_tap` peek at receive chains until a frame fits,
and go round again as long as `publish_used` reports entries that were not seen. Peeking stops
early at a malformed entry behind a well-formed one and at a queue size of chains, so entries
the guest leaves behind such a place are never seen and the loop never ends.
-/
namespace Tarit.Virtio

open Lib Live Snapshot Prog List

/-- The driver's side of the queue is in `g'` what it is in `g`. -/
def SameRings (c : QueueConfig) (g g' : Guest) : Prop := ∀ i, c.Reads i → g'.cells i = g.cells i

def OffRings (c : QueueConfig) (addr : Nat) (data : Bytes) : Prop :=
  Off c.avail_ring_addr c.availBytes addr data ∧ Off c.desc_table_addr c.descBytes addr data

instance (c : QueueConfig) (addr : Nat) (data : Bytes) : Decidable (OffRings c addr data) :=
  inferInstanceAs (Decidable (_ ∧ _))

/-! ## Peeking on paper -/

namespace VirtQueueProcessor

def keep (q : VirtQueueProcessor) (p : PeekedChain) : VirtQueueProcessor :=
  { q with peeked := q.peeked ++ [p] }

def useFirst (q : VirtQueueProcessor) (n : Nat) : VirtQueueProcessor :=
  { q with
    peeked := q.peeked.drop n
    last_avail_idx := q.last_avail_idx + UInt16.ofNat n
    last_used_idx := q.last_used_idx + UInt16.ofNat n }

/-- Entries up to the available index `v` the walker has not consumed. -/
def ahead (q : VirtQueueProcessor) (v : UInt16) : Nat := (v - q.last_avail_idx).toNat

/-- There is an entry behind the chains held, and no queue size of them is held yet. -/
def CanPeek (q : VirtQueueProcessor) (v : UInt16) : Prop :=
  q.peeked.length < q.ahead v ∧ q.peeked.length < q.config.size.toNat

instance (q : VirtQueueProcessor) (v : UInt16) : Decidable (q.CanPeek v) :=
  inferInstanceAs (Decidable (_ ∧ _))

end VirtQueueProcessor

section Paper

-- What the entry at a position of the available ring leads to: a receive chain or, if it is
-- malformed, nothing.
variable (e : UInt16 → Option PeekedChain) (v : UInt16)

/-- Peeking on, one entry after the other, leads to a queue with `φ`. Malformed entries are
skipped only while no chain is held. -/
inductive Front (φ : VirtQueueProcessor → Prop) : VirtQueueProcessor → Prop where
  | here {q : VirtQueueProcessor} (h : φ q) : Front φ q
  | keep {q : VirtQueueProcessor} {p : PeekedChain} (hpeek : q.CanPeek v) (hp : e q.seen = some p)
      (h : Front φ (q.keep p)) : Front φ q
  | skip {q : VirtQueueProcessor} (hpeek : q.CanPeek v) (hnone : q.peeked = [])
      (hp : e q.seen = none)
      (h : Front φ q.rejectAvailableChain) : Front φ q

/-- The frame fits into the chains held and the well-formed ones in front. -/
def Holds (need : Nat) : VirtQueueProcessor → Prop := Front e v fun q => need ≤ q.peekedCapacity

/-- The frame fits into these chains, or they are all there are. -/
def Fits (need : Nat) : VirtQueueProcessor → Prop :=
  Front e v fun q => need ≤ q.peekedCapacity ∨ q.seen = v

/-- Peeking for `want` bytes finds no more. -/
def Settled (want : Nat) (q : VirtQueueProcessor) : Prop :=
  want ≤ q.peekedCapacity ∨ ¬ q.CanPeek v ∨ (q.peeked ≠ [] ∧ e q.seen = none)

/-- What a driver keeps: the available index is neither behind the chains held nor more than a
queue size ahead, and malformed entries stand in front of the well-formed ones. -/
structure Orderly (q : VirtQueueProcessor) : Prop where
  held : q.peeked.length ≤ q.ahead v
  within : q.ahead v ≤ q.config.size.toNat
  front : ∀ j, q.peeked.length ≤ j → j < q.ahead v → e (q.last_avail_idx + UInt16.ofNat j) = none →
    q.peeked = [] ∧ ∀ i, i ≤ j → e (q.last_avail_idx + UInt16.ofNat i) = none

variable {e v} {q : VirtQueueProcessor} {p : PeekedChain} {want : Nat}

theorem seen_eq_iff (hlen : q.peeked.length < 2 ^ 16) :
    q.seen = v ↔ q.ahead v = q.peeked.length := by
  have h1 := q.last_avail_idx.toNat_lt
  have h2 := v.toNat_lt
  unfold VirtQueueProcessor.seen VirtQueueProcessor.ahead
  rw [← UInt16.toNat_inj, UInt16.toNat_add, UInt16.toNat_sub, UInt16.toNat_ofNat']
  omega

theorem ahead_reject (h : 0 < q.ahead v) : q.rejectAvailableChain.ahead v = q.ahead v - 1 := by
  obtain ⟨n, hn⟩ : ∃ n, q.ahead v = n + 1 := ⟨q.ahead v - 1, by omega⟩
  rw [hn]
  exact sub_succ_toNat hn

variable {φ : VirtQueueProcessor → Prop} {need : Nat}

/-- Where peeking ends, nothing is in front. -/
theorem Front.of_settled (h : Settled e v want q) (hf : Front e v φ q) :
    want ≤ q.peekedCapacity ∨ φ q := by
  cases hf with
  | here h => exact .inr h
  | keep hpeek hp _ =>
    rcases h with h | h | h
    · exact .inl h
    · exact absurd hpeek h
    · rw [h.2] at hp
      cases hp
  | skip hpeek hnone _ _ =>
    rcases h with h | h | h
    · exact .inl h
    · exact absurd hpeek h
    · exact absurd hnone h.1

theorem Fits.iff_of_settled (h : Settled e v need q) :
    Fits e v need q ↔ need ≤ q.peekedCapacity ∨ q.seen = v := by
  constructor
  · intro hfits
    rcases Front.of_settled h hfits with h | h
    · exact .inl h
    · exact h
  · exact fun h => .here h

theorem Holds.of_settled (h : Settled e v need q) (hholds : Holds e v need q) :
    need ≤ q.peekedCapacity := by
  rcases Front.of_settled h hholds with h | h
  · exact h
  · exact h

theorem CanPeek.seen_ne (h : q.CanPeek v) : q.seen ≠ v := by
  intro hseen
  have hlt : q.peeked.length < 2 ^ 16 := lt_trans h.2 q.config.size.toNat_lt
  exact absurd ((seen_eq_iff hlt).mp hseen) (Nat.ne_of_gt h.1)

/-- A queue without `φ` gets there with one more chain, or never. -/
theorem Front.keep_iff (hφ : ¬ φ q) (hpeek : q.CanPeek v) (hp : e q.seen = some p) :
    Front e v φ q ↔ Front e v φ (q.keep p) := by
  constructor
  · intro hf
    cases hf with
    | here h => exact absurd h hφ
    | keep _ hp' h =>
      cases hp.symm.trans hp'
      exact h
    | skip _ _ hp' _ => cases hp.symm.trans hp'
  · exact .keep hpeek hp

theorem Front.skip_iff (hφ : ¬ φ q) (hpeek : q.CanPeek v) (hnil : q.peeked = [])
    (hp : e q.seen = none) : Front e v φ q ↔ Front e v φ q.rejectAvailableChain := by
  constructor
  · intro hf
    cases hf with
    | here h => exact absurd h hφ
    | keep _ hp' _ => cases hp.symm.trans hp'
    | skip _ _ _ h => exact h
  · exact .skip hpeek hnil hp

/-- While peeking goes on, the frame does not fit and there are more entries. -/
theorem not_fits_yet (hcap : q.peekedCapacity < need) (hpeek : q.CanPeek v) :
    ¬ (need ≤ q.peekedCapacity ∨ q.seen = v) := by
  intro h
  rcases h with h | h
  · exact absurd hcap (Nat.not_lt_of_le h)
  · exact absurd h (CanPeek.seen_ne hpeek)

theorem Orderly.lt_word (h : Orderly e v q) : q.peeked.length < 2 ^ 16 :=
  lt_of_le_of_lt (le_trans h.held h.within) q.config.size.toNat_lt

/-- Nothing stands between an orderly queue and the frame but missing entries. -/
theorem Orderly.of_settled (h : Orderly e v q) (hs : Settled e v want q) :
    want ≤ q.peekedCapacity ∨ q.seen = v := by
  rcases hs with hs | hs | hs
  · exact .inl hs
  · right
    rw [seen_eq_iff h.lt_word]
    have := h.held
    have := h.within
    unfold VirtQueueProcessor.CanPeek at hs
    omega
  · by_cases hseen : q.seen = v
    · exact .inr hseen
    · have hne : q.ahead v ≠ q.peeked.length := fun heq => hseen ((seen_eq_iff h.lt_word).mpr heq)
      have hlt : q.peeked.length < q.ahead v := lt_of_le_of_ne h.held (.symm hne)
      exact absurd (h.front _ (le_refl _) hlt hs.2).1 hs.1

theorem Orderly.keep (h : Orderly e v q) (hpeek : q.CanPeek v) (hp : e q.seen = some p) :
    Orderly e v (q.keep p) := by
  constructor
  · rw [VirtQueueProcessor.keep, length_append]
    exact hpeek.1
  · exact h.within
  · intro j hj hlt hnone
    rw [VirtQueueProcessor.keep, length_append] at hj
    have hfirst := (h.front j (by simp at hj; omega) hlt hnone).2 q.peeked.length
      (by simp at hj; omega)
    exact absurd (hfirst.symm.trans hp) nofun

/-- The first `n` entries are consumed, and the chains held for them used. -/
theorem Orderly.consume (h : Orderly e v q) {q' : VirtQueueProcessor} {n : Nat} (hn : n ≤ q.ahead v)
    (hconfig : q'.config = q.config) (hpeeked : q'.peeked = q.peeked.drop n)
    (havail : q'.last_avail_idx = q.last_avail_idx + UInt16.ofNat n) : Orderly e v q' := by
  have hheld := h.held
  have hwithin := h.within
  have hahead : q'.ahead v = q.ahead v - n := by
    have h1 := q.last_avail_idx.toNat_lt
    unfold VirtQueueProcessor.ahead at hn hwithin ⊢
    rw [UInt16.toNat_sub] at hn hwithin ⊢
    rw [havail, UInt16.toNat_add, UInt16.toNat_sub, UInt16.toNat_ofNat']
    omega
  have hshift : ∀ j, q'.last_avail_idx + UInt16.ofNat j =
      q.last_avail_idx + UInt16.ofNat (n + j) := by
    intro j
    rw [havail, UInt16.ofNat_add, UInt16.add_assoc]
  have hlen : q'.peeked.length = q.peeked.length - n := by rw [hpeeked, length_drop]
  constructor
  · omega
  · rw [hahead, hconfig]
    exact le_trans (Nat.sub_le _ _) hwithin
  · intro j hj hlt' hmal
    rw [hshift] at hmal
    obtain ⟨hnil, hall⟩ := h.front (n + j) (by omega) (by omega) hmal
    constructor
    · rw [hpeeked, hnil, drop_nil]
    · intro i hi
      rw [hshift]
      exact hall (n + i) (by omega)

theorem Orderly.reject (h : Orderly e v q) (hpeek : q.CanPeek v) (hnone : q.peeked = []) :
    Orderly e v q.rejectAvailableChain :=
  h.consume (n := 1) (lt_of_le_of_lt (Nat.zero_le _) hpeek.1) rfl
    (by rw [hnone]; exact hnone) rfl

end Paper

/-! ## Peeking in memory -/

variable {α : Type}

section Memory

variable {H τ : Type} {A : H → Type} {L : Layout} {c : QueueConfig}
  {host : (call : H) → τ → A call × τ} {g : Guest} {s t : Guest × τ} {q : VirtQueueProcessor}
  {v : UInt16} {want : Nat}

variable {addr : Nat}

theorem SameRings.store (h : SameRings c g s.1) {data : Bytes} (hoff : OffRings c addr data) :
    SameRings c g (s.1.store L addr data) := by
  intro i hi
  rw [store_cells_outside]
  · exact h i hi
  unfold OffRings Off at hoff
  unfold QueueConfig.Reads at hi
  omega

variable {p : Device A α}

/-- A program that only loads leaves the state alone. -/
theorem interp_loads {R : Nat → Prop} (hp : p.Uses (LoadsIn R)) (s : Guest × τ) :
    (p.interp (answer L host) s).2 = s := by
  induction p generalizing s with
  | done a => rfl
  | step o next ih =>
    cases o with
    | load addr len => exact ih _ (hp.2 _) s
    | store => cases hp.1
    | mark => cases hp.1
    | host => cases hp.1

/-- What it answers depends on the bytes it loads. -/
theorem interp_loads_congr {R : Nat → Prop} (hp : p.Uses (LoadsIn R))
    (h : ∀ i, R i → t.1.cells i = s.1.cells i) :
    (p.interp (answer L host) t).1 = (p.interp (answer L host) s).1 := by
  induction p with
  | done a => rfl
  | step o next ih =>
    cases o with
    | load addr len =>
      have hload : t.1.load L addr len = s.1.load L addr len := by
        unfold Guest.load
        rw [peek_congr fun j hj => h _ (hp.1 j hj)]
      change ((next (t.1.load L addr len)).interp (answer L host) t).1 = _
      rw [hload]
      exact ih _ (hp.2 _)
    | store => cases hp.1
    | mark => cases hp.1
    | host => cases hp.1

def entryOf (L : Layout) (host : (call : H) → τ → A call × τ) (c : QueueConfig) (s : Guest × τ)
    (position : UInt16) : Option PeekedChain :=
  match c.availEntryAddr position with
  | none => none
  | some entry =>
    let head := word s.1.cells entry
    (receiveChain ((walkDescriptorChain L c head).interp (answer L host) s).1).map fun chain =>
      ⟨head, chain.writable, bufsLen chain.writable⟩

theorem readU16_interp (h : checkRange L addr 2 = true) :
    (readU16 addr : Device A _).interp (answer L host) s = (some (word s.1.cells addr), s) := by
  change ((s.1.load L addr 2).map _, s) = _
  rw [Guest.load, if_pos h]
  rfl

theorem entryOf_congr (hc : Usable L c) (h : SameRings c s.1 t.1) (position : UInt16) :
    entryOf L host c t position = entryOf L host c s position := by
  obtain ⟨entry, hentry, -⟩ := hc.availEntryAddr position
  have hslot := hc.slot_lt position
  have haddr := checkedAdd_eq_some hentry
  have hword : word t.1.cells entry = word s.1.cells entry := by
    unfold word
    rw [peek_congr fun j hj => h _ ?_]
    left
    unfold QueueConfig.availBytes
    omega
  unfold entryOf
  rw [hentry]
  dsimp only
  rw [hword, interp_loads_congr (walkDescriptorChain_uses c _) h]

/-- The guard of the loop of `peek_writable`. -/
theorem canPeek_iff (hlen : q.peeked.length ≤ q.config.size.toNat) :
    UInt16.ofNat q.peeked.length < min (v - q.last_avail_idx) q.config.size ↔ q.CanPeek v := by
  have hsize := q.config.size.toNat_lt
  have hofNat : (UInt16.ofNat q.peeked.length).toNat = q.peeked.length := by
    rw [UInt16.toNat_ofNat']
    omega
  unfold VirtQueueProcessor.CanPeek VirtQueueProcessor.ahead
  rw [UInt16.lt_iff_toNat_lt, hofNat]
  change _ < (if _ ≤ _ then _ else _ : UInt16).toNat ↔ _
  split
  · next h =>
    rw [UInt16.le_iff_toNat_le] at h
    omega
  · next h =>
    rw [UInt16.le_iff_toNat_le] at h
    omega

theorem peekFrom_succ (hc : Usable L c) (hq : q.config = c)
    (hlen : q.peeked.length ≤ c.size.toNat) (left : Nat) :
    (peekFrom L want v (left + 1) q).interp (answer L host) s =
      if q.peekedCapacity < want ∧ q.CanPeek v then
        match entryOf L host c s q.seen with
        | some p => (peekFrom L want v left (q.keep p)).interp (answer L host) s
        | none =>
          if q.peeked = [] then
            (peekFrom L want v left q.rejectAvailableChain).interp (answer L host) s
          else (q, s)
      else (q, s) := by
  subst hq
  obtain ⟨entry, hentry, hrange⟩ := hc.availEntryAddr q.seen
  have hguard : UInt16.ofNat q.peeked.length < min (v - q.last_avail_idx) q.config.size ↔
      q.CanPeek v :=
    canPeek_iff hlen
  conv_lhs => unfold peekFrom
  by_cases h : q.peekedCapacity < want ∧ q.CanPeek v
  swap
  · rw [if_neg (by rw [hguard]; exact h), if_neg h]
    rfl
  rw [if_pos (by rw [hguard]; exact h), if_pos h]
  change interp _ (match q.config.availEntryAddr q.seen with | none => _ | some entry => _) s = _
  rw [hentry]
  rw [interp_bind, readU16_interp hrange]
  rw [interp_bind, interp_loads (walkDescriptorChain_uses q.config _)]
  unfold entryOf
  rw [hentry]
  dsimp only
  cases receiveChain
    ((walkDescriptorChain L q.config (word s.1.cells entry)).interp (answer L host) s).1 with
  | some chain => rfl
  | none =>
    change interp _ (if q.peeked = [] then _ else _) s = if q.peeked = [] then _ else _
    split <;> rfl

/-- Peeking keeps whatever another chain and a skipped entry keep, and ends when there is
nothing more to find. -/
theorem peekFrom_rule (hc : Usable L c) {J : VirtQueueProcessor → Prop}
    (keep : ∀ q p, J q → q.config = c → q.peekedCapacity < want → q.CanPeek v →
      entryOf L host c s q.seen = some p → J (q.keep p))
    (skip : ∀ q, J q → q.config = c → q.peekedCapacity < want → q.CanPeek v → q.peeked = [] →
      entryOf L host c s q.seen = none → J q.rejectAvailableChain)
    (left : Nat) (q : VirtQueueProcessor) (hJ : J q) (hq : q.config = c)
    (hlen : q.peeked.length ≤ c.size.toNat) (hleft : q.ahead v ≤ left + q.peeked.length) :
    ∃ q', (peekFrom L want v left q).interp (answer L host) s = (q', s) ∧ J q' ∧ q'.config = c ∧
      q'.event_idx = q.event_idx ∧ q'.peeked.length ≤ c.size.toNat ∧
      Settled (entryOf L host c s) v want q' := by
  induction left generalizing q with
  | zero =>
    refine ⟨q, rfl, hJ, hq, rfl, hlen, .inr (.inl fun h => ?_)⟩
    have := h.1
    omega
  | succ left ih =>
    rw [peekFrom_succ hc hq hlen]
    by_cases h : q.peekedCapacity < want ∧ q.CanPeek v
    · rw [if_pos h]
      cases hentry : entryOf L host c s q.seen with
      | some p =>
        apply ih (q.keep p) (keep q p hJ hq h.1 h.2 hentry) hq
        · rw [VirtQueueProcessor.keep, length_append, ← hq]
          exact h.2.2
        · rw [VirtQueueProcessor.keep, length_append]
          change q.ahead v ≤ _
          simp only [length_singleton]
          omega
      | none =>
        by_cases hnil : q.peeked = []
        · rw [if_pos hnil]
          apply ih q.rejectAvailableChain (skip q hJ hq h.1 h.2 hnil hentry) hq hlen
          rw [ahead_reject (lt_of_le_of_lt (Nat.zero_le _) h.2.1)]
          change _ ≤ left + q.peeked.length
          omega
        · rw [if_neg hnil]
          exact ⟨q, rfl, hJ, hq, rfl, hlen, .inr (.inr ⟨hnil, hentry⟩)⟩
    · rw [if_neg h]
      refine ⟨q, rfl, hJ, hq, rfl, hlen, ?_⟩
      by_cases hwant : q.peekedCapacity < want
      · exact .inr (.inl fun hpeek => h ⟨hwant, hpeek⟩)
      · exact .inl (Nat.le_of_not_lt hwant)

def idxOf (c : QueueConfig) (g : Guest) : UInt16 := word g.cells (c.avail_ring_addr + 2)

theorem peekWritable_interp (hc : c.queueIsUsable L = true) (hq : q.config = c) :
    (peekWritable L q want).interp (answer L host) s =
      (peekFrom L want (idxOf c s.1) (q.ahead (idxOf c s.1)) q).interp (answer L host) s := by
  have hidx := (usable_of hc).availIdxAddr
  unfold peekWritable
  rw [hq, if_pos hc, hidx.1]
  rw [interp_bind, readU16_interp hidx.2]
  rfl

/-- `peekFrom_rule` for `peek_writable`. -/
theorem peekWritable_rule (host : (call : H) → τ → A call × τ) (s : Guest × τ) (want : Nat)
    (hc : c.queueIsUsable L = true) {J : VirtQueueProcessor → Prop}
    (keep : ∀ q p, J q → q.config = c → q.peekedCapacity < want → q.CanPeek (idxOf c s.1) →
      entryOf L host c s q.seen = some p → J (q.keep p))
    (skip : ∀ q, J q → q.config = c → q.peekedCapacity < want → q.CanPeek (idxOf c s.1) →
      q.peeked = [] → entryOf L host c s q.seen = none → J q.rejectAvailableChain)
    (hJ : J q) (hq : q.config = c) (hlen : q.peeked.length ≤ c.size.toNat) :
    ∃ q', (peekWritable L q want).interp (answer L host) s = (q', s) ∧ J q' ∧ q'.config = c ∧
      q'.event_idx = q.event_idx ∧ q'.peeked.length ≤ c.size.toNat ∧
      Settled (entryOf L host c s) (idxOf c s.1) want q' := by
  rw [peekWritable_interp hc hq]
  exact peekFrom_rule (usable_of hc) keep skip _ q hJ hq hlen (Nat.le_add_right _ _)

/-- A second look at the same rings finds no more. -/
theorem peekWritable_settled (hc : c.queueIsUsable L = true) (hq : q.config = c)
    (hlen : q.peeked.length ≤ c.size.toNat)
    (h : Settled (entryOf L host c s) (idxOf c s.1) want q) :
    (peekWritable L q want).interp (answer L host) s = (q, s) := by
  rw [peekWritable_interp hc hq]
  cases hleft : q.ahead (idxOf c s.1) with
  | zero => rfl
  | succ left =>
    rw [peekFrom_succ (usable_of hc) hq hlen]
    by_cases hgo : q.peekedCapacity < want ∧ q.CanPeek (idxOf c s.1)
    · rw [if_pos hgo]
      rcases h with h | h | h
      · exact absurd hgo.1 (Nat.not_lt_of_le h)
      · exact absurd hgo.2 h
      · rw [h.2]
        rw [if_neg h.1]
    · rw [if_neg hgo]

/-- The two words a call publishes lie outside what the driver writes. -/
def PublishesOff (c : QueueConfig) : Prop :=
  ∀ v, OffRings c (c.used_ring_addr + 2) (u16Bytes v) ∧
    OffRings c (c.used_ring_addr + c.usedBytes) (u16Bytes v)

theorem idxOf_congr (hc : Usable L c) (h : SameRings c g s.1) : idxOf c s.1 = idxOf c g := by
  have := hc.size_pos
  unfold idxOf word
  rw [peek_congr fun j hj => h _ ?_]
  left
  unfold QueueConfig.availBytes
  omega

/-- In a run none of whose stores touches them, the rings stay as they are. -/
theorem sameRings_of_meets (h : SameRings c g s.1)
    (hp : p.Meets (answer L host) (Storing (OffRings c)) s) :
    SameRings c g (p.interp (answer L host) s).2.1 := by
  induction p generalizing s with
  | done a => exact h
  | step o next ih =>
    apply ih _ _ hp.2
    cases o with
    | load addr len => exact h
    | store addr data => exact h.store hp.1
    | mark gpa len => exact h
    | host call => exact h

/-- `publish_used` reports the entries behind the chains held. -/
theorem publishUsed_interp (hc : c.queueIsUsable L = true) (hq : q.config = c)
    (hp : (publishUsed q).Meets (answer L host) (Storing (OffRings c)) s) :
    ((publishUsed q).interp (answer L host) s).1 =
      (q.event_idx && decide (idxOf c s.1 ≠ q.seen)) := by
  have hidx := (usable_of hc).availIdxAddr
  unfold publishUsed at hp ⊢
  obtain ⟨hused, hp⟩ := meets_bind.mp hp
  have h1 := sameRings_of_meets (fun _ _ => rfl) hused
  rw [interp_bind]
  generalize ((publish q.config.usedIdxAddr q.last_used_idx).interp (answer L host) s).2 =
    s1 at h1 hp ⊢
  cases hev : q.event_idx with
  | false =>
    rw [if_pos (by simp)]
    rfl
  | true =>
    rw [hev, if_neg (by simp)] at hp
    rw [if_neg (by simp)]
    obtain ⟨hevent, hp⟩ := meets_bind.mp hp
    have h2 := sameRings_of_meets h1 hevent
    rw [interp_bind]
    generalize ((publish q.config.availEventAddr q.seen).interp (answer L host) s1).2 = s2 at h2 ⊢
    rw [hq, hidx.1]
    rw [interp_bind, readU16_interp hidx.2, ← idxOf_congr (usable_of hc) h2]
    exact (Bool.true_and _).symm

theorem writeMem_uses {data : Bytes} {S : Nat → Bytes → Prop} (h : S addr data) :
    (writeMem addr data : Device A _).Uses (Storing S) := by
  apply uses_bind
  · exact ⟨h, fun _ => trivial⟩
  · intro r
    cases r with
    | true => exact ⟨trivial, fun _ => trivial⟩
    | false => trivial

theorem publish_uses {addr : Option Nat} {w : UInt16} {S : Nat → Bytes → Prop}
    (h : ∀ a, addr = some a → S a (u16Bytes w)) :
    (publish addr w : Device A _).Uses (Storing S) := by
  cases addr with
  | none => trivial
  | some a => exact uses_bind (writeMem_uses (h a rfl)) fun _ => trivial

theorem publishUsed_meets (hq : q.config = c) (hoff : PublishesOff c) (s : Guest × τ) :
    (publishUsed q).Meets (answer L host) (Storing (OffRings c)) s := by
  apply meets_of_uses
  apply uses_bind
  · apply publish_uses
    intro a ha
    rw [hq] at ha
    rw [checkedAdd_eq_some ha]
    exact (hoff _).1
  · intro _
    split
    · trivial
    apply uses_bind
    · apply publish_uses
      intro a ha
      rw [hq] at ha
      rw [checkedAdd_eq_some ha]
      exact (hoff _).2
    · intro _
      split
      · trivial
      apply uses_bind
      · exact ⟨trivial, fun _ => trivial⟩
      · intro r
        cases r <;> trivial

theorem Settled.congr (hc : Usable L c) (h : SameRings c s.1 t.1)
    (hs : Settled (entryOf L host c s) (idxOf c s.1) want q) :
    Settled (entryOf L host c t) (idxOf c t.1) want q := by
  have hentry : entryOf L host c t = entryOf L host c s := funext (entryOf_congr hc h)
  rw [hentry, idxOf_congr hc h]
  exact hs

end Memory

namespace Net

variable {τ : Type} {L : Layout} {c : QueueConfig} {host : (call : Call) → τ → Answer call × τ}
  {s t : Guest × τ} {q : VirtQueueProcessor} {need : Nat}

/-! ## Peeking moves no index -/

def SameQueue (q q' : VirtQueueProcessor) : Prop :=
  q'.config = q.config ∧ q'.event_idx = q.event_idx

def Unmoved (q q' : VirtQueueProcessor) : Prop :=
  SameQueue q q' ∧ q'.last_used_idx = q.last_used_idx

theorem SameQueue.trans {q' q'' : VirtQueueProcessor} (h : SameQueue q q') (h' : SameQueue q' q'') :
    SameQueue q q'' :=
  ⟨h'.1.trans h.1, h'.2.trans h.2⟩

theorem Unmoved.trans {q' q'' : VirtQueueProcessor} (h : Unmoved q q') (h' : Unmoved q' q'') :
    Unmoved q q'' :=
  ⟨h.1.trans h'.1, h'.2.trans h.2⟩

theorem Unmoved.refl (q : VirtQueueProcessor) : Unmoved q q := ⟨⟨rfl, rfl⟩, rfl⟩

theorem peekFrom_unmoved (want : Nat) (v : UInt16) (left : Nat) (q : VirtQueueProcessor) :
    (peekFrom L want v left q : Device Answer _).Gives (Unmoved q) := by
  induction left generalizing q with
  | zero => exact .refl q
  | succ left ih =>
    unfold peekFrom
    split
    swap
    · exact .refl q
    split
    · exact .refl q
    apply gives_skip
    intro head
    cases head with
    | none => exact .refl q
    | some head =>
      apply gives_skip
      intro chain
      split
      · exact (ih _).imp fun _ h => h
      split
      · exact (ih _).imp fun _ h => h
      · exact .refl q

theorem peekWritable_unmoved (q : VirtQueueProcessor) (want : Nat) :
    (peekWritable L q want : Device Answer _).Gives (Unmoved q) := by
  unfold peekWritable
  split
  · split
    · exact .refl q
    · apply gives_skip
      intro idx
      cases idx with
      | none => exact .refl q
      | some idx => exact peekFrom_unmoved _ _ _ q
  · exact .refl q

/-- Without EVENT_IDX nothing is seen to have come meanwhile. -/
theorem publishUsed_plain (hevent : q.event_idx = false) :
    (publishUsed q : Device Answer _).Gives (· = false) := by
  unfold publishUsed
  apply gives_skip
  intro _
  simp only [hevent]
  rfl

/-! ## Copying a frame -/

/-- The loop goes round as long as its body leads back to where it was. -/
theorem makeRoom_stuck (hc : c.queueIsUsable L = true) (hoff : PublishesOff c) (hq : q.config = c)
    (hlen : q.peeked.length ≤ c.size.toNat) (hevent : q.event_idx = true)
    (hcap : q.peekedCapacity < need) (hseen : q.seen ≠ idxOf c s.1)
    (hset : Settled (entryOf L host c s) (idxOf c s.1) need q) (fuel : Nat)
    (ht : SameRings c s.1 t.1) : ((makeRoom L need fuel q).interp (answer L host) t).1 = none := by
  induction fuel generalizing t with
  | zero => rfl
  | succ fuel ih =>
    have hmeets : (publishUsed q).Meets (answer L host) (Storing (OffRings c)) t :=
      publishUsed_meets hq hoff t
    have hpublish := publishUsed_interp hc hq hmeets
    rw [idxOf_congr (usable_of hc) ht, hevent, decide_eq_true hseen.symm, Bool.and_true] at hpublish
    unfold makeRoom
    rw [interp_bind, peekWritable_settled hc hq hlen (hset.congr (usable_of hc) ht)]
    rw [if_neg (Nat.not_le_of_lt hcap), interp_bind, hpublish]
    exact ih (sameRings_of_meets ht hmeets)

theorem makeRoom_returns_plain (hevent : q.event_idx = false) :
    ((makeRoom L need 1 q).interp (answer L host) s).1 ≠ none := by
  unfold makeRoom
  rw [interp_bind]
  have hsame := interp_gives (peekWritable_unmoved (L := L) q need) (answer L host) s
  generalize (peekWritable L q need).interp (answer L host) s = r at hsame ⊢
  have hagain := interp_gives (publishUsed_plain (hsame.1.2.trans hevent)) (answer L host) r.2
  split
  · nofun
  rw [interp_bind, hagain]
  nofun

/-- The loop ends, in its first round, exactly if the frame fits into the chains in front or
these are all there are. -/
theorem makeRoom_returns_iff (hc : c.queueIsUsable L = true) (hoff : PublishesOff c)
    (hq : q.config = c) (hlen : q.peeked.length ≤ c.size.toNat) :
    (∃ fuel, ((makeRoom L need fuel q).interp (answer L host) s).1 ≠ none) ↔
      q.event_idx = false ∨ Fits (entryOf L host c s) (idxOf c s.1) need q := by
  obtain ⟨q', hpeek, hiff, hq', hevent, hlen', hset⟩ :=
    peekWritable_rule host s need hc
      (J := fun q' => Fits (entryOf L host c s) (idxOf c s.1) need q ↔
        Fits (entryOf L host c s) (idxOf c s.1) need q')
      (fun p r hp _ hcap hcan hr => hp.trans (Front.keep_iff (not_fits_yet hcap hcan) hcan hr))
      (fun p hp _ hcap hcan hnil hr =>
        hp.trans (Front.skip_iff (not_fits_yet hcap hcan) hcan hnil hr))
      Iff.rfl hq hlen
  rw [hiff, Fits.iff_of_settled hset]
  have hmeets : (publishUsed q').Meets (answer L host) (Storing (OffRings c)) s :=
    publishUsed_meets hq' hoff s
  have hpublish := publishUsed_interp hc hq' hmeets
  -- What one round does.
  have hround : ∀ fuel, (makeRoom L need (fuel + 1) q).interp (answer L host) s =
      if need ≤ q'.peekedCapacity then (some (true, q'), s)
      else if q'.event_idx && decide (idxOf c s.1 ≠ q'.seen) then
        (makeRoom L need fuel q').interp (answer L host)
        ((publishUsed q').interp (answer L host) s).2
      else (some (false, q'), ((publishUsed q').interp (answer L host) s).2) := by
    intro fuel
    conv_lhs => unfold makeRoom
    rw [interp_bind, hpeek]
    split
    · rfl
    rw [interp_bind, hpublish]
    split
    · rfl
    · rfl
  constructor
  · rintro ⟨fuel, hfuel⟩
    by_contra hstuck
    simp only [not_or, Bool.not_eq_false] at hstuck
    obtain ⟨hev, hcap, hseen⟩ := hstuck
    cases fuel with
    | zero => exact hfuel rfl
    | succ fuel =>
      have hseen' : idxOf c s.1 ≠ q'.seen := fun h => hseen h.symm
      rw [hround, if_neg hcap, hevent, hev, decide_eq_true hseen', Bool.and_true,
        if_pos rfl] at hfuel
      exact hfuel
        (makeRoom_stuck hc hoff hq' hlen' (hevent.trans hev) (Nat.lt_of_not_le hcap) hseen hset
        fuel (sameRings_of_meets (fun _ _ => rfl) hmeets))
  · intro h
    refine ⟨1, ?_⟩
    rw [hround]
    split
    · nofun
    rename_i hcap
    have hstop : ¬ (q'.event_idx && decide (idxOf c s.1 ≠ q'.seen)) = true := by
      rw [hevent]
      rcases h with h | h | h
      · simp [h]
      · exact absurd h hcap
      · simp [h]
    rw [if_neg hstop]
    nofun

/-- After its loop `inject_rx_mergeable` runs straight to its end. -/
theorem injectRxMergeable_eq_none_iff (fuel : Nat) (dev : NetDevice) (header packet : Bytes) :
    ((injectRxMergeable L fuel dev q header packet).interp (answer L host) s).1 = none ↔
      ((makeRoom L (VIRTIO_NET_HDR_LEN + packet.length) fuel q).interp (answer L host) s).1 =
        none := by
  unfold injectRxMergeable
  rw [interp_bind]
  cases ((makeRoom L (VIRTIO_NET_HDR_LEN + packet.length) fuel q).interp (answer L host) s).1 with
  | none => exact iff_of_true rfl rfl
  | some r =>
    obtain ⟨fits, q'⟩ := r
    refine iff_of_false ?_ nofun
    apply interp_gives (φ := fun r => r ≠ none)
    cases fits with
    | false => exact nofun
    | true =>
      apply gives_skip
      intro allowed
      cases allowed with
      | false => exact nofun
      | true =>
        apply gives_skip
        intro _
        apply gives_skip
        intro _
        apply gives_skip
        intro copied
        cases copied with
        | false => exact nofun
        | true =>
          apply gives_skip
          intro _
          apply gives_bind (gives_all _)
          exact fun _ _ => nofun

/-! ## Reading from the tap -/

/-- A host whose tap holds finitely many frames: `left` goes down with every frame read. -/
structure FiniteTap (host : (call : Call) → τ → Answer call × τ) (left : τ → Nat) : Prop where
  read : ∀ room x, (host (.read room) x).1 ≠ none → left (host (.read room) x).2 < left x
  other : ∀ call x, left (host call x).2 ≤ left x

theorem FiniteTap.interp_le {left : τ → Nat} (h : FiniteTap host left) (p : Device Answer α)
    (s : Guest × τ) : left (p.interp (answer L host) s).2.2 ≤ left s.2 := by
  have hkeeps : ∀ o (t : Guest × τ), left t.2 ≤ left s.2 →
      left (answer L host o t).2.2 ≤ left s.2 := by
    intro o t ht
    cases o with
    | host call => exact le_trans (h.other call t.2) ht
    | load addr len => exact ht
    | store addr data => exact ht
    | mark gpa len => exact ht
  exact interp_keeps hkeeps p (le_refl _)

theorem interp_call (c : Call) (k : Answer c → Device Answer α) (s : Guest × τ) :
    (call c >>= k).interp (answer L host) s =
      (k (host c s.2).1).interp (answer L host) (s.1, (host c s.2).2) := by
  rw [interp_bind]
  rfl

theorem useFirst_zero (q : VirtQueueProcessor) : q.useFirst 0 = q := by
  unfold VirtQueueProcessor.useFirst
  simp

theorem usePeeked_gives (lens : List Nat) (q : VirtQueueProcessor) :
    (usePeeked q lens : Device Answer _).Gives fun q' =>
      q' = q.useFirst (min lens.length q.peeked.length) := by
  induction lens generalizing q with
  | nil => exact ((congrArg q.useFirst (Nat.zero_min _)).trans (useFirst_zero q)).symm
  | cons len lens ih =>
    unfold usePeeked
    split
    · next hnil =>
      rw [hnil]
      exact (useFirst_zero q).symm
    rename_i chain rest hcons
    have hstep : ∀ q', q' = ({ q with peeked := rest }.advance).useFirst
      (min lens.length rest.length) →
        q' = q.useFirst (min (lens.length + 1) q.peeked.length) := by
      intro q' hq'
      rw [hq', hcons, length_cons, Nat.add_min_add_right]
      unfold VirtQueueProcessor.useFirst VirtQueueProcessor.advance
      simp only [hcons, drop_succ_cons, UInt16.ofNat_add, UInt16.add_assoc]
      rw [UInt16.add_comm (UInt16.ofNat (min lens.length rest.length))]
      rfl
    split
    · exact (ih _).imp hstep
    · exact gives_skip fun _ => (ih _).imp hstep

theorem tapDeliver_gives (dev : NetDevice) (chains : List PeekedChain) (frame : Bytes)
    (b : TapBatch) :
    (tapDeliver dev chains frame b).Gives fun b' =>
      ∃ n, n ≤ b.queue.peeked.length ∧ b'.queue = b.queue.useFirst n := by
  apply tapDeliver_uses_or_not
  · exact ⟨0, Nat.zero_le _, (useFirst_zero _).symm⟩
  · intro lens
    exact (usePeeked_gives lens b.queue).imp fun _ hq' => ⟨_, Nat.min_le_right _ _, hq'⟩

/-- The chains taken make room if all of them do. -/
theorem le_takeRoom {limit : Nat} (chains : List PeekedChain) (room : Nat)
    (h : limit ≤ room + (chains.map PeekedChain.capacity).sum) :
    limit ≤ room + ((takeRoom limit chains room).map PeekedChain.capacity).sum := by
  induction chains generalizing room with
  | nil => exact h
  | cons chain chains ih =>
    simp only [map_cons, sum_cons] at h
    unfold takeRoom
    split
    · simpa using by assumption
    have := ih (room + chain.capacity) (by omega)
    simp only [map_cons, sum_cons]
    omega

variable {left : τ → Nat}

/-- What a round of the inner loop leaves: an orderly queue and, if it goes on, fewer frames; if
it waits for buffers, it has seen all there are. -/
structure RoundLeaves (L : Layout) (host : (call : Call) → τ → Answer call × τ) (c : QueueConfig)
    (left : τ → Nat) (s t : Guest × τ) (r : (Option Bool × TapBatch) × (Guest × τ)) : Prop where
  rings : SameRings c s.1 r.2.1
  orderly : Orderly (entryOf L host c s) (idxOf c s.1) r.1.2.queue
  config : r.1.2.queue.config = c
  frames : left r.2.2 ≤ left t.2
  fewer : r.1.1 = none → left r.2.2 < left t.2
  seen : r.1.1 = some true → r.1.2.queue.seen = idxOf c s.1

/-- A round that goes on has read a frame. -/
theorem tapFrame_fewer (hfin : FiniteTap host left) (dev : NetDevice) (b : TapBatch)
    (h : ((tapFrame L dev b).interp (answer L host) t).1.1 = none) :
    left ((tapFrame L dev b).interp (answer L host) t).2.2 < left t.2 := by
  unfold tapFrame at h ⊢
  rw [interp_bind] at h ⊢
  have hpeek := hfin.interp_le (L := L) (peekWritable L b.queue dev.rxFrameLimit) t
  generalize (peekWritable L b.queue dev.rxFrameLimit).interp (answer L host) t = r at h hpeek ⊢
  dsimp only at h ⊢
  split at h
  · cases h
  split at h
  · cases h
  next hlt hall =>
  rw [if_neg hlt, if_neg hall, interp_call]
  rw [interp_call] at h
  generalize bufsLen ((takeRoom dev.rxFrameLimit r.1.peeked 0).flatMap PeekedChain.buffers) = room
    at h ⊢
  have hread := hfin.read room r.2.2
  cases hans : (host (.read room) r.2.2).1 with
  | none =>
    rw [hans] at h
    cases h
  | some frame =>
    rw [hans] at hread
    rw [interp_bind, interp_bind]
    refine lt_of_lt_of_le (lt_of_le_of_lt ?_ (hread nofun)) hpeek
    exact le_trans (hfin.interp_le _ _) (le_trans (hfin.interp_le _ _) (hfin.interp_le _ _))

theorem tapFrame_leaves (hc : c.queueIsUsable L = true) (hfin : FiniteTap host left)
    (dev : NetDevice)
    {b : TapBatch} (hb : Orderly (entryOf L host c s) (idxOf c s.1) b.queue)
    (hq : b.queue.config = c) (ht : SameRings c s.1 t.1)
    (hmeets : (tapFrame L dev b).Meets (answer L host) (Storing (OffRings c)) t) :
    RoundLeaves L host c left s t ((tapFrame L dev b).interp (answer L host) t) := by
  have hentry : entryOf L host c t = entryOf L host c s := funext (entryOf_congr (usable_of hc) ht)
  have hidx := idxOf_congr (usable_of hc) ht
  have hrings := sameRings_of_meets ht hmeets
  have hframes := hfin.interp_le (L := L) (tapFrame L dev b) t
  rw [← hentry, ← hidx] at hb
  obtain ⟨q', hpeek, horder, hq', -, -, hset⟩ :=
    peekWritable_rule host t dev.rxFrameLimit hc
      (fun p r hp _ _ hcan hr => hp.keep hcan hr) (fun p hp _ _ hcan hnil _ => hp.reject hcan hnil)
      hb hq (by rw [← hq]; exact le_trans hb.held hb.within)
  have hall := horder.of_settled hset
  rw [hentry, hidx] at horder
  rw [hidx] at hall
  have hwaits : ((takeRoom dev.rxFrameLimit q'.peeked 0).map PeekedChain.capacity).sum <
    dev.rxFrameLimit →
      q'.seen = idxOf c s.1 := by
    intro hlt
    rcases hall with hcap | hseen
    · have hroom : dev.rxFrameLimit ≤ 0 + (q'.peeked.map PeekedChain.capacity).sum := by
        rw [zero_add]
        exact hcap
      have := le_takeRoom q'.peeked 0 hroom
      omega
    · exact hseen
  have hfewer := tapFrame_fewer (L := L) (t := t) hfin dev b
  generalize hr : (tapFrame L dev b).interp (answer L host) t = r at hrings hframes hfewer ⊢
  suffices h : Orderly (entryOf L host c s) (idxOf c s.1) r.1.2.queue ∧ r.1.2.queue.config = c ∧
      (r.1.1 = some true → r.1.2.queue.seen = idxOf c s.1) from
    ⟨hrings, h.1, h.2.1, hframes, hfewer, h.2.2⟩
  rw [← hr]
  unfold tapFrame
  rw [interp_bind, hpeek]
  dsimp only
  split
  · next hlt => exact ⟨horder, hq', fun _ => hwaits hlt⟩
  split
  · exact ⟨horder, hq', nofun⟩
  rw [interp_call]
  cases hans : (host (.read
    (bufsLen ((takeRoom dev.rxFrameLimit q'.peeked 0).flatMap PeekedChain.buffers))) t.2).1 with
  | none => exact ⟨horder, hq', nofun⟩
  | some frame =>
    rw [interp_bind, interp_bind]
    obtain ⟨n, hn, huse⟩ := interp_gives (tapDeliver_gives dev
      (takeRoom dev.rxFrameLimit q'.peeked 0) frame { b with queue := q' }) (answer L host)
      ((scatter ((takeRoom dev.rxFrameLimit q'.peeked 0).flatMap PeekedChain.buffers)
        frame).interp (answer L host) (t.1, (host (.read _) t.2).2)).2
    refine ⟨?_, ?_, nofun⟩
    · exact huse ▸ horder.consume (le_trans hn horder.held) rfl rfl rfl
    · exact (congrArg VirtQueueProcessor.config huse).trans hq'

/-- On an orderly queue the loops end after as many rounds as the tap holds frames, and one. -/
theorem rxMergeableFromTap_returns (hc : c.queueIsUsable L = true) (hfin : FiniteTap host left)
    (dev : NetDevice) (max_frames fuel : Nat) {b : TapBatch}
    (hb : Orderly (entryOf L host c s) (idxOf c s.1) b.queue) (hq : b.queue.config = c)
    (ht : SameRings c s.1 t.1) (hfuel : left t.2 < fuel)
    (hmeets : (rxMergeableFromTap L dev max_frames fuel b).Meets (answer L host)
      (Storing (OffRings c)) t) :
    ((rxMergeableFromTap L dev max_frames fuel b).interp (answer L host) t).1 ≠ none := by
  induction fuel generalizing b t with
  | zero => omega
  | succ fuel ih =>
    unfold rxMergeableFromTap at hmeets ⊢
    obtain ⟨hround, hrest⟩ := meets_bind.mp hmeets
    rw [interp_bind]
    unfold tapRound at hround hrest ⊢
    by_cases hmore : b.delivered < max_frames
    swap
    · rw [if_neg hmore]
      dsimp only [interp_pure]
      rw [interp_bind, if_pos (.inr (.inl nofun))]
      exact nofun
    rw [if_pos hmore] at hround hrest ⊢
    have hleaves := tapFrame_leaves hc hfin dev hb hq ht hround
    generalize (tapFrame L dev b).interp (answer L host) t = r at hleaves hrest ⊢
    obtain ⟨⟨stop, b'⟩, t'⟩ := r
    cases stop with
    | none =>
      have hfewer : left t'.2 < left t.2 := hleaves.fewer rfl
      have hfuel' : left t'.2 < fuel := by omega
      exact ih hleaves.orderly hleaves.config hleaves.rings hfuel' hrest
    | some waiting =>
      have hpublish := publishUsed_interp hc hleaves.config (meets_bind.mp hrest).1
      have hstop : ¬ ((publishUsed b'.queue).interp (answer L host) t').1 = true ∨
          ¬ waiting = true ∨ b'.failed = true := by
        cases waiting with
        | false => exact .inr (.inl nofun)
        | true =>
          left
          rw [hpublish, idxOf_congr (usable_of hc) hleaves.rings, hleaves.seen rfl]
          simp
      rw [interp_bind, if_pos hstop]
      exact nofun

theorem tapFrame_sameQueue (dev : NetDevice) (b : TapBatch) :
    (tapFrame L dev b).Gives fun r => SameQueue b.queue r.2.queue := by
  apply gives_bind (peekWritable_unmoved _ _)
  intro q' hq'
  dsimp only
  split
  · exact hq'.1
  split
  · exact hq'.1
  apply gives_skip
  intro frame
  cases frame with
  | none => exact hq'.1
  | some frame =>
    apply gives_skip
    intro _
    apply gives_bind (tapDeliver_gives _ _ _ _)
    rintro b' ⟨n, -, huse⟩
    have hused : SameQueue q' b'.queue := by
      rw [huse]
      exact ⟨rfl, rfl⟩
    exact hq'.1.trans hused

/-- Without EVENT_IDX the loops end on any memory, whatever the device stores over it. -/
theorem rxMergeableFromTap_returns_plain (hfin : FiniteTap host left) (dev : NetDevice)
    (max_frames fuel : Nat) {b : TapBatch} (hb : b.queue.event_idx = false)
    (hfuel : left t.2 < fuel) :
    ((rxMergeableFromTap L dev max_frames fuel b).interp (answer L host) t).1 ≠ none := by
  induction fuel generalizing b t with
  | zero => omega
  | succ fuel ih =>
    unfold rxMergeableFromTap tapRound
    rw [interp_bind]
    by_cases hmore : b.delivered < max_frames
    swap
    · rw [if_neg hmore]
      dsimp only [interp_pure]
      rw [interp_bind, if_pos (.inr (.inl nofun))]
      exact nofun
    rw [if_pos hmore]
    have hfewer := tapFrame_fewer (L := L) (t := t) hfin dev b
    have hsame := interp_gives (tapFrame_sameQueue (L := L) dev b) (answer L host) t
    generalize (tapFrame L dev b).interp (answer L host) t = r at hfewer hsame ⊢
    obtain ⟨⟨stop, b'⟩, t'⟩ := r
    have hb' : b'.queue.event_idx = false := hsame.2.trans hb
    cases stop with
    | none => exact ih hb' (lt_of_lt_of_le (hfewer rfl) (Nat.le_of_lt_succ hfuel))
    | some waiting =>
      have hagain := interp_gives (publishUsed_plain hb') (answer L host) t'
      rw [interp_bind, hagain, if_pos (.inl nofun)]
      exact nofun

/-- A device whose guest accepted mergeable buffers and EVENT_IDX, with a queue of two entries. -/
def mergeableDevice : NetDevice :=
  .negotiated (Features.MRG_RXBUF ||| Features.RING_EVENT_IDX) false apartQueue.config
    ⟨0, 0, 0, 0, false⟩

/-- Descriptor 0 is a receive buffer of `len` bytes at 0x400. The ring's entries name
descriptor 0 and `second`, and `idx` of them are available. -/
def receiveGuest (len second idx : UInt16) : Guest × Unit :=
  (guestWith [(0x100, 0x400), (0x108, len), (0x10c, DescFlags.WRITE), (0x202, idx),
    (0x206, second)], ())

theorem publishesOff_apartQueue : PublishesOff apartQueue.config := by
  intro v
  simp only [OffRings, Off, u16Bytes_length]
  decide

/-- A tap that holds frames. -/
def queuedTap : (call : Call) → List Bytes → Answer call × List Bytes
  | .read room, frame :: frames => (some (frame.take room), frames)
  | .read _, [] => (none, [])
  | .write _, frames => (true, frames)
  | .readable, frames => (frames ≠ [], frames)
  | .charge _, frames => (true, frames)

theorem finiteTap_queuedTap : FiniteTap queuedTap List.length where
  read room frames h := by
    cases frames with
    | nil => exact absurd rfl h
    | cons frame frames => exact Nat.lt_succ_self _
  other call frames := by
    cases call with
    | read room => cases frames <;> simp [queuedTap]
    | _ => exact le_refl _

/-- Two frames wait in the tap and there is a buffer for one. -/
def twoFrames : Guest × List Bytes :=
  ((receiveGuest 2000 0 1).1, [List.replicate 64 0, List.replicate 64 0])

end Net

end Tarit.Virtio
