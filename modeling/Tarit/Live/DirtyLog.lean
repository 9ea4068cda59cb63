import Tarit.Live.Machine

/-!
# Reading the dirty log slot by slot

`read_dirty_log` asks KVM for one slot after the other while the guest may be running;
each answer clears its slot. The pages it returns are those of the slots it has read, so
a copy that was right up to the recorded pages is right up to the recorded pages and the
returned ones.
-/
namespace Tarit.Live

open Lib Snapshot World Prog List

abbrev Thread := Prog Op Res

/-- Code that returns `Result`. -/
abbrev Fallible := ExceptT VmmError Thread

def getDirtyLog (slot : Nat) : Thread (Except String (List UInt64)) := perform (Op.getDirtyLog slot)

def now : Thread Nat := perform Op.now

def drainHostDirty : Thread DirtyBitmap := perform Op.drainHostDirty

def markHostDirty (offset len : Nat) : Thread Unit := perform (Op.markHostDirty offset len)

/-- Code whose own result is looked at, error or not. -/
def outcome {α : Type} (p : Thread α) : Fallible α := ExceptT.lift p

/-- `call.map_err(e)?`. -/
def orFail {α : Type} (call : Thread (Except String α)) (e : String → VmmError) : Fallible α := do
  match ← call with
  | .ok a => pure a
  | .error message => throw (e message)

def markPage (dirty : DirtyBitmap) (gpa : Nat) : DirtyBitmap := insert (gpa / PAGE_SIZE) dirty

def markWord (packed_region_start word_idx : Nat) (w : UInt64) (bitmap : DirtyBitmap) :
    DirtyBitmap :=
  if w = 0 then bitmap
  else (range 64).foldl (fun bitmap bit =>
    if w.toNat.testBit bit then
      markPage bitmap (packed_region_start + (word_idx * 64 + bit) * 4096)
    else bitmap) bitmap

def markWords (packed_region_start : Nat) : List UInt64 → Nat → DirtyBitmap → DirtyBitmap
  | [], _, bitmap => bitmap
  | w :: words, word_idx, bitmap =>
    markWords packed_region_start words (word_idx + 1)
      (markWord packed_region_start word_idx w bitmap)

/-- The loop of `read_dirty_log` over the regions not read yet. -/
def readDirtyLog (L : Layout) : List Region → Nat → DirtyBitmap → Fallible DirtyBitmap
  | [], _, bitmap => pure bitmap
  | region :: rest, slot, bitmap =>
    match L.gpaToOffset region.start_addr with
    | none => throw (.memory ("read dirty log: guest memory region at GPA 0x" ++
        hex region.start_addr ++ " has no packed backing offset"))
    | some packed_region_start => do
      let words ← orFail (getDirtyLog slot) fun e =>
        .memory ("read dirty log: KVM_GET_DIRTY_LOG failed for slot " ++ toString slot ++ ": " ++ e)
      readDirtyLog L rest (slot + 1) (markWords packed_region_start words 0 bitmap)

def readDirty (L : Layout) : Fallible DirtyBitmap := readDirtyLog L L.regions 0 ∅

/-- Mark pages in the host tracker, as a replay of consumed pages does. -/
def replayPfns : List Nat → Thread Unit
  | [] => pure ()
  | pfn :: rest => do
    markHostDirty (min (pfn * PAGE_SIZE) (u64Size - 1)) PAGE_SIZE
    replayPfns rest

def replayConsumedDirty (dirty : DirtyBitmap) : Thread Unit := replayPfns dirty.sort

/-! ## The bitmap -/

variable {p start idx : Nat} {dirty : DirtyBitmap} {words : List UInt64}

theorem mem_foldl_mark (start base : Nat) (bit : Nat → Bool) (bits : List Nat)
    (dirty : DirtyBitmap) :
    p ∈ bits.foldl (fun d b => if bit b then markPage d (start + (base + b) * 4096) else d) dirty ↔
      p ∈ dirty ∨ ∃ b ∈ bits, bit b = true ∧ p = (start + (base + b) * 4096) / PAGE_SIZE := by
  induction bits generalizing dirty with
  | nil => simp
  | cons b bits ih =>
    rw [foldl_cons, ih]
    by_cases hb : bit b
    · rw [if_pos hb, markPage, Finset.mem_insert, or_assoc, or_left_comm]
      simp only [mem_cons, exists_eq_or_imp, hb, true_and]
    · simp [hb]

theorem mem_markWord {w : UInt64} :
    p ∈ markWord start idx w dirty ↔ p ∈ dirty ∨ ∃ b < 64, w.toNat.testBit b = true ∧
      p = (start + (idx * 64 + b) * 4096) / PAGE_SIZE := by
  unfold markWord
  split
  · next hw => simp [hw]
  have h := mem_foldl_mark start (idx * 64) (fun b => w.toNat.testBit b) (range 64) dirty
    (p := p)
  simpa only [mem_range] using h

theorem mem_markWords :
    p ∈ markWords start words idx dirty ↔ p ∈ dirty ∨ ∃ k, wordBit words k = true ∧
      p = (start + (idx * 64 + k) * 4096) / PAGE_SIZE := by
  induction words generalizing idx dirty with
  | nil => simp [markWords, wordBit]
  | cons w words ih =>
    have hlow : ∀ b, b < 64 → wordBit (w :: words) b = w.toNat.testBit b := by
      intro b hb
      simp [wordBit, Nat.div_eq_of_lt hb, Nat.mod_eq_of_lt hb]
    have hhigh : ∀ k, wordBit (w :: words) (k + 64) = wordBit words k := by
      intro k
      have hdiv : (k + 64) / 64 = k / 64 + 1 := by omega
      simp [wordBit, hdiv]
    rw [markWords, ih, mem_markWord, or_assoc]
    refine or_congr_right ⟨?_, ?_⟩
    · rintro (⟨b, hb, hset, rfl⟩ | ⟨k, hset, rfl⟩)
      · exact ⟨b, by rw [hlow b hb]; exact hset, rfl⟩
      · exact ⟨k + 64, by rw [hhigh]; exact hset, by congr 3; ring⟩
    · rintro ⟨k, hset, rfl⟩
      by_cases hk : k < 64
      · exact .inl ⟨k, hk, by rw [← hlow k hk]; exact hset, rfl⟩
      refine .inr ⟨k - 64, ?_, by congr 3; omega⟩
      rw [← hhigh, Nat.sub_add_cancel (by omega)]
      exact hset

/-- The log of `slot` starts at packed offset `packed`. -/
def Layout.StartsAt (L : Layout) (slot packed : Nat) : Prop :=
  ∀ p, (L.slotBit p).1 = slot → p = (packed + (L.slotBit p).2 * 4096) / PAGE_SIZE

namespace Layout

theorem regions_start (L : Layout) {slot : Nat} {region : Region}
    (h : L.regions[slot]? = some region) :
    ∃ packed, L.gpaToOffset region.start_addr = some packed ∧ L.StartsAt slot packed := by
  have hlow : 0 < L.lowSize := by
    have hpos := L.pos
    unfold lowSize MMIO_GAP_START
    omega
  match slot with
  | 0 =>
    simp only [regions, getElem?_cons_zero, Option.some.injEq] at h
    subst h
    refine ⟨0, by simp [gpaToOffset, hlow], fun p hp => ?_⟩
    unfold slotBit at hp ⊢
    split at hp
    · next hlt =>
      rw [if_pos hlt, zero_add]
      exact (Nat.mul_div_left p (by decide : 0 < 4096)).symm
    · simp at hp
  | 1 =>
    simp only [regions, getElem?_cons_succ] at h
    by_cases hhigh : L.highSize ≠ 0
    swap
    · rw [if_neg hhigh] at h
      simp at h
    rw [if_pos hhigh] at h
    simp only [getElem?_cons_zero, Option.some.injEq] at h
    subst h
    have hgap : ¬ MMIO_GAP_END < L.lowSize := by
      unfold lowSize MMIO_GAP_END MMIO_GAP_START
      omega
    refine ⟨L.lowSize, by simp [gpaToOffset, hgap, Nat.pos_of_ne_zero hhigh], fun p hp => ?_⟩
    unfold slotBit at hp ⊢
    split at hp
    · simp at hp
    rename_i hge
    simp only [hge, if_false]
    unfold PAGE_SIZE at *
    omega
  | n + 2 =>
    simp only [regions, getElem?_cons_succ] at h
    split at h <;> simp at h

/-- Every page of RAM has its bit in the log of a registered slot. -/
theorem slotBit_lt (L : Layout) (hp : p < L.pages) : (L.slotBit p).1 < L.regions.length := by
  unfold slotBit regions
  split
  · simp
  rename_i hge
  have hhigh : L.highSize ≠ 0 := by
    unfold highSize
    have := Nat.div_mul_le_self L.size_bytes PAGE_SIZE
    have hmul : p * PAGE_SIZE < L.size_bytes :=
      lt_of_lt_of_le (Nat.mul_lt_mul_of_pos_right hp (by decide)) this
    omega
  simp [hhigh]

end Layout

/-! ## What a read does to the trackers -/

section Reads

variable {L : Layout} {m m' : Machine}

theorem collects_getDirtyLog {slot packed : Nat} (dirty : DirtyBitmap)
    (hstart : L.StartsAt slot packed) (h : exec m (.getDirtyLog slot) (.ok words) m') :
    (tracking L).Collects m m' (· ∈ markWords packed words 0 dirty) := by
  obtain ⟨hbits, rfl⟩ := h
  refine ⟨fun p hp => ?_, fun _ => rfl⟩
  rcases hp with hp | hp | hp
  · exact .inl (.inl hp)
  · exact .inl (.inr (.inl hp))
  by_cases hslot : (L.slotBit p).1 = slot
  · right
    rw [hslot] at hp
    refine mem_markWords.mpr (.inr ⟨(L.slotBit p).2, (hbits _).mpr hp, ?_⟩)
    rw [zero_mul, zero_add]
    exact hstart p hslot
  · refine .inl (.inr (.inr ?_))
    simpa [Function.update_of_ne hslot] using hp

theorem subset_markWords : dirty ⊆ markWords start words idx dirty :=
  fun _ hp => mem_markWords.mpr (.inl hp)

theorem collects_drainHostDirty (h : exec m .drainHostDirty dirty m') :
    (tracking L).Collects m m' (· ∈ dirty) := by
  obtain ⟨rfl, rfl⟩ := h
  refine ⟨fun p hp => ?_, fun _ => rfl⟩
  rcases hp with hp | hp
  · exact .inr hp
  · exact .inl (.inr hp)

end Reads

/-! ## Rules for the calls that can fail -/

section Rules

variable {L : Layout} {w : World Machine Op Res} {α : Type} {P : Machine → Prop}

theorem tries_orFail {call : Thread (Except String α)} {e : String → VmmError}
    {Q : α → Machine → Prop} {E : Machine → Prop}
    (h : w.Tries P (ExceptT.mk call) Q fun _ => E) : w.Tries P (orFail call e) Q fun _ => E := by
  obtain ⟨Q', hstable, hcall, himp⟩ := Triple.settled h
  refine .after hcall fun r => ?_
  match r with
  | .ok a => exact .pure (hstable _) (himp (.ok a))
  | .error message => exact .throw (hstable _) (himp (.error message))

theorem yields_orFail {call : Thread (Except String α)} {e : String → VmmError}
    {Q : α → Machine → Prop} (h : w.Yields P (ExceptT.mk call) Q) : w.Yields P (orFail call e) Q :=
  tries_orFail h

theorem triple_now (hP : (world L).Stable P) : (world L).Triple P now fun _ => P := by
  refine .perform hP ?_ fun _ => hP
  intro m t m' hm hexec
  obtain rfl : m' = m := hexec
  exact hm

/-- The rule of `read_dirty`: an assertion about the slots read so far and the pages they
gave is carried by each read of a slot. -/
theorem tries_readDirty {Φ : Nat → DirtyBitmap → Machine → Prop} {E : Machine → Prop}
    (hΦ : ∀ slot dirty, w.Stable (Φ slot dirty)) (hE : w.Stable E)
    (hget : ∀ slot dirty packed words m m', L.StartsAt slot packed → Φ slot dirty m →
      w.exec (.getDirtyLog slot) m (.ok words) m' →
        Φ (slot + 1) (markWords packed words 0 dirty) m')
    (hfail : ∀ slot dirty e m m', Φ slot dirty m → w.exec (.getDirtyLog slot) m (.error e) m' →
      E m') :
    w.Tries (Φ 0 ∅) (readDirty L) (Φ L.regions.length) fun _ => E := by
  suffices h : ∀ rest slot dirty, L.regions.drop slot = rest → slot ≤ L.regions.length →
      w.Tries (Φ slot dirty) (readDirtyLog L rest slot dirty) (Φ L.regions.length) fun _ => E from
    h _ 0 ∅ rfl (Nat.zero_le _)
  intro rest
  induction rest with
  | nil =>
    intro slot dirty hrest hle
    have hslot : slot = L.regions.length := by
      have := drop_eq_nil_iff.mp hrest
      omega
    subst hslot
    exact .pure (hΦ _ _) fun _ h => h
  | cons region rest ih =>
    intro slot dirty hrest hle
    have hlt : slot < L.regions.length := by
      by_contra hge
      rw [drop_eq_nil_iff.mpr (by omega)] at hrest
      cases hrest
    have hregion : L.regions[slot]? = some region := by
      rw [← head?_drop, hrest, head?_cons]
    obtain ⟨packed, hpacked, hstart⟩ := L.regions_start hregion
    rw [readDirtyLog, hpacked]
    have hcall : w.Tries (Φ slot dirty) (.mk (getDirtyLog slot))
        (fun words => Φ (slot + 1) (markWords packed words 0 dirty)) fun _ => E := by
      refine .perform (o := .getDirtyLog slot) (fun r => r) (hΦ _ _)
        (fun _ => hΦ _ _) (fun _ => hE) ?_
      intro m r m' hm hexec
      cases r with
      | ok words => exact hget slot dirty packed words m m' hstart hm hexec
      | error e => exact hfail slot dirty e m m' hm hexec
    refine .bind (tries_orFail hcall) fun words =>
      ih (slot + 1) (markWords packed words 0 dirty) ?_ hlt
    rw [← drop_drop, hrest, drop_one, tail_cons]

theorem yields_readDirty {Φ : Nat → DirtyBitmap → Machine → Prop}
    (hΦ : ∀ slot dirty, (world L).Stable (Φ slot dirty))
    (hget : ∀ slot dirty packed words m m', L.StartsAt slot packed → Φ slot dirty m →
      exec m (.getDirtyLog slot) (.ok words) m' →
      Φ (slot + 1) (markWords packed words 0 dirty) m') :
    (world L).Yields (Φ 0 ∅) (readDirty L) (Φ L.regions.length) :=
  tries_readDirty hΦ World.stable_const hget fun _ _ _ _ _ _ _ => trivial

end Rules

end Tarit.Live
