import Tarit.Live.Machine

/-!
# Guest memory as a virtio device sees it

Devices address guest RAM by guest physical address through `vm-memory`: an access has
to lie inside one region, and a write that runs over the end of its region stores the
bytes that fit before it reports the error. The software dirty bitmap is marked by
separate calls. A device is a program over these accesses and the calls `H` it makes to
its host, so that a guest may change memory between any two of them.
-/
namespace Tarit.Virtio

open Lib Live Snapshot

/-- Guest RAM by guest physical address, and the software dirty bitmap. -/
structure Guest where
  cells : Nat → UInt8
  dirty : DirtyBitmap
  /-- Pages in which a device changed a byte, recorded for the statements only. -/
  changed : Finset Nat

/-- Bytes of RAM from `addr` to the end of its region. -/
def room (L : Layout) (addr : Nat) : Nat :=
  if addr < L.lowSize then L.lowSize - addr
  else if MMIO_GAP_END ≤ addr then MMIO_GAP_END + L.highSize - addr
  else 0

/-- `GuestMemoryBackend::check_range`: low and high RAM are never adjacent. -/
def checkRange (L : Layout) (addr len : Nat) : Bool := decide (len ≤ room L addr)

/-- The page of the packed RAM image that holds `gpa`. -/
def pageOf (L : Layout) (gpa : Nat) : Nat := (L.gpaToOffset gpa).getD 0 / PAGE_SIZE

def put (cells : Nat → UInt8) (addr : Nat) (data : Bytes) (i : Nat) : UInt8 :=
  if addr ≤ i ∧ i < addr + data.length then data.getD (i - addr) 0 else cells i

def peek (cells : Nat → UInt8) (addr len : Nat) : Bytes :=
  (List.range len).map fun j => cells (addr + j)

namespace Guest

variable (L : Layout) (g : Guest)

def load (addr len : Nat) : Option Bytes :=
  if checkRange L addr len then some (peek g.cells addr len) else none

/-- The pages in which storing `data` at `addr` changes a byte. -/
def pagesChanged (addr : Nat) (data : Bytes) : Finset Nat :=
  ((Finset.range data.length).filter fun j => data.getD j 0 ≠ g.cells (addr + j)).image
    fun j => pageOf L (addr + j)

/-- Store the bytes that fit in the region of `addr`. -/
def store (addr : Nat) (data : Bytes) : Guest :=
  let data := data.take (room L addr)
  { g with
    cells := put g.cells addr data
    changed := g.changed ∪ g.pagesChanged L addr data }

end Guest

/-- `SoftwareDirtyBitmap::mark_guest_range`. -/
def markGuestRange (dirty : DirtyBitmap) (gpa len : Nat) : DirtyBitmap :=
  match checkedAdd gpa len with
  | none => dirty
  | some end_gpa =>
    if len = 0 then dirty
    else
      let dirty :=
        if gpa < MMIO_GAP_START then markRange dirty gpa (min end_gpa MMIO_GAP_START - gpa)
        else dirty
      if MMIO_GAP_END < end_gpa then
        let start := max gpa MMIO_GAP_END
        markRange dirty (MMIO_GAP_START + (start - MMIO_GAP_END)) (end_gpa - start)
      else dirty

def InRegion (L : Layout) (gpa : Nat) : Prop :=
  ∃ region ∈ L.regions, region.start_addr ≤ gpa ∧ gpa < region.start_addr + region.len

/-- `GuestRegionMmap::new` makes no region that ends beyond the 64-bit addresses. -/
def Assembles (L : Layout) : Prop := ∀ region ∈ L.regions, region.start_addr + region.len < u64Size

/-- Where the byte at `gpa` is packed. Low RAM ends at the gap if there is high RAM. -/
def Packed (gpa offset : Nat) : Prop :=
  gpa < MMIO_GAP_START ∧ offset = gpa ∨
    MMIO_GAP_END ≤ gpa ∧ offset = MMIO_GAP_START + (gpa - MMIO_GAP_END)

section Packed

variable {L : Layout} {gpa len offset p : Nat} {dirty : DirtyBitmap}

theorem inRegion_iff : InRegion L gpa ↔
    gpa < L.lowSize ∨ MMIO_GAP_END ≤ gpa ∧ gpa < MMIO_GAP_END + L.highSize := by
  unfold InRegion Layout.regions
  split
  · simp
  rename_i hhigh
  simp only [List.mem_singleton, exists_eq_left]
  omega

theorem gpaToOffset_iff : L.gpaToOffset gpa = some offset ↔ InRegion L gpa ∧ Packed gpa offset := by
  rw [inRegion_iff]
  unfold Packed Layout.gpaToOffset Layout.highSize Layout.lowSize MMIO_GAP_START MMIO_GAP_END
  split
  · rw [Option.some.injEq]
    omega
  split
  · rw [Option.some.injEq]
    omega
  · simp only [reduceCtorEq, false_iff]
    omega

theorem offsetToGpa_iff : L.offsetToGpa offset = some gpa ↔ InRegion L gpa ∧ Packed gpa offset := by
  rw [inRegion_iff]
  unfold Packed Layout.offsetToGpa Layout.highSize Layout.lowSize MMIO_GAP_START MMIO_GAP_END
  split
  · simp only [reduceCtorEq, false_iff]
    omega
  split
  · rw [Option.some.injEq]
    omega
  · rw [Option.some.injEq]
    omega

/-- The two parts of a range, on either side of the gap. -/
theorem mem_markGuestRange (h : len ≠ 0 → gpa + len < u64Size) :
    p ∈ markGuestRange dirty gpa len ↔ p ∈ dirty ∨ ∃ g offset, gpa ≤ g ∧ g < gpa + len ∧
      Packed g offset ∧ p = offset / PAGE_SIZE := by
  have hpart {c : Prop} [Decidable c] {dirty : DirtyBitmap} {start size : Nat}
      (hc : c → start + size < u64Size) :
      p ∈ (if c then markRange dirty start size else dirty) ↔ p ∈ dirty ∨
        ∃ g, c ∧ start ≤ g ∧ g < start + size ∧ p = g / PAGE_SIZE := by
    split
    · next hc' => simp only [mem_markRange (hc hc'), hc', true_and]
    · next hc' => simp [hc']
  by_cases hlen : len = 0
  · have hsame : markGuestRange dirty gpa len = dirty := by
      unfold markGuestRange
      split
      · rfl
      · exact if_pos hlen
    rw [hsame]
    exact ⟨.inl, fun hp => hp.resolve_right fun ⟨g, _⟩ => by omega⟩
  have hend := h hlen
  unfold markGuestRange
  rw [checkedAdd_of_lt hend]
  dsimp only
  unfold Packed MMIO_GAP_START MMIO_GAP_END
  rw [if_neg hlen, hpart fun _ => by omega, hpart fun _ => by omega, or_assoc]
  apply or_congr_right
  constructor
  · rintro (⟨g, _⟩ | ⟨g, _⟩)
    · exact ⟨g, g, by omega⟩
    · exact ⟨g + (4294967296 - 3489660928), g, by omega⟩
  · rintro ⟨g, offset, _, _, ⟨_, _⟩ | ⟨_, _⟩, _⟩
    · exact .inl ⟨offset, by omega⟩
    · exact .inr ⟨offset, by omega⟩

/-- For every RAM size the offsets of the packed image and the addresses of RAM correspond, and a
range of RAM, with the gap if it goes over it, marks the pages that its bytes are packed in. -/
theorem guest_ranges_mark_packed_pages (L : Layout) (hL : Assembles L) :
    (∀ gpa, InRegion L gpa ↔ (L.gpaToOffset gpa).isSome) ∧
    (∀ offset, offset < L.size_bytes ↔ (L.offsetToGpa offset).isSome) ∧
    (∀ gpa offset, L.gpaToOffset gpa = some offset ↔ L.offsetToGpa offset = some gpa) ∧
    (∀ gpa offset, L.offsetToGpa offset = some gpa → gpa < u64Size) ∧
    ∀ dirty gpa len,
      (∀ g, gpa ≤ g → g < gpa + len → InRegion L g ∨ MMIO_GAP_START ≤ g ∧ g < MMIO_GAP_END) →
      ∀ p, p ∈ markGuestRange dirty gpa len ↔ p ∈ dirty ∨ ∃ g offset, gpa ≤ g ∧ g < gpa + len ∧
        L.gpaToOffset g = some offset ∧ p = offset / PAGE_SIZE := by
  have hbelow (g : Nat) (hg : InRegion L g) : g + 1 < u64Size := by
    obtain ⟨region, hregion, _, _⟩ := hg
    have := hL region hregion
    omega
  refine ⟨fun gpa => ?_, fun offset => ?_, fun gpa offset => ?_, fun gpa offset h => ?_,
    fun dirty gpa len hram p => ?_⟩
  · rw [inRegion_iff]
    unfold Layout.gpaToOffset
    split
    · simp [*]
    split
    · simp; omega
    · simp; omega
  · unfold Layout.offsetToGpa
    split
    · simpa
    · split <;> simp <;> omega
  · rw [gpaToOffset_iff, offsetToGpa_iff]
  · have := hbelow gpa (offsetToGpa_iff.mp h).1
    omega
  · have hend (hlen : len ≠ 0) : gpa + len < u64Size := by
      rcases hram (gpa + len - 1) (by omega) (by omega) with h | h
      · have := hbelow _ h
        omega
      · unfold MMIO_GAP_END at h
        unfold u64Size
        omega
    rw [mem_markGuestRange hend]
    refine or_congr_right (exists_congr fun g => exists_congr fun offset => ?_)
    refine and_congr_right fun hlo => and_congr_right fun hhi => and_congr_left fun _ => ?_
    rw [gpaToOffset_iff]
    refine ⟨fun h => ⟨(hram g hlo hhi).resolve_right fun hgap => ?_, h⟩, And.right⟩
    unfold Packed at h
    omega

/-- A page on either side of the gap: the pages before and after `0xD0000` are marked. -/
theorem pages_by_the_gap_marked :
    0xD0000 ∈ markGuestRange ∅ (MMIO_GAP_START - 1) (MMIO_GAP_END + 2 - MMIO_GAP_START) := by
  let L : Layout := ⟨MMIO_GAP_START + PAGE_SIZE, by decide, by decide, by decide⟩
  have hL : Assembles L := by
    unfold Assembles
    decide
  refine ((guest_ranges_mark_packed_pages L hL).2.2.2.2 ∅ _ _ (fun g _ _ => ?_) _).mpr (.inr ?_)
  · rw [inRegion_iff]
    unfold MMIO_GAP_START MMIO_GAP_END at *
    have : L.lowSize = 0xD0000000 := by decide
    have : L.highSize = 4096 := by decide
    omega
  · exact ⟨MMIO_GAP_END, MMIO_GAP_START, by decide⟩

end Packed
/-- What a device does: access guest memory, mark pages, call its host. -/
inductive Op (H : Type) where
  | load (addr len : Nat)
  | store (addr : Nat) (data : Bytes)
  | mark (gpa len : Nat)
  | host (call : H)

/-- The answers; those of host calls are `A`. -/
abbrev Res {H : Type} (A : H → Type) : Op H → Type
  | .load _ _ => Option Bytes
  | .store _ _ => Bool
  | .mark _ _ => Unit
  | .host call => A call

abbrev Device {H : Type} (A : H → Type) (α : Type) : Type := Prog (Op H) (Res A) α

section Semantics

variable {H τ : Type} {A : H → Type} (L : Layout)

/-- Memory accesses answered by `Guest`, host calls by `host`. -/
def answer (host : (call : H) → τ → A call × τ) : (o : Op H) → Guest × τ → Res A o × (Guest × τ)
  | .load addr len, s => (s.1.load L addr len, s)
  | .store addr data, s => (checkRange L addr data.length, s.1.store L addr data, s.2)
  | .mark gpa len, s => ((), { s.1 with dirty := markGuestRange s.1.dirty gpa len }, s.2)
  | .host call, s => ((host call s.2).1, s.1, (host call s.2).2)

/-- What an operation may answer and do, in the runs whose stores are all of `S`. -/
def execOp (S : Nat → Bytes → Prop) (host : (call : H) → τ → A call → τ → Prop) (s : Guest × τ) :
    (o : Op H) → Res A o → Guest × τ → Prop
  | .load addr len, r, t => r = s.1.load L addr len ∧ t = s
  | .store addr data, r, t =>
    S addr data ∧ r = checkRange L addr data.length ∧ t = (s.1.store L addr data, s.2)
  | .mark gpa len, _, t => t = ({ s.1 with dirty := markGuestRange s.1.dirty gpa len }, s.2)
  | .host call, r, t => host call s.2 r t.2 ∧ t.1 = s.1

/-- A device among the steps `env` of everything else. -/
def deviceWorld (S : Nat → Bytes → Prop) (env : Guest × τ → Guest × τ → Prop)
    (host : (call : H) → τ → A call → τ → Prop) : World (Guest × τ) (Op H) (Res A) where
  env := env
  exec o s r t := execOp L S host s o r t

/-- A device alone with a host that answers by a function. -/
def aloneWorld (S : Nat → Bytes → Prop) (host : (call : H) → τ → A call × τ) :
    World (Guest × τ) (Op H) (Res A) :=
  deviceWorld L S (fun _ _ => False) fun call x r y => host call x = (r, y)

/-- Operations whose stores are of `S`. -/
def Storing (S : Nat → Bytes → Prop) : Op H → Prop
  | .store addr data => S addr data
  | _ => True

instance (S : Nat → Bytes → Prop) [∀ addr data, Decidable (S addr data)] :
    DecidablePred (Storing (H := H) S) := fun o =>
  match o with
  | .store addr data => inferInstanceAs (Decidable (S addr data))
  | .load _ _ => isTrue trivial
  | .mark _ _ => isTrue trivial
  | .host _ => isTrue trivial

/-- A device can run as `answer` says if its world allows the operations of `T`. -/
theorem runs_answer {S : Nat → Bytes → Prop} {T : Op H → Prop} {env : Guest × τ → Guest × τ → Prop}
    {allows : (call : H) → τ → A call → τ → Prop} (host : (call : H) → τ → A call × τ)
    (hstore : ∀ addr data, T (.store addr data) → S addr data)
    (hhost : ∀ call x, T (.host call) → allows call x (host call x).1 (host call x).2) {α : Type}
    (p : Device A α) {s : Guest × τ} (hp : p.Meets (answer L host) T s) :
    (deviceWorld L S env allows).Runs p s (p.interp (answer L host) s).1
      (p.interp (answer L host) s).2 := by
  apply World.runs_follows _ p hp
  intro o s ho
  cases o with
  | load addr len => exact ⟨rfl, rfl⟩
  | store addr data => exact ⟨hstore addr data ho, rfl, rfl⟩
  | mark gpa len => rfl
  | host call => exact ⟨hhost call s.2 ho, rfl⟩

theorem runs_alone {S : Nat → Bytes → Prop} (host : (call : H) → τ → A call × τ) {α : Type}
    (p : Device A α) {s : Guest × τ} (hp : p.Meets (answer L host) (Storing S) s) :
    (aloneWorld L S host).Runs p s (p.interp (answer L host) s).1 (p.interp (answer L host) s).2 :=
  runs_answer L host (fun _ _ h => h) (fun _ _ _ => rfl) p hp

end Semantics

section Access

variable {H : Type} {A : H → Type}

def load (addr len : Nat) : Device A (Option Bytes) := .step (.load addr len) .done

def store (addr : Nat) (data : Bytes) : Device A Bool := .step (.store addr data) .done

def markGuest (gpa len : Nat) : Device A Unit := .step (.mark gpa len) .done

def call (c : H) : Device A (A c) := .step (.host c) .done

/-- `read_obj_mem` of a 16-bit word. -/
def readU16 (addr : Nat) : Device A (Option UInt16) := do
  let word ← load addr 2
  return word.map fun bytes => UInt16.ofNat (fromLeBytes bytes)

/-- `write_obj_mem` and `write_slice_mem`: a range is marked once the whole write succeeded. -/
def writeMem (addr : Nat) (data : Bytes) : Device A Bool := do
  if ← store addr data then
    markGuest addr data.length
    return true
  else return false

end Access

end Tarit.Virtio
