import Tarit.Lib.Interleave
import Tarit.Lib.DirtyTracking
import Tarit.Snapshot.DirtyRuns
import Mathlib.Order.Interval.Finset.Nat

/-!
# A running guest, its devices and the host calls of a snapshot thread

The state is guest RAM with the pages the kernel has populated, KVM's dirty log of each
memory slot, the host dirty tracker, the writes whose mark is still outstanding, and the
staging file of a live snapshot. `Env` is what everything but the snapshot thread may do:
guest writes are logged as they happen, device writes change the bytes first and mark
the page later, a balloon discard zeroes a page and marks it later, and a fault fills a
missing page with the bytes it reads as. `FailingEnv` adds the discard that returns an
error with the page dropped and no mark. `Op` lists the host calls of the snapshot
thread, `exec` what each may answer.

Offsets are packed RAM offsets: the high region follows the low one without the gap.
-/
namespace Tarit.Live

open Lib Snapshot Function

def PAGE_SIZE : Nat := 4096

def MMIO_GAP_START : Nat := 0xd0000000

def MMIO_GAP_END : Nat := 0x100000000

/-- A size `GuestMemory::new` accepts. -/
structure Layout where
  size_bytes : Nat
  pos : 0 < size_bytes
  whole : size_bytes % PAGE_SIZE = 0
  fits : size_bytes < u64Size

/-- A region of guest physical memory. Its place in the list is its KVM slot. -/
structure Region where
  start_addr : Nat
  len : Nat

namespace Layout

def lowSize (L : Layout) : Nat := min L.size_bytes MMIO_GAP_START

def highSize (L : Layout) : Nat := L.size_bytes - L.lowSize

def regions (L : Layout) : List Region :=
  ⟨0, L.lowSize⟩ :: if L.highSize ≠ 0 then [⟨MMIO_GAP_END, L.highSize⟩] else []

def gpaToOffset (L : Layout) (gpa : Nat) : Option Nat :=
  if gpa < L.lowSize then some gpa
  else if MMIO_GAP_END ≤ gpa ∧ gpa - MMIO_GAP_END < L.highSize then
    some (L.lowSize + (gpa - MMIO_GAP_END))
  else none

def offsetToGpa (L : Layout) (offset : Nat) : Option Nat :=
  if L.size_bytes ≤ offset then none
  else if offset < L.lowSize then some offset
  else some (MMIO_GAP_END + (offset - L.lowSize))

/-- The slot whose log has a bit for page `p`, and the bit. -/
def slotBit (L : Layout) (p : Nat) : Nat × Nat :=
  if p * PAGE_SIZE < L.lowSize then (0, p) else (1, p - L.lowSize / PAGE_SIZE)

def pages (L : Layout) : Nat := L.size_bytes / PAGE_SIZE

end Layout

/-- A VMM thread that writes guest RAM. -/
inductive Writer where
  | vcpu (n : Nat)
  | worker (n : Nat)
  deriving DecidableEq

structure Machine where
  /-- Pages the kernel has populated. -/
  present : Nat → Bool
  /-- Bytes of populated pages. -/
  cells : Nat → UInt8
  /-- What a missing page reads as: zero in fresh RAM, the snapshot in restored RAM. -/
  image : Nat → UInt8
  /-- Pages the balloon has discarded: missing, they read as zero. -/
  discarded : Finset Nat
  logging : Bool
  /-- KVM's dirty log: the bits set in each slot. -/
  log : Nat → Finset Nat
  /-- The host dirty tracker. -/
  host : DirtyBitmap
  /-- Pages a thread has changed and not marked yet. -/
  unmarked : Writer → Finset Nat
  vcpusParked : Bool
  ioParked : Bool
  /-- The staging file `memory_file`. -/
  stage : Nat → UInt8
  /-- The set of the snapshot thread's `DirtyReplayGuard`. -/
  consumed : DirtyBitmap
  /-- Guest RAM as the last stop of all writers found it, recorded for the statements only. -/
  cut : Option (Nat → UInt8)

namespace Machine

variable (L : Layout) (m : Machine)

/-- What a byte of a missing page reads as. -/
def origin (i : Nat) : UInt8 := if i / PAGE_SIZE ∈ m.discarded then 0 else m.image i

def view (i : Nat) : UInt8 := if m.present (i / PAGE_SIZE) then m.cells i else m.origin i

def fault (p : Nat) : Machine :=
  { m with
    present := update m.present p true
    cells := fun i => if i / PAGE_SIZE = p then m.view i else m.cells i }

/-- Byte `i` is written; the fault it takes on a missing page comes first. -/
def store (i : Nat) (v : UInt8) : Machine :=
  { m.fault (i / PAGE_SIZE) with
    cells := update (m.fault (i / PAGE_SIZE)).cells i v }

/-- KVM sets the bit of page `p`, once logging is on. -/
def logged (p : Nat) : Machine :=
  if m.logging then
    let (slot, bit) := L.slotBit p
    { m with log := update m.log slot (insert bit (m.log slot)) }
  else m

def guestWrite (i : Nat) (v : UInt8) : Machine := (m.store i v).logged L (i / PAGE_SIZE)

/-- Page `p` is changed by `w`, its mark is outstanding. -/
def owes (w : Writer) (p : Nat) : Machine :=
  { m with unmarked := update m.unmarked w (insert p (m.unmarked w)) }

def deviceWrite (w : Writer) (i : Nat) (v : UInt8) : Machine := (m.store i v).owes w (i / PAGE_SIZE)

def mark (w : Writer) (p : Nat) : Machine :=
  { m with
    host := insert p m.host
    unmarked := update m.unmarked w ((m.unmarked w).erase p) }

/-- `LazyPageDiscard::discard` sets the page's bit before it drops the page. -/
def discard (w : Writer) (p : Nat) : Machine :=
  { m.owes w p with discarded := insert p m.discarded }

def dropPage (p : Nat) : Machine := { m with present := update m.present p false }

/-- `discard_range` returns the error of a lazy discard before it marks the range: what
`w` owed for page `p` is never marked. -/
def discardFails (w : Writer) (p : Nat) : Machine :=
  { m with unmarked := update m.unmarked w ((m.unmarked w).erase p) }

def parked : Writer → Bool
  | .vcpu _ => m.vcpusParked
  | .worker _ => m.ioParked

end Machine

/-- A page some tracker, or an outstanding mark, will name. -/
def Recorded (L : Layout) (m : Machine) (p : Nat) : Prop :=
  p ∈ m.host ∨ (∃ w, p ∈ m.unmarked w) ∨ (L.slotBit p).2 ∈ m.log (L.slotBit p).1

/-- The steps of vCPUs, device workers, the balloon and the fault handler, with every
discard of the balloon a successful one. -/
inductive Env (L : Layout) : Machine → Machine → Prop where
  | guestWrite {m : Machine} (i : Nat) (v : UInt8) (hi : i < L.size_bytes)
      (hrun : m.vcpusParked = false) : Env L m (m.guestWrite L i v)
  | deviceWrite {m : Machine} (w : Writer) (i : Nat) (v : UInt8) (hi : i < L.size_bytes)
      (hrun : m.parked w = false) : Env L m (m.deviceWrite w i v)
  | mark {m : Machine} (w : Writer) (p : Nat) (hrun : m.parked w = false) : Env L m (m.mark w p)
  | discard {m : Machine} (w : Writer) (p : Nat) (hrun : m.parked w = false) :
      Env L m (m.discard w p)
  | dropPage {m : Machine} (w : Writer) (p : Nat) (hrun : m.parked w = false)
      (howed : p ∈ m.unmarked w) (hbit : p ∈ m.discarded) : Env L m (m.dropPage p)
  | fault {m : Machine} (p : Nat) : Env L m (m.fault p)

/-- The steps with balloon discards that fail after they have set the bit of a page. The
balloon goes on with its next request. -/
inductive FailingEnv (L : Layout) : Machine → Machine → Prop where
  | env {m m' : Machine} (h : Env L m m') : FailingEnv L m m'
  | discardFails {m : Machine} (w : Writer) (p : Nat) (hrun : m.parked w = false)
      (hbit : p ∈ m.discarded) : FailingEnv L m (m.discardFails w p)

inductive CloneOutcome where
  | Cloned
  | NotThisRange
  | Unsupported
  deriving DecidableEq

/-- The host calls of the snapshot thread, each atomic. -/
inductive Op where
  | setLen (len : Nat)
  | pauseAll
  | resumeVcpus
  | quiesceIo (pause : Bool)
  | enableDirtyLogging
  | getDirtyLog (slot : Nat)
  | drainHostDirty
  | markHostDirty (offset len : Nat)
  | newGuard
  | consume (dirty : DirtyBitmap)
  | disarm
  | openPagemap
  | pagemapEntry (page : Nat)
  | load (offset : Nat)
  | readUntouched (offset len : Nat)
  | cloneUntouched (offset len : Nat)
  | put (offset : Nat) (byte : UInt8)
  | syncData
  | now
  | captureState

abbrev Res : Op → Type
  | .setLen _ => Except String Unit
  | .pauseAll => Result Unit
  | .resumeVcpus => Result Unit
  | .quiesceIo _ => Result Unit
  | .enableDirtyLogging => Except String Unit
  | .getDirtyLog _ => Except String (List UInt64)
  | .drainHostDirty => DirtyBitmap
  | .markHostDirty _ _ => Unit
  | .newGuard => Unit
  | .consume _ => Unit
  | .disarm => DirtyBitmap
  | .openPagemap => Bool
  | .pagemapEntry _ => Bool
  | .load _ => UInt8
  | .readUntouched _ _ => Except String Bytes
  | .cloneUntouched _ _ => Except String CloneOutcome
  | .put _ _ => Except String Unit
  | .syncData => Except String Unit
  | .now => Nat
  | .captureState => Result Bytes

/-- Bit `k` of a dirty bitmap of 64-bit words. -/
def wordBit (words : List UInt64) (k : Nat) : Bool := (words.getD (k / 64) 0).toNat.testBit (k % 64)

/-- `DirtyBitmap::mark_range`. -/
@[irreducible] def markRange (dirty : DirtyBitmap) (gpa len : Nat) : DirtyBitmap :=
  if len = 0 then dirty
  else
    match checkedAdd gpa len with
    | none => dirty
    | some end_gpa =>
      dirty ∪ Finset.Ico (gpa / PAGE_SIZE) ((end_gpa + (PAGE_SIZE - 1)) / PAGE_SIZE)

theorem mem_markRange {dirty : DirtyBitmap} {gpa len p : Nat} (h : gpa + len < u64Size) :
    p ∈ markRange dirty gpa len ↔
      p ∈ dirty ∨ ∃ g, gpa ≤ g ∧ g < gpa + len ∧ p = g / PAGE_SIZE := by
  unfold markRange
  rw [checkedAdd_of_lt h]
  unfold PAGE_SIZE
  split
  · exact ⟨.inl, fun hp => hp.resolve_right fun ⟨g, _⟩ => by omega⟩
  simp only [Finset.mem_union, Finset.mem_Ico]
  refine or_congr_right ⟨fun hp => ⟨max gpa (p * 4096), ?_⟩, ?_⟩
  · omega
  · rintro ⟨g, hlo, hhi, rfl⟩
    omega

/-- Bytes of `m'.stage` come from the restore image, inside the range and outside
discarded pages, or are as in `m`. -/
def ClonedInto (m m' : Machine) (offset len : Nat) : Prop :=
  ∃ stage, m' = { m with stage := stage } ∧ ∀ i, stage i = m.stage i ∨
    (offset ≤ i ∧ i < offset + len ∧ i / PAGE_SIZE ∉ m.discarded ∧ stage i = m.image i)

/-- What a host call may answer and do. A call that fails leaves the machine as it was,
except where a comment says what it may have done already. -/
def exec (m : Machine) : (o : Op) → Res o → Machine → Prop
  | .setLen len, .ok _, m' => m' = { m with stage := fun i => if i < len then m.stage i else 0 }
  | .setLen _, .error _, m' => m' = m
  -- A vCPU thread finishes its device access, and so its marks, before it parks.
  | .pauseAll, .ok _, m' => (∀ n, m.unmarked (.vcpu n) = ∅) ∧ m' = { m with vcpusParked := true }
  | .pauseAll, .error _, m' => m' = m
  | .resumeVcpus, .ok _, m' => m' = { m with vcpusParked := false }
  -- The threads may have left their park without confirming it.
  | .resumeVcpus, .error _, m' => ∃ parked, m' = { m with vcpusParked := parked && m.vcpusParked }
  -- A worker parks between requests: nothing it wrote is unmarked.
  | .quiesceIo true, .ok _, m' => (∀ n, m.unmarked (.worker n) = ∅) ∧
      m' = { m with ioParked := true, cut := some m.view }
  | .quiesceIo true, .error _, m' => m' = m
  | .quiesceIo false, .ok _, m' => m' = { m with ioParked := false }
  | .quiesceIo false, .error _, m' => ∃ parked, m' = { m with ioParked := parked && m.ioParked }
  | .enableDirtyLogging, .ok _, m' => m' = { m with logging := true }
  | .enableDirtyLogging, .error _, m' => m' = m
  -- An exact get-and-clear of one slot.
  | .getDirtyLog slot, .ok words, m' => (∀ k, wordBit words k = true ↔ k ∈ m.log slot) ∧
      m' = { m with log := update m.log slot ∅ }
  | .getDirtyLog _, .error _, m' => m' = m
  | .drainHostDirty, dirty, m' => dirty = m.host ∧ m' = { m with host := ∅ }
  | .markHostDirty offset len, _, m' => m' = { m with host := markRange m.host offset len }
  | .newGuard, _, m' => m' = { m with consumed := ∅ }
  | .consume dirty, _, m' => m' = { m with consumed := m.consumed ∪ dirty }
  | .disarm, dirty, m' => dirty = m.consumed ∧ m' = { m with consumed := ∅ }
  | .openPagemap, _, m' => m' = m
  | .pagemapEntry page, populated, m' => populated = m.present page ∧ m' = m
  | .load offset, byte, m' => byte = m.view offset ∧ m' = m
  | .readUntouched offset len, .ok bytes, m' =>
      bytes = (List.range len).map (fun j => m.origin (offset + j)) ∧ m' = m
  | .readUntouched _ _, .error _, m' => m' = m
  -- A chunk the manifest records as zero stays the hole it is; other bytes are shared.
  | .cloneUntouched offset len, .ok .Cloned, m' => ClonedInto m m' offset len ∧
      ∀ i, offset ≤ i → i < offset + len → i / PAGE_SIZE ∉ m.discarded ∧
        (m'.stage i = m.image i ∨ m.image i = 0 ∧ m'.stage i = m.stage i)
  -- Earlier runs of the range may have been shared already.
  | .cloneUntouched offset len, .ok .NotThisRange, m' => ClonedInto m m' offset len
  | .cloneUntouched offset len, .ok .Unsupported, m' => ClonedInto m m' offset len
  | .cloneUntouched offset len, .error _, m' => ClonedInto m m' offset len
  | .put offset byte, .ok _, m' => m' = { m with stage := update m.stage offset byte }
  | .put _ _, .error _, m' => m' = m
  | .syncData, _, m' => m' = m
  | .now, _, m' => m' = m
  | .captureState, _, m' => m' = m

/-- The snapshot thread among everything else. -/
def world (L : Layout) : World Machine Op Res where
  env := Env L
  exec o m r m' := exec m o r m'

/-- The snapshot thread where discards may fail. -/
def failingWorld (L : Layout) : World Machine Op Res where
  env := FailingEnv L
  exec o m r m' := exec m o r m'

/-- Guest RAM with its dirty trackers. -/
def tracking (L : Layout) : Tracking Machine Nat Nat UInt8 where
  view := Machine.view
  block i := i / PAGE_SIZE
  recorded := Recorded L

/-! ## What the environment keeps -/

namespace Machine

variable {L : Layout} {m : Machine}

@[simp] theorem view_fault (p : Nat) : (m.fault p).view = m.view := by
  funext i
  by_cases hp : i / PAGE_SIZE = p
  · simp [view, fault, hp]
  · simp only [view, fault, update_of_ne hp, if_neg hp]
    rfl

@[simp] theorem view_store (i : Nat) (v : UInt8) : (m.store i v).view = update m.view i v := by
  funext j
  by_cases hj : j = i
  · subst hj
    simp [view, store, fault]
  · have hview : (m.store i v).view j = (m.fault (i / PAGE_SIZE)).view j := by
      simp only [view, store, update_of_ne hj]
      rfl
    rw [hview, view_fault, update_of_ne hj]

@[simp] theorem view_logged (p : Nat) : (m.logged L p).view = m.view := by
  unfold logged
  split <;> rfl

theorem view_dropPage {p i : Nat} (hp : i / PAGE_SIZE ≠ p) : (m.dropPage p).view i = m.view i := by
  simp only [view, dropPage, update_of_ne hp]
  rfl

theorem view_discard (w : Writer) {p i : Nat} (hp : i / PAGE_SIZE ≠ p) :
    (m.discard w p).view i = m.view i := by
  simp [view, discard, owes, origin, hp]

end Machine

section Trackers

variable {L : Layout} {m m' : Machine} {p q : Nat}

theorem Recorded.logged (h : Recorded L m q) : Recorded L (m.logged L p) q := by
  unfold Machine.logged
  split
  · refine h.imp id fun h => h.imp id fun h => ?_
    by_cases hs : (L.slotBit q).1 = (L.slotBit p).1
    · simp only [hs, update_self]
      exact Finset.mem_insert_of_mem (hs ▸ h)
    · simpa [update_of_ne hs] using h
  · exact h

theorem recorded_logged (hlog : m.logging = true) : Recorded L (m.logged L p) p := by
  refine .inr (.inr ?_)
  simp [Machine.logged, hlog]

theorem Recorded.owes (w : Writer) (h : Recorded L m q) : Recorded L (m.owes w p) q := by
  refine h.imp id fun h => h.imp (fun h => ?_) id
  obtain ⟨x, hx⟩ := h
  refine ⟨x, ?_⟩
  by_cases hw : x = w
  · subst hw
    simp [Machine.owes, hx]
  · simpa [Machine.owes, update_of_ne hw] using hx

theorem recorded_owes (w : Writer) : Recorded L (m.owes w p) p :=
  .inr (.inl ⟨w, by simp [Machine.owes]⟩)

theorem Recorded.mark (w : Writer) (h : Recorded L m q) : Recorded L (m.mark w p) q := by
  by_cases hq : q = p
  · subst hq
    exact .inl (Finset.mem_insert_self _ _)
  refine h.imp (fun h => Finset.mem_insert_of_mem h) fun h => h.imp (fun h => ?_) id
  obtain ⟨x, hx⟩ := h
  refine ⟨x, ?_⟩
  by_cases hw : x = w
  · subst hw
    simp [Machine.mark, hx, hq]
  · simpa [Machine.mark, update_of_ne hw] using hx

/-- Whatever changes a page records it, once KVM logs guest writes. -/
theorem Env.honest (h : Env L m m') (hlog : m.logging = true) : (tracking L).Honest m m' := by
  cases h with
  | guestWrite i v hi hrun =>
    have hlog' : (m.store i v).logging = true := hlog
    refine ⟨fun q hq => .logged hq, fun j => ?_⟩
    by_cases hj : j / PAGE_SIZE = i / PAGE_SIZE
    · right
      change Recorded L _ (j / PAGE_SIZE)
      rw [hj]
      exact recorded_logged hlog'
    · left
      have hne : j ≠ i := fun h => hj (by rw [h])
      simp [tracking, Machine.guestWrite, update_of_ne hne]
  | deviceWrite w i v hi hrun =>
    refine ⟨fun q hq => .owes w hq, fun j => ?_⟩
    by_cases hj : j / PAGE_SIZE = i / PAGE_SIZE
    · right
      change Recorded L _ (j / PAGE_SIZE)
      rw [hj]
      exact recorded_owes w
    · left
      have hne : j ≠ i := fun h => hj (by rw [h])
      have hview : (m.deviceWrite w i v).view = (m.store i v).view := rfl
      simp [tracking, hview, update_of_ne hne]
  | mark w p hrun => exact ⟨fun q hq => hq.mark w, fun _ => .inl rfl⟩
  | discard w p hrun =>
    refine ⟨fun q hq => .owes w hq, fun j => ?_⟩
    by_cases hp : j / PAGE_SIZE = p
    · right
      change Recorded L _ (j / PAGE_SIZE)
      rw [hp]
      exact recorded_owes (m := m) w
    · exact .inl (Machine.view_discard w hp)
  | dropPage w p hrun howed hbit =>
    refine ⟨fun q hq => hq, fun j => ?_⟩
    by_cases hp : j / PAGE_SIZE = p
    · right
      change Recorded L _ (j / PAGE_SIZE)
      rw [hp]
      exact .inr (.inl ⟨w, howed⟩)
    · exact .inl (Machine.view_dropPage hp)
  | fault p =>
    refine ⟨fun q hq => hq, fun j => .inl ?_⟩
    simp [tracking]

/-- What the environment never touches. -/
structure Env.Frame (m m' : Machine) : Prop where
  stage : m'.stage = m.stage
  consumed : m'.consumed = m.consumed
  cut : m'.cut = m.cut
  logging : m'.logging = m.logging
  vcpusParked : m'.vcpusParked = m.vcpusParked
  ioParked : m'.ioParked = m.ioParked
  image : m'.image = m.image

theorem Env.frame (h : Env L m m') : Env.Frame m m' := by
  cases h with
  | guestWrite i v hi hrun =>
    simp only [Machine.guestWrite, Machine.logged]
    split <;> exact ⟨rfl, rfl, rfl, rfl, rfl, rfl, rfl⟩
  | _ => exact ⟨rfl, rfl, rfl, rfl, rfl, rfl, rfl⟩

/-- With every writer parked only missing pages are filled in. -/
theorem Env.of_parked (h : Env L m m') (hv : m.vcpusParked = true) (hio : m.ioParked = true) :
    ∃ p, m' = m.fault p := by
  have hparked : ∀ w, m.parked w = true := by
    intro w
    cases w <;> assumption
  cases h with
  | guestWrite i v hi hrun => simp [hv] at hrun
  | deviceWrite w i v hi hrun | mark w p hrun | discard w p hrun | dropPage w p hrun howed hbit =>
    simp [hparked w] at hrun
  | fault p => exact ⟨p, rfl⟩

theorem Env.unmarked_parked (h : Env L m m') {w : Writer} (hw : m.parked w = true)
    (he : m.unmarked w = ∅) : m'.unmarked w = ∅ := by
  have hne : ∀ x, m.parked x = false → w ≠ x := by
    rintro x hx rfl
    simp [hw] at hx
  cases h with
  | guestWrite i v hi hrun =>
    simp only [Machine.guestWrite, Machine.logged]
    split <;> exact he
  | deviceWrite x i v hi hrun =>
    simp only [Machine.deviceWrite, Machine.owes, update_of_ne (hne x hrun)]
    exact he
  | mark x p hrun => simpa [Machine.mark, update_of_ne (hne x hrun)] using he
  | discard x p hrun =>
    simpa [Machine.discard, Machine.owes, update_of_ne (hne x hrun)] using he
  | dropPage x p hrun howed hbit => exact he
  | fault p => exact he

end Trackers

end Tarit.Live
