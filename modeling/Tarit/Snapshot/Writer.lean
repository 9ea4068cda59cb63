import Tarit.Lib.SparseFile
import Tarit.Snapshot.Reader

/-!
# Writing a full snapshot

Memory goes first, its zero pages left as holes, then the header that carries its
checksum. Whatever order the bytes reach the file in, the result is `fullImage`: the
header, the state padded to a page boundary and the RAM image.
-/
namespace Tarit.Snapshot

open Lib List

structure SnapshotWriteLayout where
  state_len : Nat
  padding : Nat
  state_crc : Nat
  flags : Nat
  mem_len : Nat
  mem_offset : Nat
  deriving DecidableEq

section Write

variable {Hasher : Type} (crc : Crc32 Hasher)

def SnapshotWriteLayout.new (state_blob : Bytes) (mem_len : Nat) (diff : Bool) :
    Result SnapshotWriteLayout := do
  let state_len ← okOr (pageAlignedStateLen state_blob.length)
    (.snapshot "snapshot memory offset overflow")
  let padding := state_len - state_blob.length
  let state_hasher := crc.update (crc.update crc.new state_blob) (replicate padding 0)
  return { state_len, padding, state_crc := (crc.finalize state_hasher).toNat
           flags := if diff then 1 else 0, mem_len
           mem_offset := FULL_SNAPSHOT_HEADER_LEN + state_len }

/-- The 28 header bytes behind the magic. -/
def SnapshotWriteLayout.fields (layout : SnapshotWriteLayout) (mem_crc : Nat) : Bytes :=
  toLeBytes 2 SNAPSHOT_VERSION ++ (toLeBytes 2 layout.flags ++
    (toLeBytes 8 layout.state_len ++ (toLeBytes 4 layout.state_crc ++
      (toLeBytes 8 layout.mem_len ++ toLeBytes 4 mem_crc))))

/-- The header and the padded state, as `finish` lays them out. -/
def SnapshotWriteLayout.header (layout : SnapshotWriteLayout) (state_blob : Bytes)
    (mem_crc : Nat) : Bytes :=
  FULL_MAGIC ++ (layout.fields mem_crc ++ (state_blob ++ replicate layout.padding 0))

def recordRamVerified (file : File) (offset len crc : Nat) : File :=
  { file with ram_verified := some (ramVerifiedKey file offset len crc) }

/-- Write the header and state in front of memory already in place, fix the length and
record the verified checksum. -/
def SnapshotWriteLayout.finish (layout : SnapshotWriteLayout) (file : File) (state_blob : Bytes)
    (mem_crc : Nat) : File :=
  let bytes := writeAt file.bytes 0 (layout.header state_blob mem_crc)
  let bytes := setLen bytes (layout.mem_offset + layout.mem_len)
  recordRamVerified { file with bytes } layout.mem_offset layout.mem_len mem_crc

/-- `runs[k]` of `combine_zero_pages`: the hash of `2 ^ k` zero pages. -/
def zeroRun : Nat → Hasher
  | 0 => crc.update crc.new (replicate 4096 0)
  | k + 1 => crc.combine (zeroRun k) (zeroRun k)

def RUN_BITS : Nat := 36

/-- The loop over what does not fit the table: `2 ^ 35` pages at a time. -/
def combineHugeRuns : Nat → Hasher → Nat → Hasher × Nat
  | 0, hasher, remaining => (hasher, remaining)
  | fuel + 1, hasher, remaining =>
    if remaining / 2 ^ RUN_BITS ≠ 0 then
      combineHugeRuns fuel (crc.combine hasher (zeroRun crc (RUN_BITS - 1)))
        (remaining - 2 ^ (RUN_BITS - 1))
    else (hasher, remaining)

/-- The loop over the bits of the rest, highest first. -/
def combineBits : Nat → Hasher → Nat → Hasher
  | 0, hasher, _ => hasher
  | bit + 1, hasher, remaining =>
    combineBits bit (if remaining.testBit bit then crc.combine hasher (zeroRun crc bit) else hasher)
      remaining

/-- Extend a hasher by `pages` zero pages. -/
def combineZeroPages (hasher : Hasher) (pages : Nat) : Hasher :=
  if pages = 0 then hasher
  else
    let (hasher, remaining) := combineHugeRuns crc pages hasher pages
    combineBits crc RUN_BITS hasher remaining

def isZero (page : Bytes) : Bool := page.all (· = 0)

/-- A page that is skipped: flagged as never populated, or all zero. -/
def pageIsZero (populated : Option (List Bool)) (index : Nat) (page : Bytes) : Bool :=
  (page.length == 4096 && populated.any fun flags => flags[index]? == some false) || isZero page

/-- The checksum over one more page; whole zero pages are only counted. -/
def hashPage (zero : Bool) (page : Bytes) (s : Hasher × Nat) : Hasher × Nat :=
  if zero && page.length == 4096 then (s.1, s.2 + 1)
  else (crc.update (combineZeroPages crc s.1 s.2) page, 0)

/-- Loop state of `write_sparse_at_with_crc`: the file and the start of the pending run,
the checksum and the zero pages not yet folded into it, and the position. -/
structure SparseWrite (Hasher : Type) where
  placed : Bytes × Option Nat
  hashed : Hasher × Nat
  start : Nat
  index : Nat

def SparseWrite.step (offset : Nat) (data : Bytes) (populated : Option (List Bool))
    (s : SparseWrite Hasher) (page : Bytes) : SparseWrite Hasher :=
  let zero := pageIsZero populated s.index page
  { hashed := hashPage crc zero page s.hashed
    placed := placePiece offset data zero s.start s.placed
    start := s.start + page.length
    index := s.index + 1 }

/-- `write_sparse_at_with_crc`: the file's new bytes and the checksum of `data`. -/
def writeSparseAtWithCrc (out : Bytes) (offset : Nat) (data : Bytes)
    (populated : Option (List Bool)) : Bytes × UInt32 :=
  let s := (chunks 4096 data).foldl (SparseWrite.step crc offset data populated)
    { placed := (out, none), hashed := (crc.new, 0), start := 0, index := 0 }
  let hasher := combineZeroPages crc s.hashed.1 s.hashed.2
  (flushRun offset data s.placed.1 s.placed.2 data.length, crc.finalize hasher)

def writeSnapshotToFile (file : File) (state_blob mem_dump : Bytes)
    (populated : Option (List Bool)) (diff : Bool) : Result File := do
  let layout ← SnapshotWriteLayout.new crc state_blob mem_dump.length diff
  let (out, mem_crc) := writeSparseAtWithCrc crc (setLen file.bytes 0) layout.mem_offset mem_dump
    populated
  return layout.finish { file with bytes := out } state_blob mem_crc.toNat

/-- The bytes of a full snapshot: header, padded state, RAM. -/
def fullImage (layout : SnapshotWriteLayout) (state_blob mem : Bytes) : Bytes :=
  layout.header state_blob (crc.hash mem).toNat ++ mem

end Write

variable {Hasher : Type} {crc : Crc32 Hasher} {state_blob : Bytes} {diff : Bool}
  {layout : SnapshotWriteLayout}

section Layout

theorem pageAlignedStateLen_eq_some {state_len n : Nat}
    (h : pageAlignedStateLen state_len = some n) :
    state_len ≤ n ∧ n < state_len + 4096 ∧ (FULL_SNAPSHOT_HEADER_LEN + n) % 4096 = 0 ∧
      FULL_SNAPSHOT_HEADER_LEN + n < u64Size := by
  simp only [pageAlignedStateLen, Option.bind_eq_bind, Option.bind_eq_some_iff, checkedAdd_eq_some,
    Option.some.injEq, FULL_SNAPSHOT_HEADER_LEN] at h ⊢
  obtain ⟨_, ⟨_, rfl⟩, _, ⟨hlt, rfl⟩, rfl⟩ := h
  omega

/-- Every state blob a 64-bit length can carry in front of a page has a layout. -/
theorem pageAlignedStateLen_isSome {state_len : Nat} (h : state_len + 8192 < u64Size) :
    ∃ n, pageAlignedStateLen state_len = some n := by
  refine ⟨(FULL_SNAPSHOT_HEADER_LEN + state_len + (4096 - 1)) / 4096 * 4096 -
    FULL_SNAPSHOT_HEADER_LEN, ?_⟩
  simp only [pageAlignedStateLen, FULL_SNAPSHOT_HEADER_LEN]
  rw [checkedAdd_of_lt (by omega)]
  simp only [Option.bind_eq_bind, Option.bind_some]
  rw [checkedAdd_of_lt (by omega)]
  rfl

/-- Header fields that describe a padded state and the RAM behind it. -/
structure LayoutOf (crc : Crc32 Hasher) (state_blob : Bytes) (mem_len : Nat) (diff : Bool)
    (layout : SnapshotWriteLayout) : Prop where
  state_len : layout.state_len = state_blob.length + layout.padding
  state_crc : layout.state_crc = (crc.hash (state_blob ++ replicate layout.padding 0)).toNat
  flags : layout.flags = if diff then 1 else 0
  mem_len : layout.mem_len = mem_len
  mem_offset : layout.mem_offset = FULL_SNAPSHOT_HEADER_LEN + layout.state_len
  fits : layout.mem_offset < u64Size

variable {mem_len : Nat}

theorem layoutOf_of_new (h : SnapshotWriteLayout.new crc state_blob mem_len diff = .ok layout) :
    LayoutOf crc state_blob mem_len diff layout := by
  simp only [SnapshotWriteLayout.new, bind_eq_ok, okOr_eq_ok, pure_eq_ok, Except.ok.injEq] at h
  obtain ⟨n, hn, rfl⟩ := h
  obtain ⟨hle, _, _, hfit⟩ := pageAlignedStateLen_eq_some hn
  have hfed := crc.update_fed (crc.update_fed crc.new_fed state_blob)
    (replicate (n - state_blob.length) 0)
  refine ⟨?_, ?_, rfl, rfl, rfl, hfit⟩
  · dsimp only
    omega
  · rw [crc.finalize_fed hfed, nil_append]

/-- The writer pads by less than a page, and RAM starts on one. -/
theorem page_of_new (h : SnapshotWriteLayout.new crc state_blob mem_len diff = .ok layout) :
    layout.padding < 4096 ∧ layout.mem_offset % 4096 = 0 := by
  simp only [SnapshotWriteLayout.new, bind_eq_ok, okOr_eq_ok, pure_eq_ok, Except.ok.injEq] at h
  obtain ⟨n, hn, rfl⟩ := h
  obtain ⟨hle, hlt, hpage, _⟩ := pageAlignedStateLen_eq_some hn
  exact ⟨by dsimp only; omega, hpage⟩

theorem header_length (h : LayoutOf crc state_blob mem_len diff layout) (mem_crc : Nat) :
    (layout.header state_blob mem_crc).length = layout.mem_offset := by
  have hs := h.state_len
  simp only [SnapshotWriteLayout.header, SnapshotWriteLayout.fields, length_append,
    toLeBytes_length, length_replicate, h.mem_offset, FULL_SNAPSHOT_HEADER_LEN, FULL_MAGIC,
    length_cons, length_nil]
  omega

/-- With the RAM image in place behind `mem_offset`, `finish` completes the file. -/
theorem finish_bytes {mem : Bytes} (h : LayoutOf crc state_blob mem.length diff layout)
    {file : File} {mem_crc : Nat}
    (hfile : ∀ i < mem.length, peek file.bytes (layout.mem_offset + i) = peek mem i) :
    (layout.finish file state_blob mem_crc).bytes = layout.header state_blob mem_crc ++ mem := by
  have hlen := header_length h mem_crc
  have hmem := h.mem_len
  apply eq_of_peek
  · simp only [SnapshotWriteLayout.finish, recordRamVerified, setLen_length, length_append]
    omega
  · intro i hi
    simp only [SnapshotWriteLayout.finish, recordRamVerified, setLen_length] at hi ⊢
    rw [peek_setLen, if_pos hi, peek_writeAt, peek_append, hlen]
    by_cases hin : i < layout.mem_offset
    · rw [if_pos ⟨Nat.zero_le _, by omega⟩, if_pos hin, Nat.sub_zero]
    rw [if_neg (by omega), if_neg hin, ← hfile (i - layout.mem_offset) (by omega)]
    congr 1
    omega

end Layout

theorem zeroRun_fed (k : Nat) : crc.Fed (zeroRun crc k) (replicate (2 ^ k * 4096) 0) := by
  induction k with
  | zero =>
    have h := crc.update_fed crc.new_fed (replicate 4096 0)
    rwa [nil_append] at h
  | succ k ih =>
    have h := crc.combine_fed ih ih
    rwa [← replicate_add, ← add_mul, ← Nat.two_mul, ← Nat.pow_succ'] at h

variable {hasher : Hasher} {a page data : Bytes} {populated : Option (List Bool)}

theorem combineHugeRuns_fed (fuel : Nat) {remaining : Nat} (hf : remaining ≤ fuel)
    (h : crc.Fed hasher a) :
    ∃ done, crc.Fed (combineHugeRuns crc fuel hasher remaining).1
        (a ++ replicate (done * 4096) 0) ∧
      remaining = done + (combineHugeRuns crc fuel hasher remaining).2 ∧
      (combineHugeRuns crc fuel hasher remaining).2 < 2 ^ RUN_BITS := by
  induction fuel generalizing hasher a remaining with
  | zero =>
    have hz : remaining = 0 := by omega
    refine ⟨0, by simpa [combineHugeRuns] using h, by simp [combineHugeRuns], ?_⟩
    simp [combineHugeRuns, hz]
  | succ fuel ih =>
    rw [combineHugeRuns]
    by_cases hbig : remaining / 2 ^ RUN_BITS ≠ 0
    swap
    · rw [if_neg hbig]
      have hdiv : remaining / 2 ^ RUN_BITS = 0 := by simpa using hbig
      refine ⟨0, by simpa using h, by simp, ?_⟩
      exact (Nat.div_eq_zero_iff_lt (by decide)).mp hdiv
    rw [if_pos hbig]
    have hge : 2 ^ RUN_BITS ≤ remaining := by
      by_contra hlt
      exact hbig (Nat.div_eq_of_lt (by omega))
    have hhalf : 2 ^ RUN_BITS = 2 ^ (RUN_BITS - 1) + 2 ^ (RUN_BITS - 1) := by decide
    have hpos : 0 < 2 ^ (RUN_BITS - 1) := by decide
    obtain ⟨done, hfed, hsum, hlt⟩ :=
      ih (by omega : remaining - 2 ^ (RUN_BITS - 1) ≤ fuel)
        (crc.combine_fed h (zeroRun_fed (RUN_BITS - 1)))
    refine ⟨2 ^ (RUN_BITS - 1) + done, ?_, by omega, hlt⟩
    rwa [add_mul, replicate_add, ← append_assoc]

theorem combineBits_fed (bit : Nat) (remaining : Nat) (h : crc.Fed hasher a) :
    crc.Fed (combineBits crc bit hasher remaining)
      (a ++ replicate (remaining % 2 ^ bit * 4096) 0) := by
  induction bit generalizing hasher a with
  | zero => simpa [combineBits, Nat.mod_one] using h
  | succ bit ih =>
    rw [combineBits, Nat.mod_pow_succ, ← Nat.toNat_testBit]
    cases hb : remaining.testBit bit with
    | false =>
      rw [if_neg (by simp)]
      simpa using ih h
    | true =>
      rw [if_pos rfl, Bool.toNat_true, mul_one]
      have h' := ih (crc.combine_fed h (zeroRun_fed bit))
      rwa [append_assoc, ← replicate_add, ← add_mul, add_comm (2 ^ bit)] at h'

/-- Folding zero pages in from the table is hashing them. -/
theorem combineZeroPages_fed (pages : Nat) (h : crc.Fed hasher a) :
    crc.Fed (combineZeroPages crc hasher pages) (a ++ replicate (pages * 4096) 0) := by
  unfold combineZeroPages
  split
  · rename_i hz
    simpa [hz] using h
  obtain ⟨done, hfed, hsum, hlt⟩ := combineHugeRuns_fed pages (le_refl pages) h
  have hbits := combineBits_fed RUN_BITS (combineHugeRuns crc pages hasher pages).2 hfed
  rw [Nat.mod_eq_of_lt hlt, append_assoc, ← replicate_add, ← add_mul, ← hsum]
    at hbits
  exact hbits

theorem peek_of_isZero (h : isZero page = true) (i : Nat) : peek page i = 0 := by
  rw [peek_eq_getElem?]
  cases hg : page[i]? with
  | none => rfl
  | some b =>
    have hb := all_eq_true.mp h b (mem_of_getElem? hg)
    simpa using hb

theorem eq_replicate_of_peek (h : ∀ i < page.length, peek page i = 0) :
    page = replicate page.length 0 := by
  apply eq_of_peek
  · simp
  · intro i hi
    rw [h i hi, peek_replicate_zero]

/-- Pages flagged unpopulated hold zeros. -/
def Unpopulated (data : Bytes) (populated : Option (List Bool)) : Prop :=
  ∀ flags, populated = some flags → ∀ k : Nat, flags[k]? = some false →
    ∀ i, k * 4096 ≤ i → i < (k + 1) * 4096 → peek data i = 0

/-- Page `k` of the data, the last one possibly short. -/
def pageOf (data : Bytes) (k : Nat) : Bytes := slice data (k * 4096) 4096

/-- Elements the sparse writer writes: those of pages it does not skip. -/
def sparseKeep (data : Bytes) (populated : Option (List Bool)) (i : Nat) : Bool :=
  !pageIsZero populated (i / 4096) (pageOf data (i / 4096))

theorem peek_of_isZero_pageOf {k i : Nat} (h : isZero (pageOf data k) = true) (hlo : k * 4096 ≤ i)
    (hhi : i < (k + 1) * 4096) : peek data i = 0 := by
  have hp := peek_of_isZero h (i - k * 4096)
  rw [pageOf, peek_slice, if_pos (by omega)] at hp
  rwa [Nat.add_sub_of_le hlo] at hp

theorem peek_of_pageIsZero (hz : Unpopulated data populated) {k : Nat}
    (h : pageIsZero populated k (pageOf data k) = true) {i : Nat} (hlo : k * 4096 ≤ i)
    (hhi : i < (k + 1) * 4096) : peek data i = 0 := by
  unfold pageIsZero at h
  rw [Bool.or_eq_true, Bool.and_eq_true] at h
  rcases h with ⟨_, hu⟩ | hall
  · cases populated with
    | none => simp at hu
    | some flags => exact hz flags rfl k (by simpa using hu) i hlo hhi
  · exact peek_of_isZero_pageOf hall hlo hhi

/-- The checksum state stands for the data read so far. -/
def HashedTo (crc : Crc32 Hasher) (s : Hasher × Nat) (done : Bytes) : Prop :=
  ∃ a, crc.Fed s.1 a ∧ a ++ replicate (s.2 * 4096) 0 = done

theorem hashPage_hashedTo {s : Hasher × Nat} {done : Bytes} {zero : Bool}
    (h : HashedTo crc s done) (hz : zero = true → ∀ i < page.length, peek page i = 0) :
    HashedTo crc (hashPage crc zero page s) (done ++ page) := by
  obtain ⟨a, hfed, ha⟩ := h
  unfold hashPage
  by_cases hc : (zero && page.length == 4096) = true
  · rw [if_pos hc]
    rw [Bool.and_eq_true] at hc
    have hw : page.length = 4096 := by simpa using hc.2
    have hrep := eq_replicate_of_peek (hz hc.1)
    rw [hw] at hrep
    refine ⟨a, hfed, ?_⟩
    rw [hrep, add_mul, one_mul, replicate_add, ← append_assoc, ha]
  · rw [if_neg hc]
    have hup := crc.update_fed (combineZeroPages_fed s.2 hfed) page
    rw [ha] at hup
    exact ⟨done ++ page, hup, by simp⟩

/-- The loop over the rest of the data, from page `index` on. -/
theorem sparseLoop_spec {offset : Nat} {out : Bytes} (hz : Unpopulated data populated) (fuel : Nat)
    {done rest : Bytes} {s : SparseWrite Hasher} (hf : rest.length ≤ fuel)
    (hd : data = done ++ rest) (hstart : s.start = done.length)
    (hindex : rest ≠ [] → s.start = s.index * 4096) (hhash : HashedTo crc s.hashed done)
    (hrun : RunInv offset data out (sparseKeep data populated) s.start s.placed) :
    ∃ t, (chunksFrom 4096 fuel rest).foldl (SparseWrite.step crc offset data populated) s = t ∧
      t.start = data.length ∧ HashedTo crc t.hashed data ∧
      RunInv offset data out (sparseKeep data populated) data.length t.placed := by
  have hdone : rest = [] → s.start = data.length ∧ HashedTo crc s.hashed data ∧
      RunInv offset data out (sparseKeep data populated) data.length s.placed := by
    rintro rfl
    rw [append_nil] at hd
    subst hd
    rw [← hstart]
    exact ⟨rfl, hhash, hrun⟩
  induction fuel generalizing done rest s with
  | zero => exact ⟨s, rfl, hdone (eq_nil_of_length_eq_zero (Nat.le_zero.mp hf))⟩
  | succ fuel ih =>
    cases hr : rest with
    | nil => exact ⟨s, rfl, hdone hr⟩
    | cons b tail =>
      rw [← hr]
      have hne : rest ≠ [] := by rw [hr]; simp
      have hchunks : chunksFrom 4096 (fuel + 1) rest =
          rest.take 4096 :: chunksFrom 4096 fuel (rest.drop 4096) := by rw [hr]; rfl
      have hidx := hindex hne
      have hlen : data.length = done.length + rest.length := by rw [hd, length_append]
      have htake : (rest.take 4096).length = min 4096 rest.length := length_take
      have hpage : rest.take 4096 = pageOf data s.index := by
        rw [pageOf, ← hidx, hstart, hd, slice, drop_left]
      have hzero : pageIsZero populated s.index (rest.take 4096) = true →
          ∀ i < (rest.take 4096).length, peek (rest.take 4096) i = 0 := by
        intro hv i hi
        rw [hpage] at hv
        have hp := peek_of_pageIsZero hz hv (i := s.index * 4096 + i) (by omega) (by omega)
        rw [hpage, pageOf, peek_slice, if_pos (by omega)]
        exact hp
      have hkeep : ∀ i, s.start ≤ i → i < s.start + (rest.take 4096).length →
          sparseKeep data populated i = !pageIsZero populated s.index (rest.take 4096) := by
        intro i hlo hhi
        have hk : i / 4096 = s.index := by omega
        rw [sparseKeep, hk, hpage]
      rw [hchunks, foldl_cons]
      have hnext : data = (done ++ rest.take 4096) ++ rest.drop 4096 := by
        rw [append_assoc, take_append_drop, ← hd]
      refine ih (by rw [length_drop]; omega) hnext ?_ ?_ (hashPage_hashedTo hhash hzero)
        (hrun.place (by omega) hkeep) ?_
      · simp only [SparseWrite.step, length_append, hstart]
      · intro hmore
        have hlong : 4096 < rest.length := by
          by_contra hle
          exact hmore (drop_eq_nil_of_le (by omega))
        simp only [SparseWrite.step]
        omega
      · intro hlast
        rw [hlast, append_nil] at hnext
        have hfin := hashPage_hashedTo hhash hzero
        have hplace := hrun.place (by omega) hkeep
        rw [← hnext] at hfin
        have hall : s.start + (rest.take 4096).length = data.length := by
          rw [hstart, ← length_append, ← hnext]
        rw [hall] at hplace
        exact ⟨hall, hfin, hplace⟩

/-- The sparse pass writes `data` over zeros behind `offset` and hashes all of it. -/
theorem writeSparseAtWithCrc_spec (hz : Unpopulated data populated) (out : Bytes) (offset : Nat)
    (hout : ∀ i < data.length, peek out (offset + i) = 0) :
    (∀ i < data.length,
      peek (writeSparseAtWithCrc crc out offset data populated).1 (offset + i) = peek data i) ∧
      (writeSparseAtWithCrc crc out offset data populated).2 = crc.hash data := by
  obtain ⟨t, ht, _, ⟨a, hfed, ha⟩, hrun⟩ :=
    sparseLoop_spec (s := { placed := (out, none), hashed := (crc.new, 0), start := 0, index := 0 })
      hz data.length (le_refl _) (nil_append data).symm rfl
      (fun _ => (zero_mul 4096).symm)
      ⟨[], crc.new_fed, by simp⟩
      (.init out _ : RunInv offset data out (sparseKeep data populated) 0 (out, none))
  simp only [writeSparseAtWithCrc, chunks, ht]
  constructor
  · intro i hi
    rw [hrun.flush (le_refl _)]
    have hsub : offset + i - offset = i := by omega
    rw [hsub]
    by_cases hk : sparseKeep data populated i = true
    · rw [if_pos ⟨by omega, by omega, hk⟩]
    have hzero : pageIsZero populated (i / 4096) (pageOf data (i / 4096)) = true := by
      simpa [sparseKeep] using hk
    have hp : peek data i = 0 := peek_of_pageIsZero hz hzero (by omega) (by omega)
    rw [if_neg (by simp [hk]), hp, hout i hi]
  · have hall := combineZeroPages_fed t.hashed.2 hfed
    rw [ha] at hall
    exact crc.finalize_fed hall

/-- Pages that are fed to the hasher one by one. -/
theorem feedZeroPages_fed (pages : Nat) (h : crc.Fed hasher a) :
    crc.Fed ((crc.update · (replicate 4096 0))^[pages] hasher)
      (a ++ replicate (pages * 4096) 0) := by
  induction pages with
  | zero => rwa [zero_mul, replicate_zero, append_nil]
  | succ pages ih =>
    rw [Function.iterate_succ_apply', Nat.succ_mul, replicate_add, ← append_assoc]
    exact crc.update_fed ih _

/-- A region that reads as zeros reads as `data` after the sparse pass over it, whose checksum is
that of all of `data`. The loop over huge runs of zero pages ends by its own test, and folding
`pages` of them in is feeding them to the hasher. -/
theorem sparse_pass_writes_and_hashes (hz : Unpopulated data populated) (out : Bytes) (offset : Nat)
    (hout : ∀ i < data.length, peek out (offset + i) = 0) (pages : Nat) (hfed : crc.Fed hasher a) :
    window (writeSparseAtWithCrc crc out offset data populated).1 offset data.length = data ∧
      (writeSparseAtWithCrc crc out offset data populated).2 = crc.hash data ∧
      (combineHugeRuns crc pages hasher pages).2 / 2 ^ RUN_BITS = 0 ∧
      (∃ fed, crc.Fed (combineZeroPages crc hasher pages) fed ∧
        crc.Fed ((crc.update · (replicate 4096 0))^[pages] hasher) fed) ∧
      crc.finalize (combineZeroPages crc hasher pages) =
        crc.finalize ((crc.update · (replicate 4096 0))^[pages] hasher) := by
  obtain ⟨hbytes, hcrc⟩ := writeSparseAtWithCrc_spec hz out offset hout
  obtain ⟨_, -, -, hlt⟩ := combineHugeRuns_fed pages (le_refl pages) hfed
  have hfolded := combineZeroPages_fed pages hfed
  have hdirect := feedZeroPages_fed pages hfed
  refine ⟨?_, hcrc, Nat.div_eq_of_lt hlt, ⟨_, hfolded, hdirect⟩, ?_⟩
  · apply eq_of_peek
    · exact window_length _ _ _
    · intro i hi
      rw [window_length] at hi
      rw [peek_window, if_pos hi, hbytes i hi]
  · rw [crc.finalize_fed hfolded, crc.finalize_fed hdirect]

def zerosThenTwo : Bytes := replicate 8192 0 ++ [7, 0]

/-- A zero page flagged unpopulated, another one flagged populated and two bytes, written behind the
byte of a file, and three zero pages folded in. -/
theorem two_bytes_over_zeros :
    let written := writeSparseAtWithCrc Crc32.ieee [9] 1 zerosThenTwo (some [false, true, true])
    window written.1 1 zerosThenTwo.length = zerosThenTwo ∧
      written.2 = Crc32.ieee.hash zerosThenTwo ∧
      Crc32.ieee.finalize (combineZeroPages Crc32.ieee [9] 3) =
        Crc32.ieee.finalize ((Crc32.ieee.update · (replicate 4096 0))^[3] [9]) := by
  have hfirst (k : Nat) (hk : [false, true, true][k]? = some false) : k = 0 := by
    match k with
    | 0 => rfl
    | 1 | 2 | _ + 3 => cases hk
  have hz : Unpopulated zerosThenTwo (some [false, true, true]) := by
    rintro _ ⟨⟩ k hk i hlo hhi
    cases hfirst k hk
    have hi : i < (replicate 8192 (0 : UInt8)).length := by
      rw [length_replicate]
      omega
    rw [zerosThenTwo, peek_append, if_pos hi, peek_replicate_zero]
  have hfed : Crc32.ieee.Fed [9] [9] := rfl
  obtain ⟨hwritten, hcrc, -, -, hfolded⟩ := sparse_pass_writes_and_hashes hz [9] 1
    (fun i _ => peek_of_ge (Nat.le_add_right 1 i)) 3 hfed
  exact ⟨hwritten, hcrc, hfolded⟩

theorem writeSnapshotToFile_bytes {file f : File} {mem_dump : Bytes}
    (hz : Unpopulated mem_dump populated)
    (hl : SnapshotWriteLayout.new crc state_blob mem_dump.length diff = .ok layout)
    (h : writeSnapshotToFile crc file state_blob mem_dump populated diff = .ok f) :
    f.bytes = fullImage crc layout state_blob mem_dump := by
  have hnil : setLen file.bytes 0 = [] := by simp [setLen]
  obtain ⟨hout, hcrc⟩ := writeSparseAtWithCrc_spec hz [] layout.mem_offset
    fun _ _ => peek_of_ge (Nat.zero_le _)
  simp only [writeSnapshotToFile, hl, ok_bind, hnil, pure_eq_ok, Except.ok.injEq] at h
  subst h
  rw [finish_bytes (layoutOf_of_new hl) hout, hcrc]
  rfl

theorem unpopulated_none : Unpopulated data none := by
  simp [Unpopulated]

/-- The plain writer succeeds on every state whose padded length fits 64 bits. -/
theorem writeSnapshotToFile_isOk (crc : Crc32 Hasher) (file : File)
    (state_blob mem_dump : Bytes) (populated : Option (List Bool)) (diff : Bool)
    (hs : state_blob.length + 8192 < u64Size) :
    ∃ f layout, writeSnapshotToFile crc file state_blob mem_dump populated diff = .ok f ∧
      SnapshotWriteLayout.new crc state_blob mem_dump.length diff = .ok layout ∧
      f.regular = file.regular := by
  obtain ⟨n, hn⟩ := pageAlignedStateLen_isSome hs
  cases hl : SnapshotWriteLayout.new crc state_blob mem_dump.length diff with
  | error e =>
    simp only [SnapshotWriteLayout.new, hn, okOr_some, ok_bind, pure_eq_ok] at hl
    cases hl
  | ok layout =>
    simp only [writeSnapshotToFile, hl, ok_bind, pure_eq_ok]
    exact ⟨_, layout, rfl, rfl, rfl⟩

end Tarit.Snapshot
