import Tarit.Snapshot.DirtyRuns
import Tarit.Snapshot.Writer

/-!
# Writing a diff, and what the reader makes of the bytes

The page-aligned writer lays out the head, the run table and the pages of each run. The
lemmas follow the reader over bytes laid out this way, field by field: a field written
in `n` bytes is read back, and each of the reader's limits is a limit on what was
written.
-/
namespace Tarit.Snapshot

open Lib
open List (length_append map_cons flatMap_cons length_cons length_nil)

/-- The bytes of one run; a partial final page is zero filled. -/
def runData (mem : Bytes) (r : Nat × Nat) : Bytes :=
  let full_end := r.1 + r.2 * DIFF_PAGE_BYTES
  let stop := min full_end mem.length
  slice mem r.1 (stop - r.1) ++ List.replicate (full_end - stop) 0

/-- The run table: eight bytes of offset and four of page count for each run. -/
def runIndex (runs : List (Nat × Nat)) : Bytes :=
  runs.flatMap fun r => toLeBytes 8 r.1 ++ toLeBytes 4 r.2

section Write

variable {Hasher : Type} (crc : Crc32 Hasher)

/-- Version, parent path and state blob, behind the magic of either diff layout. -/
def diffHead (parent : String) (state_blob rest : Bytes) : Bytes :=
  toLeBytes 2 SNAPSHOT_VERSION ++ (toLeBytes 4 (asBytes parent).length ++ (asBytes parent ++
    (toLeBytes 8 state_blob.length ++ (toLeBytes 4 (crc.hash state_blob).toNat ++
      (state_blob ++ rest)))))

/-- Everything of an aligned diff in front of the zero fill and the page data. -/
def alignedHeader (parent : String) (state_blob : Bytes) (runs : List (Nat × Nat))
    (data_crc : Nat) (rest : Bytes) : Bytes :=
  ALIGNED_DIFF_MAGIC ++ diffHead crc parent state_blob (toLeBytes 4 runs.length ++
    (toLeBytes 4 (crc.hash (runIndex runs)).toNat ++ (runIndex runs ++
      (toLeBytes 4 data_crc ++ rest))))

/-- `write_diff_snapshot_to_file` into a fresh file: the file and the payload size. -/
def writeDiffSnapshotToFile (file : File) (parent : String) (state_blob mem : Bytes)
    (dirty : DirtyBitmap) : Result (File × Nat) := do
  let runs := dirtyPageRuns dirty mem.length
  let data_crc := crc.finalize (runs.foldl (fun hasher r => crc.update hasher (runData mem r))
    crc.new)
  let data_len := (runs.map fun r => min (r.1 + r.2 * DIFF_PAGE_BYTES) mem.length - r.1).sum
  refuse (2 ^ 32 ≤ (asBytes parent).length) (.snapshot "parent path too long")
  refuse (2 ^ 64 ≤ state_blob.length) (.snapshot "state blob too large")
  refuse (2 ^ 32 ≤ runs.length) (.snapshot "too many diff runs")
  let header := alignedHeader crc parent state_blob runs data_crc.toNat []
  let header := header ++
    List.replicate (nextMultipleOf header.length DIFF_PAGE_BYTES - header.length) 0
  let bytes := header ++ runs.flatMap (runData mem)
  return (recordRamVerified { file with bytes } header.length
    (dataPages runs * DIFF_PAGE_BYTES) data_crc.toNat, data_len)

/-- The interleaved layout: address, length and bytes of each entry. -/
def diffPages (pages : List (Nat × Bytes)) : Bytes :=
  pages.flatMap fun p => toLeBytes 8 p.1 ++ (toLeBytes 4 p.2.length ++ p.2)

/-- The bytes of a `VMSD` diff with the given entries. -/
def legacyDiff (parent : String) (state_blob : Bytes) (pages : List (Nat × Bytes)) : Bytes :=
  DIFF_MAGIC ++ diffHead crc parent state_blob (toLeBytes 4 pages.length ++ diffPages pages)

end Write

variable {Hasher : Type} {crc : Crc32 Hasher} {host : Host}
  {path what kind root parent resolved : String} {state_blob rest : Bytes}
  {n pos file_len data_crc : Nat} {runs : List (Nat × Nat)}

theorem rd_append {a rest : Bytes} (h : a.length = n) :
    rd path what ⟨a ++ rest, pos⟩ n = .ok (a, ⟨rest, pos + n⟩) := by
  subst h
  simp [rd, Cursor.read]

theorem rdInt_append {rest : Bytes} {v : Nat} (h : v < 256 ^ n) :
    rdInt path what ⟨toLeBytes n v ++ rest, pos⟩ n = .ok (v, ⟨rest, pos + n⟩) := by
  rw [rdInt, rd_append (toLeBytes_length)]
  simp only [ok_bind, pure_eq_ok, fromLeBytes_toLeBytes h]

theorem ensureFileHasBytes_of_le {file_len offset len : Nat} (h : offset + len ≤ file_len)
    (hf : file_len < u64Size) : ensureFileHasBytes file_len offset len what path = .ok () := by
  rw [ensureFileHasBytes, checkedAdd_of_lt (by omega), okOr_some, ok_bind, refuse_of_not (by omega)]

theorem toNat_lt_crc (x : UInt32) : x.toNat < 256 ^ 4 := x.toNat_lt

theorem diffHead_length : (diffHead crc parent state_blob rest).length =
    18 + (asBytes parent).length + state_blob.length + rest.length := by
  simp only [diffHead, length_append, toLeBytes_length]
  omega

theorem readDiffHead_diffHead (hp : (asBytes parent).length ≤ MAX_DIFF_PARENT_PATH_BYTES)
    (hs : state_blob.length ≤ MAX_SNAPSHOT_STATE_BYTES)
    (hr : resolveSnapshotParent host parent root = .ok resolved)
    (hlen : pos + (diffHead crc parent state_blob rest).length = file_len)
    (hf : file_len < u64Size) :
    readDiffHead crc host kind file_len path root ⟨diffHead crc parent state_blob rest, pos⟩ =
      .ok ({ version := SNAPSHOT_VERSION, parent := resolved, state := state_blob },
        ⟨rest, pos + 18 + (asBytes parent).length + state_blob.length⟩) := by
  rw [diffHead_length] at hlen
  have hp4 : (asBytes parent).length < 256 ^ 4 := by
    simp only [MAX_DIFF_PARENT_PATH_BYTES] at hp
    omega
  have hs8 : state_blob.length < 256 ^ 8 := by
    simp only [MAX_SNAPSHOT_STATE_BYTES] at hs
    omega
  unfold readDiffHead diffHead
  rw [rdInt_append (by decide)]
  simp only [ok_bind]
  rw [refuse_of_not (by decide), ok_bind, rdInt_append hp4]
  simp only [ok_bind]
  rw [refuse_of_not (by omega), ok_bind, ensureFileHasBytes_of_le (by omega) hf,
    ok_bind, rd_append rfl]
  simp only [ok_bind]
  rw [fromUtf8_asBytes, okOr_some, ok_bind, hr, ok_bind, rdInt_append hs8]
  simp only [ok_bind]
  rw [refuse_of_not (by omega), ok_bind, rdInt_append (toNat_lt_crc _)]
  simp only [ok_bind]
  rw [ensureFileHasBytes_of_le (by omega) hf, ok_bind, rd_append rfl]
  simp only [ok_bind]
  rw [refuse_of_not (by simp), ok_bind]
  simp only [pure_eq_ok, Except.ok.injEq, Prod.mk.injEq, Cursor.mk.injEq, true_and]
  omega

theorem limits_of_readDiffHead {r : DiffHead × Cursor} (hp : (asBytes parent).length < 2 ^ 32)
    (hs : state_blob.length < 2 ^ 64)
    (h : readDiffHead crc host kind file_len path root ⟨diffHead crc parent state_blob rest, pos⟩ =
      .ok r) :
    (asBytes parent).length ≤ MAX_DIFF_PARENT_PATH_BYTES ∧
      state_blob.length ≤ MAX_SNAPSHOT_STATE_BYTES := by
  unfold readDiffHead diffHead at h
  rw [rdInt_append (by decide)] at h
  simp only [ok_bind] at h
  rw [refuse_of_not (by decide), ok_bind, rdInt_append (by simpa using hp)] at h
  simp only [ok_bind, bind_eq_ok, refuse_eq_ok] at h
  obtain ⟨_, hple, _, _, _, hpath, h⟩ := h
  rw [rd_append rfl] at hpath
  cases hpath
  obtain ⟨_, _, _, _, _, hslen, h⟩ := h
  rw [rdInt_append (by simpa using hs)] at hslen
  cases hslen
  exact ⟨by omega, by omega⟩

section Runs

variable {mem : Bytes} {dirty : DirtyBitmap} {r : Nat × Nat}

theorem runData_length {r : Nat × Nat} (h : r.1 ≤ mem.length) :
    (runData mem r).length = r.2 * DIFF_PAGE_BYTES := by
  simp only [runData, length_append, List.length_replicate]
  rw [slice_length (by omega)]
  omega

theorem peek_runData {r : Nat × Nat} (h : r.1 ≤ mem.length) (i : Nat) :
    peek (runData mem r) i =
      if i < r.2 * DIFF_PAGE_BYTES then peek mem (r.1 + i) else 0 := by
  have hsl : (slice mem r.1 (min (r.1 + r.2 * DIFF_PAGE_BYTES) mem.length - r.1)).length =
      min (r.1 + r.2 * DIFF_PAGE_BYTES) mem.length - r.1 := slice_length (by omega)
  simp only [runData, peek_append, hsl, peek_slice, peek_replicate_zero]
  by_cases hin : i < min (r.1 + r.2 * DIFF_PAGE_BYTES) mem.length - r.1
  · rw [if_pos hin, if_pos hin, if_pos (by omega)]
  rw [if_neg hin]
  split
  · exact (peek_of_ge (by omega)).symm
  · rfl

theorem readRuns_entries {runs : List (Nat × Nat)} {previous_end : Nat}
    (h : RunsOk previous_end runs) :
    readRuns path (runs.map fun r => toLeBytes 8 r.1 ++ toLeBytes 4 r.2) previous_end =
      .ok runs := by
  induction runs generalizing previous_end with
  | nil => rfl
  | cons r runs ih =>
    obtain ⟨hal, hpos, hmax⟩ := h.page r (by simp)
    obtain ⟨hprev, hend⟩ := h.inside r (by simp)
    have hbound : MAX_MEMORY_BYTES < u64Size := by decide
    have hrun : MAX_DIFF_RUN_PAGES < 256 ^ 4 := by decide
    have h8 : u64Size = 256 ^ 8 := by decide
    rw [map_cons, readRuns, List.take_left' toLeBytes_length, List.drop_left' toLeBytes_length,
      fromLeBytes_toLeBytes (by omega : r.1 < 256 ^ 8),
      fromLeBytes_toLeBytes (by omega : r.2 < 256 ^ 4),
      checkedMul_of_lt (by omega), Option.bind_some, checkedAdd_of_lt (by omega),
      okOr_some, ok_bind, refuse_of_not (by omega), ok_bind, ih h.tail, ok_bind, pure_eq_ok]

theorem runIndex_length : (runIndex runs).length = runs.length * DIFF_RUN_ENTRY_BYTES := by
  induction runs with
  | nil => rfl
  | cons r runs ih =>
    rw [runIndex, flatMap_cons, ← runIndex, length_append, ih]
    simp only [length_append, toLeBytes_length, length_cons, DIFF_RUN_ENTRY_BYTES]
    omega

theorem chunks_runIndex :
    chunks DIFF_RUN_ENTRY_BYTES (runIndex runs) =
      runs.map fun r => toLeBytes 8 r.1 ++ toLeBytes 4 r.2 :=
  chunks_flatMap (by decide) runs (fun r _ => by simp [DIFF_RUN_ENTRY_BYTES])

variable {mem_len : Nat}

theorem dirtyPageRuns_inside (hp : mem_len % DIFF_PAGE_BYTES = 0) (hu : mem_len < u64Size) :
    ∀ r ∈ dirtyPageRuns dirty mem_len, r.1 + r.2 * DIFF_PAGE_BYTES ≤ mem_len := by
  intro r hr
  obtain ⟨hal, hpos, _⟩ := dirtyPageRuns_shape hu r hr
  have hlast := (mem_dirtyPageRuns hu dirty (p := r.1 / DIFF_PAGE_BYTES + (r.2 - 1))).mp
    ⟨r, hr, by omega, by omega⟩
  simp only [DIFF_PAGE_BYTES] at *
  omega

/-- For RAM of whole pages the writer's runs pass every check on a run table. -/
theorem dirtyPageRuns_ok (dirty : DirtyBitmap) (hp : mem_len % DIFF_PAGE_BYTES = 0)
    (hm : mem_len ≤ MAX_MEMORY_BYTES) : RunsOk 0 (dirtyPageRuns dirty mem_len) := by
  have hu : mem_len < u64Size := lt_of_le_of_lt hm (by decide)
  refine ⟨dirtyPageRuns_shape hu, fun r hr => ⟨Nat.zero_le _, ?_⟩, dirtyPageRuns_apart hu⟩
  exact le_trans (dirtyPageRuns_inside hp hu r hr) hm

theorem dirtyPageRuns_le (dirty : DirtyBitmap) (hu : mem_len < u64Size) :
    ∀ r ∈ dirtyPageRuns dirty mem_len, r.1 ≤ mem_len := by
  intro r hr
  obtain ⟨hal, hpos, _⟩ := dirtyPageRuns_shape hu r hr
  have hfirst := (mem_dirtyPageRuns hu dirty).mp ⟨r, hr, le_refl _, by omega⟩
  simp only [DIFF_PAGE_BYTES] at *
  omega

theorem runsData_length {runs : List (Nat × Nat)} (h : ∀ r ∈ runs, r.1 ≤ mem.length) :
    (runs.flatMap (runData mem)).length = dataPages runs * DIFF_PAGE_BYTES := by
  induction runs with
  | nil => simp [dataPages]
  | cons r runs ih =>
    rw [flatMap_cons, length_append, runData_length (h r (by simp)),
      ih (fun q hq => h q (by simp [hq]))]
    simp only [dataPages, map_cons, List.sum_cons, add_mul]

theorem foldl_update_fed {Hasher : Type} {crc : Crc32 Hasher} (mem : Bytes)
    (runs : List (Nat × Nat)) {hasher : Hasher} {a : Bytes} (h : crc.Fed hasher a) :
    crc.Fed (runs.foldl (fun hasher r => crc.update hasher (runData mem r)) hasher)
      (a ++ runs.flatMap (runData mem)) := by
  induction runs generalizing hasher a with
  | nil => simpa using h
  | cons r runs ih =>
    rw [List.foldl_cons, flatMap_cons, ← List.append_assoc]
    exact ih (crc.update_fed h _)

end Runs

theorem alignedHeader_append :
    alignedHeader crc parent state_blob runs data_crc [] ++ rest =
      alignedHeader crc parent state_blob runs data_crc rest := by
  simp [alignedHeader, diffHead]

theorem alignedHeader_length :
    (alignedHeader crc parent state_blob runs data_crc rest).length =
      34 + (asBytes parent).length + state_blob.length + runs.length * DIFF_RUN_ENTRY_BYTES +
        rest.length := by
  simp only [alignedHeader, length_append, diffHead_length, toLeBytes_length, runIndex_length,
    ALIGNED_DIFF_MAGIC, length_cons, length_nil]
  omega

theorem alignedFile_drop {file : File}
    (hfile : file.bytes = alignedHeader crc parent state_blob runs data_crc rest) :
    file.bytes.drop 4 = diffHead crc parent state_blob (toLeBytes 4 runs.length ++
      (toLeBytes 4 (crc.hash (runIndex runs)).toNat ++ (runIndex runs ++
        (toLeBytes 4 data_crc ++ rest)))) ∧ 4 + (file.bytes.drop 4).length = file.len := by
  constructor
  · rw [hfile, alignedHeader]
    rfl
  · rw [List.length_drop, File.len, hfile, alignedHeader_length]
    omega

/-- Zero fill up to the page boundary the data starts on. -/
def alignFill (n : Nat) : Bytes := List.replicate (nextMultipleOf n DIFF_PAGE_BYTES - n) 0

theorem le_nextMultipleOf (n : Nat) : n ≤ nextMultipleOf n DIFF_PAGE_BYTES := by
  unfold nextMultipleOf DIFF_PAGE_BYTES
  omega

theorem nextMultipleOf_lt (n : Nat) : nextMultipleOf n DIFF_PAGE_BYTES < n + DIFF_PAGE_BYTES := by
  unfold nextMultipleOf DIFF_PAGE_BYTES
  omega

/-- The data area of an aligned diff: its pages, from the first page boundary on. -/
theorem slice_alignedHeader_data {body : Bytes}
    (hn : n = (alignedHeader crc parent state_blob runs data_crc []).length) :
    slice (alignedHeader crc parent state_blob runs data_crc (alignFill n ++ body))
      (nextMultipleOf n DIFF_PAGE_BYTES) body.length = body := by
  have hle := le_nextMultipleOf n
  have hlen : (alignedHeader crc parent state_blob runs data_crc [] ++ alignFill n).length =
      nextMultipleOf n DIFF_PAGE_BYTES := by
    rw [length_append, ← hn, alignFill, List.length_replicate]
    omega
  have hmid := slice_mid (b := body) (c := []) hlen rfl
  rw [List.append_nil] at hmid
  rw [← alignedHeader_append, ← List.append_assoc]
  exact hmid

/-- The reader over an aligned diff whose pages are `body`: within the limits the file is
accepted and hands on the run table over the data area. -/
theorem readAlignedDiff_alignedHeader (path : String) (hm : host.Maps)
    (hp : (asBytes parent).length ≤ MAX_DIFF_PARENT_PATH_BYTES)
    (hs : state_blob.length ≤ MAX_SNAPSHOT_STATE_BYTES) (hc : runs.length ≤ MAX_DIFF_PAGES)
    (hr : resolveSnapshotParent host parent root = .ok resolved) (hruns : RunsOk 0 runs)
    {body : Bytes} (hbody : body.length = dataPages runs * DIFF_PAGE_BYTES)
    (hcrc : data_crc = (crc.hash body).toNat) {file : File}
    (hn : n = (alignedHeader crc parent state_blob runs data_crc []).length) (hfile : file.bytes =
      alignedHeader crc parent state_blob runs data_crc (alignFill n ++ body)) :
    readAlignedDiff crc host file path root ⟨file.bytes.drop 4, 4⟩ =
      .ok (.alignedDiff resolved state_blob SNAPSHOT_VERSION file
        (nextMultipleOf n DIFF_PAGE_BYTES) runs) := by
  have hfill : (alignFill n).length = nextMultipleOf n DIFF_PAGE_BYTES - n := by simp [alignFill]
  have hle := le_nextMultipleOf n
  have hnlt := nextMultipleOf_lt n
  have hdata := hruns.dataPages_le (Nat.zero_le _)
  obtain ⟨hdrop, hlen⟩ := alignedFile_drop hfile
  have hcount : runs.length < 256 ^ 4 := by
    simp only [MAX_DIFF_PAGES] at hc
    omega
  have hcrc4 : data_crc < 256 ^ 4 := by
    rw [hcrc]
    exact toNat_lt_crc _
  have hdata_at : slice file.bytes (nextMultipleOf n DIFF_PAGE_BYTES)
      (dataPages runs * DIFF_PAGE_BYTES) = body := by
    rw [hfile, ← hbody]
    exact slice_alignedHeader_data hn
  rw [alignedHeader_length, length_nil, add_zero] at hn
  have hflen : file.len = nextMultipleOf n DIFF_PAGE_BYTES + dataPages runs * DIFF_PAGE_BYTES := by
    rw [File.len, hfile, alignedHeader_length, length_append, hfill, hbody]
    omega
  have hu : file.len < 2 ^ 63 := by
    rw [hflen]
    simp only [MAX_DIFF_PARENT_PATH_BYTES, MAX_SNAPSHOT_STATE_BYTES, MAX_DIFF_PAGES,
      DIFF_RUN_ENTRY_BYTES, MAX_MEMORY_BYTES, MAX_MEMORY_MIB, MIB, DIFF_PAGE_BYTES] at *
    omega
  have hu64 : file.len < u64Size := by
    simp only [u64Size]
    omega
  unfold readAlignedDiff
  rw [hdrop] at hlen ⊢
  rw [readDiffHead_diffHead hp hs hr hlen hu64]
  simp only [ok_bind]
  rw [rdInt_append hcount]
  simp only [ok_bind]
  rw [refuse_of_not (by omega), ok_bind, rdInt_append (toNat_lt_crc _)]
  simp only [ok_bind]
  rw [ensureFileHasBytes_of_le (by omega) hu64, ok_bind, rd_append (runIndex_length)]
  simp only [ok_bind]
  rw [refuse_of_not (by simp), ok_bind, rdInt_append hcrc4]
  simp only [ok_bind]
  have hpos : 4 + 18 + (asBytes parent).length + state_blob.length + 4 + 4 +
      runs.length * DIFF_RUN_ENTRY_BYTES + 4 = n := by omega
  rw [chunks_runIndex, readRuns_entries hruns, ok_bind, hpos, checkedAdd_of_lt (by omega),
    refuse_of_not (by simp [hflen]), ok_bind,
    verifyRamCrcOnce_of_hash hm (by dsimp only; omega) (by dsimp only; omega)
      (by dsimp only; rw [hdata_at, hcrc])]
  rfl

section Interleaved

variable {pages : List (Nat × Bytes)}

def payloadBytes (pages : List (Nat × Bytes)) : Nat := (pages.map fun p => p.2.length).sum

/-- Entries an interleaved diff may hold: a mebibyte each at most, inside the largest
guest, and together within the eager payload budget. -/
structure EntriesOk (pages : List (Nat × Bytes)) : Prop where
  count : pages.length ≤ MAX_DIFF_PAGES
  entry : ∀ p ∈ pages, p.2.length ≤ MAX_DIFF_PAGE_BYTES ∧ p.1 + p.2.length ≤ MAX_MEMORY_BYTES
  budget : payloadBytes pages ≤ MAX_EAGER_DIFF_BYTES

theorem diffPages_length (pages : List (Nat × Bytes)) :
    (diffPages pages).length = pages.length * 12 + payloadBytes pages := by
  induction pages with
  | nil => rfl
  | cons p pages ih =>
    rw [diffPages, flatMap_cons, ← diffPages, length_append, ih]
    simp only [length_append, toLeBytes_length, length_cons, payloadBytes, map_cons,
      List.sum_cons]
    omega

theorem validateDiffPayloadBudget_of_le {total len : Nat} (h : total + len ≤ MAX_EAGER_DIFF_BYTES) :
    validateDiffPayloadBudget total len = .ok (total + len) := by
  have hmax : MAX_EAGER_DIFF_BYTES < u64Size := by decide
  rw [validateDiffPayloadBudget, checkedAdd_of_lt (by omega), okOr_some, ok_bind,
    refuse_of_not (by omega)]
  rfl

theorem readDiffPages_diffPages {file_len total : Nat}
    (he : ∀ p ∈ pages, p.2.length ≤ MAX_DIFF_PAGE_BYTES ∧ p.1 + p.2.length ≤ MAX_MEMORY_BYTES)
    (hb : total + payloadBytes pages ≤ MAX_EAGER_DIFF_BYTES)
    (hlen : pos + (diffPages pages).length = file_len) (hf : file_len < u64Size) :
    readDiffPages file_len path pages.length ⟨diffPages pages, pos⟩ total =
      .ok (pages, ⟨[], file_len⟩) := by
  induction pages generalizing pos total with
  | nil =>
    have hpos : pos = file_len := hlen
    rw [length_nil, readDiffPages, hpos]
    rfl
  | cons p pages ih =>
    obtain ⟨hpage, hmem⟩ := he p (by simp)
    have hmax : MAX_MEMORY_BYTES < u64Size := by decide
    have hu : u64Size = 256 ^ 8 := by decide
    have hm4 : MAX_DIFF_PAGE_BYTES < 256 ^ 4 := by decide
    have hcons : diffPages (p :: pages) =
        toLeBytes 8 p.1 ++ (toLeBytes 4 p.2.length ++ (p.2 ++ diffPages pages)) := by
      simp [diffPages]
    have hsum : payloadBytes (p :: pages) = p.2.length + payloadBytes pages := rfl
    have hrest : pos + 8 + 4 + p.2.length + (diffPages pages).length = file_len := by
      rw [hcons] at hlen
      simp only [length_append, toLeBytes_length] at hlen
      omega
    rw [length_cons, readDiffPages, hcons, rdInt_append (by omega)]
    simp only [ok_bind]
    rw [rdInt_append (by omega)]
    simp only [ok_bind]
    rw [refuse_of_not (by omega), ok_bind, ensureFileHasBytes_of_le (by omega) hf, ok_bind,
      checkedAdd_of_lt (by omega), okOr_some, ok_bind, refuse_of_not (by omega), ok_bind,
      validateDiffPayloadBudget_of_le (by omega), ok_bind, rd_append rfl]
    simp only [ok_bind]
    rw [ih (fun q hq => he q (by simp [hq])) (by omega) hrest]
    rfl

theorem readDiff_legacyDiff (path : String)
    (hp : (asBytes parent).length ≤ MAX_DIFF_PARENT_PATH_BYTES)
    (hs : state_blob.length ≤ MAX_SNAPSHOT_STATE_BYTES) (he : EntriesOk pages)
    (hr : resolveSnapshotParent host parent root = .ok resolved) {file : File}
    (hfile : file.bytes = legacyDiff crc parent state_blob pages) :
    readDiff crc host file path root ⟨file.bytes.drop 4, 4⟩ =
      .ok (.diff resolved state_blob SNAPSHOT_VERSION pages) := by
  have hcount := he.count
  have hbudget := he.budget
  have hdl := diffPages_length pages
  have hdrop : file.bytes.drop 4 =
      diffHead crc parent state_blob (toLeBytes 4 pages.length ++ diffPages pages) := by
    rw [hfile, legacyDiff]
    rfl
  have hflen : file.len = 4 + 18 + (asBytes parent).length + state_blob.length + 4 +
      (diffPages pages).length := by
    rw [File.len, hfile, legacyDiff, length_append, diffHead_length, length_append,
      toLeBytes_length]
    simp only [DIFF_MAGIC, length_cons, length_nil]
    omega
  have hu : file.len < u64Size := by
    simp only [MAX_DIFF_PARENT_PATH_BYTES, MAX_SNAPSHOT_STATE_BYTES, MAX_DIFF_PAGES,
      MAX_EAGER_DIFF_BYTES, u64Size] at *
    omega
  have hn4 : pages.length < 256 ^ 4 := by
    simp only [MAX_DIFF_PAGES] at hcount
    omega
  have hmul : checkedMul pages.length 12 = some (pages.length * 12) := by
    apply checkedMul_of_lt
    omega
  unfold readDiff
  rw [hdrop, readDiffHead_diffHead hp hs hr ?_ hu]
  · simp only [ok_bind]
    rw [rdInt_append hn4]
    simp only [ok_bind]
    rw [refuse_of_not (by omega), ok_bind, hmul, okOr_some, ok_bind,
      ensureFileHasBytes_of_le (by omega) hu, ok_bind,
      readDiffPages_diffPages he.entry (by omega) hflen.symm hu]
    simp only [ok_bind]
    rw [refuse_of_not (by simp), ok_bind]
    rfl
  · rw [← hdrop, List.length_drop]
    unfold File.len at *
    omega

end Interleaved

end Tarit.Snapshot
