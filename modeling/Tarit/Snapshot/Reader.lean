import Tarit.Snapshot.GuestMemory

/-!
# Reading one snapshot file

`readSnapshotWith` recognises the three containers by their magic. A full image is
copied into fresh RAM or mapped; the two diff layouts give their parent, their state
and their pages. An accepted aligned diff has its data area at the end of the file and
a run table that is sorted, page aligned and inside the largest guest.
-/
namespace Tarit.Snapshot

open Lib List

inductive RamLoad where
  /-- Read every byte into fresh anonymous memory. -/
  | copy
  /-- Map the page-aligned image privately. -/
  | map
  deriving DecidableEq

inductive SnapshotContent where
  | full (mem : GuestMemory) (state : Bytes) (version : Nat)
  | diff (parent : String) (state : Bytes) (version : Nat) (pages : List (Nat × Bytes))
  | alignedDiff (parent : String) (state : Bytes) (version : Nat) (file : File)
      (data_offset : Nat) (runs : List (Nat × Nat))

section Read

variable {Hasher : Type} (crc : Crc32 Hasher) (host : Host)

/-- `read_exact` of `n` bytes, reported under `what`. -/
def rd (path what : String) (c : Cursor) (n : Nat) : Result (Bytes × Cursor) :=
  okOr (c.read n) (.snapshot s!"{what} in {path}: failed to fill whole buffer")

def rdInt (path what : String) (c : Cursor) (n : Nat) : Result (Nat × Cursor) := do
  let (bytes, c) ← rd path what c n
  return (fromLeBytes bytes, c)

/-- The loop of `crc32_file_range`: 64 KiB at a time. -/
def crc32FileLoop (path what : String) : Nat → Cursor → Nat → Hasher → Result Hasher
  | 0, _, _, hasher => .ok hasher
  | fuel + 1, c, remaining, hasher =>
    if remaining = 0 then .ok hasher
    else do
      let want := min remaining (64 * 1024)
      let (buf, c) ← rd path s!"read {what}" c want
      crc32FileLoop path what fuel c (remaining - want) (crc.update hasher buf)

def crc32FileRange (file : File) (path : String) (offset len : Nat) (what : String) :
    Result UInt32 := do
  let hasher ← crc32FileLoop crc path what len (.seek file.bytes offset) len crc.new
  return crc.finalize hasher

/-- Identity of one version of a file's RAM or page data, as recorded in the attribute. -/
def ramVerifiedKey (file : File) (offset len crc : Nat) : String :=
  let digits := Nat.toDigits 16 crc
  let crc8 := String.ofList (List.replicate (8 - digits.length) '0' ++ digits)
  s!"v1:{file.dev}:{file.ino}:{file.len}:{file.mtime}.{file.mtime_nsec}:{offset}:{len}:{crc8}"

/-- CRC of a file range through a read-only mapping that starts on the page below it. -/
def crc32MappedRange (file : File) (path : String) (offset len : Nat) : Result UInt32 := do
  if len = 0 then return crc.hash []
  let map_offset := offset / 4096 * 4096
  let delta := offset - map_offset
  refuse (2 ^ 63 ≤ map_offset) (.snapshot "snapshot offset too large")
  let _ ← mapErr (host.mmap file map_offset (len + delta))
    (fun e => .snapshot s!"map {path} for CRC: {e}")
  return crc.hash (slice (slice file.bytes map_offset (len + delta)) delta len)

/-- Check a RAM or page-data CRC unless the file records that this version matched. -/
def verifyRamCrcOnce (file : File) (path : String) (layout : FullSnapshotLayout)
    (expected_crc : Nat) : Result Unit := do
  let key := ramVerifiedKey file layout.mem_offset layout.mem_len expected_crc
  -- The attribute is read into 160 bytes; a longer one is not returned.
  if file.ram_verified = some key ∧ key.utf8ByteSize ≤ 160 then return
  let actual ← crc32MappedRange crc host file path layout.mem_offset layout.mem_len
  refuse (actual.toNat ≠ expected_crc)
    (.snapshot
      s!"memory CRC mismatch in {path}: got {hexCrc actual.toNat}, expected {hexCrc expected_crc}")

/-- The `VMSN` branch, behind the magic. -/
def readFull (file : File) (path : String) (ram_load : RamLoad) (c : Cursor) :
    Result SnapshotContent := do
  let (hdr, _) ← rd path "read header" c FULL_SNAPSHOT_REST_HEADER_LEN
  let header ← parseFullSnapshotHeader hdr file.len path
  let layout := header.layout
  let (state, _) ← rd path "read state" (.seek file.bytes layout.state_offset) layout.state_len
  let actual_state_crc := (crc.hash state).toNat
  refuse (actual_state_crc ≠ header.state_crc)
    (.snapshot
      s!"state CRC mismatch in {path}: got {hexCrc actual_state_crc}, expected {hexCrc header.state_crc}")
  match ram_load with
  | .map =>
    refuse (layout.mem_offset % 4096 ≠ 0) (.snapshot s!"RAM image in {path} is not page aligned")
    verifyRamCrcOnce crc host file path layout header.mem_crc
    let mem ← GuestMemory.new layout.mem_len
    let mem ← mapFilePrivate host mem file layout.mem_offset
    return .full mem state header.version
  | .copy =>
    let actual_mem_crc ← crc32FileRange crc file path layout.mem_offset layout.mem_len "mem"
    refuse (actual_mem_crc.toNat ≠ header.mem_crc)
      (.snapshot
        s!"memory CRC mismatch in {path}: got {hexCrc actual_mem_crc.toNat}, expected {hexCrc header.mem_crc}")
    let mem ← GuestMemory.new layout.mem_len
    let (bytes, _) ← rd path "read mem" (.seek file.bytes layout.mem_offset) layout.mem_len
    return .full { mem with bytes := bytes } state header.version

structure DiffHead where
  version : Nat
  parent : String
  state : Bytes

/-- What the two diff layouts start with: version, parent path and state blob. -/
def readDiffHead (kind : String) (file_len : Nat) (path snapshot_root : String) (c : Cursor) :
    Result (DiffHead × Cursor) := do
  let (version, c) ← rdInt path "read version" c 2
  refuse (¬ (version = LEGACY_SNAPSHOT_VERSION ∨ version = SNAPSHOT_VERSION))
    (.snapshot s!"unsupported {kind} version {version} in {path}")
  let (parent_len, c) ← rdInt path "read parent_len" c 4
  refuse (parent_len > MAX_DIFF_PARENT_PATH_BYTES) (.snapshot "parent path too long")
  ensureFileHasBytes file_len c.pos parent_len "parent path" path
  let (pbuf, c) ← rd path "read parent" c parent_len
  let parent ← okOr (fromUtf8 pbuf) (.snapshot s!"parent path is not UTF-8 in {path}")
  let parent ← resolveSnapshotParent host parent snapshot_root
  let (state_len, c) ← rdInt path "read state_len" c 8
  refuse (state_len > MAX_SNAPSHOT_STATE_BYTES)
    (.snapshot s!"state blob too large in {path}: {state_len} bytes")
  let (state_crc, c) ← rdInt path "read state_crc" c 4
  ensureFileHasBytes file_len c.pos state_len "state blob" path
  let (state, c) ← rd path "read state" c state_len
  let actual_state_crc := (crc.hash state).toNat
  refuse (actual_state_crc ≠ state_crc)
    (.snapshot
      s!"state CRC mismatch in {path}: got {hexCrc actual_state_crc}, expected {hexCrc state_crc}")
  return ({ version, parent, state }, c)

/-- The page loop of a `VMSD` diff: `n` entries of address, length and bytes. -/
def readDiffPages (file_len : Nat) (path : String) :
    Nat → Cursor → Nat → Result (List (Nat × Bytes) × Cursor)
  | 0, c, _ => .ok ([], c)
  | n + 1, c, total => do
    let (gpa, c) ← rdInt path "read page gpa" c 8
    let (len, c) ← rdInt path "read page len" c 4
    refuse (len > MAX_DIFF_PAGE_BYTES) (.snapshot "diff page too large")
    ensureFileHasBytes file_len c.pos len "diff page bytes" path
    let stop ← okOr (checkedAdd gpa len) (.snapshot "diff page GPA overflow")
    refuse (stop > MAX_MEMORY_BYTES)
      (.snapshot s!"diff page outside maximum guest memory in {path}: end={stop}")
    let total ← validateDiffPayloadBudget total len
    let (bytes, c) ← rd path "read page bytes" c len
    let (pages, c) ← readDiffPages file_len path n c total
    return ((gpa, bytes) :: pages, c)

/-- The `VMSD` branch, behind the magic. -/
def readDiff (file : File) (path snapshot_root : String) (c : Cursor) :
    Result SnapshotContent := do
  let (head, c) ← readDiffHead crc host "VMSD" file.len path snapshot_root c
  let (n_pages, c) ← rdInt path "read n_pages" c 4
  refuse (n_pages > MAX_DIFF_PAGES) (.snapshot s!"too many diff pages in {path}: {n_pages}")
  let min_page_headers ← okOr (checkedMul n_pages 12) (.snapshot "diff page header length overflow")
  ensureFileHasBytes file.len c.pos min_page_headers "diff page headers" path
  let (pages, c) ← readDiffPages file.len path n_pages c 0
  refuse (c.pos ≠ file.len)
    (.snapshot s!"diff snapshot has trailing data: parsed {c.pos} of {file.len} bytes")
  return .diff head.parent head.state head.version pages

/-- The run-table loop of a `VMSA` diff over its 12-byte entries. -/
def readRuns (path : String) : List Bytes → Nat → Result (List (Nat × Nat))
  | [], _ => .ok []
  | entry :: entries, previous_end => do
    let offset := fromLeBytes (entry.take 8)
    let pages := fromLeBytes (entry.drop 8)
    let stop ← okOr ((checkedMul pages DIFF_PAGE_BYTES).bind (checkedAdd offset))
      (.snapshot "diff run overflow")
    refuse (pages = 0 ∨ pages > MAX_DIFF_RUN_PAGES ∨ offset % DIFF_PAGE_BYTES ≠ 0 ∨
        offset < previous_end ∨ stop > MAX_MEMORY_BYTES)
      (.snapshot s!"invalid diff run 0x{hex offset}+{pages} pages in {path}")
    let runs ← readRuns path entries stop
    return (offset, pages) :: runs

def dataPages (runs : List (Nat × Nat)) : Nat := (runs.map Prod.snd).sum

/-- The `VMSA` branch, behind the magic. -/
def readAlignedDiff (file : File) (path snapshot_root : String) (c : Cursor) :
    Result SnapshotContent := do
  let (head, c) ← readDiffHead crc host "VMSA" file.len path snapshot_root c
  let (run_count, c) ← rdInt path "read run count" c 4
  refuse (run_count > MAX_DIFF_PAGES) (.snapshot s!"too many diff runs in {path}: {run_count}")
  let (index_crc, c) ← rdInt path "read index_crc" c 4
  let index_len := run_count * DIFF_RUN_ENTRY_BYTES
  ensureFileHasBytes file.len c.pos index_len "run index" path
  let (index, c) ← rd path "read run index" c index_len
  refuse ((crc.hash index).toNat ≠ index_crc) (.snapshot s!"run index CRC mismatch in {path}")
  let (data_crc, c) ← rdInt path "read data_crc" c 4
  let runs ← readRuns path (chunks DIFF_RUN_ENTRY_BYTES index) 0
  let data_offset := nextMultipleOf c.pos DIFF_PAGE_BYTES
  let data_len := dataPages runs * DIFF_PAGE_BYTES
  refuse (checkedAdd data_offset data_len ≠ some file.len)
    (.snapshot
      s!"diff data length mismatch in {path}: {dataPages runs} pages at {data_offset}, file is {file.len} bytes")
  verifyRamCrcOnce crc host file path
    { state_offset := 0, state_len := 0, mem_offset := data_offset, mem_len := data_len } data_crc
  return .alignedDiff head.parent head.state head.version file data_offset runs

def readSnapshotWith (path snapshot_root : String) (ram_load : RamLoad) :
    Result SnapshotContent := do
  let file ← openSnapshotInput host path
  let (magic, c) ← rd path "read magic" (.seek file.bytes 0) 4
  if magic = FULL_MAGIC then readFull crc host file path ram_load c
  else if magic = DIFF_MAGIC then readDiff crc host file path snapshot_root c
  else if magic = ALIGNED_DIFF_MAGIC then readAlignedDiff crc host file path snapshot_root c
  else throw (.snapshot s!"bad magic in {path}")

end Read

variable {path what : String} {c d : Cursor} {n : Nat}

theorem rd_eq_ok {r : Bytes × Cursor} : rd path what c n = .ok r ↔ c.read n = some r := by
  rw [rd, okOr_eq_ok]

theorem rd_pos {a : Bytes} (h : rd path what c n = .ok (a, d)) : d.pos = c.pos + n :=
  (Cursor.read_eq_some (rd_eq_ok.mp h)).2.2

theorem rdInt_pos {v : Nat} (h : rdInt path what c n = .ok (v, d)) : d.pos = c.pos + n := by
  simp only [rdInt, bind_eq_ok, Prod.exists, pure_eq_ok, Except.ok.injEq, Prod.mk.injEq] at h
  obtain ⟨a, d', hr, _, rfl⟩ := h
  exact rd_pos hr

section Accepted

variable {Hasher : Type} {crc : Crc32 Hasher} {host : Host}

variable {snapshot_root : String} {runs : List (Nat × Nat)} {file : File}

theorem readDiffHead_pos {kind : String} {file_len : Nat} {head : DiffHead}
    (h : readDiffHead crc host kind file_len path snapshot_root c = .ok (head, d)) :
    d.pos ≤ c.pos + 18 + MAX_DIFF_PARENT_PATH_BYTES + MAX_SNAPSHOT_STATE_BYTES := by
  simp only [readDiffHead, bind_eq_ok, Prod.exists, refuse_eq_ok, okOr_eq_ok, pure_eq_ok,
    Except.ok.injEq, Prod.mk.injEq] at h
  obtain ⟨version, c1, h1, _, _, parent_len, c2, h2, _, hp, _, _, pbuf, c3, h3, _, _, _, _,
    state_len, c4, h4, _, hs, state_crc, c5, h5, _, _, state, c6, h6, _, _, _, rfl⟩ := h
  have e1 := rdInt_pos h1
  have e2 := rdInt_pos h2
  have e3 := rd_pos h3
  have e4 := rdInt_pos h4
  have e5 := rdInt_pos h5
  have e6 := rd_pos h6
  omega

/-- A run table the reader accepts: page runs in RAM order that do not overlap. -/
structure RunsOk (previous_end : Nat) (runs : List (Nat × Nat)) : Prop where
  page : ∀ r ∈ runs, r.1 % DIFF_PAGE_BYTES = 0 ∧ 0 < r.2 ∧ r.2 ≤ MAX_DIFF_RUN_PAGES
  inside : ∀ r ∈ runs, previous_end ≤ r.1 ∧ r.1 + r.2 * DIFF_PAGE_BYTES ≤ MAX_MEMORY_BYTES
  apart : runs.Pairwise fun a b => a.1 + a.2 * DIFF_PAGE_BYTES ≤ b.1

theorem readRuns_ok {entries : List Bytes} {previous_end : Nat}
    (h : readRuns path entries previous_end = .ok runs) : RunsOk previous_end runs := by
  induction entries generalizing previous_end runs with
  | nil =>
    cases h
    exact ⟨by simp, by simp, .nil⟩
  | cons entry entries ih =>
    simp only [readRuns, bind_eq_ok, okOr_eq_ok, refuse_eq_ok, pure_eq_ok, Except.ok.injEq,
      Option.bind_eq_some_iff, checkedAdd_eq_some, checkedMul_eq_some] at h
    obtain ⟨stop, ⟨_, ⟨_, rfl⟩, _, rfl⟩, _, hok, rest, hrest, rfl⟩ := h
    have hrest := ih hrest
    refine ⟨forall_mem_cons.mpr ⟨?_, hrest.page⟩,
      forall_mem_cons.mpr ⟨?_, fun r hr => ?_⟩, ?_⟩
    · refine ⟨?_, ?_, ?_⟩ <;> dsimp only <;> omega
    · refine ⟨?_, ?_⟩ <;> dsimp only <;> omega
    · have hi := hrest.inside r hr
      exact ⟨by omega, hi.2⟩
    · exact pairwise_cons.mpr ⟨fun r hr => (hrest.inside r hr).1, hrest.apart⟩

theorem data_cons_le {data_offset data_page len : Nat} {r : Nat × Nat}
    (h : data_offset + (data_page + dataPages (r :: runs)) * DIFF_PAGE_BYTES ≤ len) :
    data_offset + data_page * DIFF_PAGE_BYTES + r.2 * DIFF_PAGE_BYTES +
      dataPages runs * DIFF_PAGE_BYTES ≤ len := by
  simp only [dataPages, map_cons, sum_cons, add_mul] at h ⊢
  omega

theorem RunsOk.tail {previous_end : Nat} {r : Nat × Nat} (h : RunsOk previous_end (r :: runs)) :
    RunsOk (r.1 + r.2 * DIFF_PAGE_BYTES) runs := by
  obtain ⟨hlo, hapart⟩ := pairwise_cons.mp h.apart
  exact ⟨fun q hq => h.page q (by simp [hq]),
    fun q hq => ⟨hlo q hq, (h.inside q (by simp [hq])).2⟩, hapart⟩

/-- Runs that do not overlap hold at most the pages of the largest guest. -/
theorem RunsOk.dataPages_le {previous_end : Nat} (h : RunsOk previous_end runs)
    (hp : previous_end ≤ MAX_MEMORY_BYTES) :
    previous_end + dataPages runs * DIFF_PAGE_BYTES ≤ MAX_MEMORY_BYTES := by
  induction runs generalizing previous_end with
  | nil => simpa [dataPages] using hp
  | cons r runs ih =>
    have hi := h.inside r (by simp)
    have := ih h.tail hi.2
    simp only [dataPages, map_cons, sum_cons, add_mul] at this ⊢
    omega

/-- An aligned diff as the reader hands it on: the data area starts on a page and ends
the file. -/
structure AlignedOk (file : File) (data_offset : Nat) (runs : List (Nat × Nat)) : Prop where
  page : data_offset % DIFF_PAGE_BYTES = 0
  ends : data_offset + dataPages runs * DIFF_PAGE_BYTES = file.len
  off_t : file.len < 2 ^ 63
  runs_ok : RunsOk 0 runs

theorem readAlignedDiff_ok {f : File} {parent : String} {state : Bytes}
    {version data_offset : Nat} (hc : c.pos = 4)
    (h : readAlignedDiff crc host file path snapshot_root c =
      .ok (.alignedDiff parent state version f data_offset runs)) :
    AlignedOk f data_offset runs := by
  simp only [readAlignedDiff, bind_eq_ok, Prod.exists, refuse_eq_ok, pure_eq_ok,
    Except.ok.injEq, SnapshotContent.alignedDiff.injEq, ne_eq, not_not,
    checkedAdd_eq_some] at h
  obtain ⟨head, c1, h1, run_count, c2, h2, _, hcount, index_crc, c3, h3, _, _, index, c4, h4, _,
    _, data_crc, c5, h5, runs', hruns, _, ⟨_, hlen⟩, _, _, _, _, _, rfl, rfl, rfl⟩ := h
  have hok := readRuns_ok hruns
  have hdata := hok.dataPages_le (Nat.zero_le _)
  have e1 := readDiffHead_pos h1
  have e2 := rdInt_pos h2
  have e3 := rdInt_pos h3
  have e4 := rd_pos h4
  have e5 := rdInt_pos h5
  have hpage : nextMultipleOf c5.pos DIFF_PAGE_BYTES % DIFF_PAGE_BYTES = 0 := by
    exact Nat.mul_mod_left _ _
  have hnext : nextMultipleOf c5.pos DIFF_PAGE_BYTES ≤ c5.pos + DIFF_PAGE_BYTES := by
    unfold nextMultipleOf
    have := Nat.div_mul_le_self (c5.pos + (DIFF_PAGE_BYTES - 1)) DIFF_PAGE_BYTES
    omega
  refine ⟨hpage, hlen, ?_, hok⟩
  simp only [MAX_DIFF_PAGES, DIFF_RUN_ENTRY_BYTES, MAX_DIFF_PARENT_PATH_BYTES,
    MAX_SNAPSHOT_STATE_BYTES, DIFF_PAGE_BYTES, MAX_MEMORY_BYTES, MAX_MEMORY_MIB, MIB] at *
  omega

/-- A parsed full header describes exactly the file: header, state, RAM. -/
theorem parseFullSnapshotHeader_ok {hdr : Bytes} {file_len : Nat} {header : FullSnapshotHeader}
    (h : parseFullSnapshotHeader hdr file_len path = .ok header) :
    header.layout.state_offset = FULL_SNAPSHOT_HEADER_LEN ∧
      header.layout.mem_offset = FULL_SNAPSHOT_HEADER_LEN + header.layout.state_len ∧
      header.layout.mem_offset + header.layout.mem_len = file_len ∧
      header.layout.state_len ≤ MAX_SNAPSHOT_STATE_BYTES ∧
      MIB ≤ header.layout.mem_len ∧ header.layout.mem_len ≤ MAX_MEMORY_BYTES ∧
      header.layout.mem_len % MIB = 0 := by
  simp only [parseFullSnapshotHeader, validateSnapshotLengths, fullSnapshotLayoutForLengths,
    bind_eq_ok, refuse_eq_ok, okOr_eq_ok, pure_eq_ok, Except.ok.injEq, Option.bind_eq_bind,
    Option.bind_eq_some_iff, checkedAdd_eq_some, Option.some.injEq] at h
  obtain ⟨_, _, _, _, _, ⟨_, hs, _, hm, hmod⟩, layout, ⟨off, ⟨_, hoff⟩, _, _, hlay⟩, total,
    ⟨_, htot⟩, _, hlo, _, hhi, rfl⟩ := h
  subst hlay
  dsimp only at *
  refine ⟨rfl, hoff.symm, ?_, ?_, ?_, ?_, ?_⟩ <;> omega

/-- Copied or mapped, an accepted full image is the RAM part of its file. -/
theorem readFull_ok {ram_load : RamLoad} {content : SnapshotContent}
    (h : readFull crc host file path ram_load c = .ok content) :
    ∃ mem state version offset, content = .full mem state version ∧
      mem.bytes = slice file.bytes offset mem.size_bytes ∧ offset + mem.size_bytes = file.len ∧
      MIB ≤ mem.size_bytes ∧ mem.size_bytes ≤ MAX_MEMORY_BYTES := by
  simp only [readFull, bind_eq_ok, Prod.exists, refuse_eq_ok] at h
  obtain ⟨hdr, _, _, header, hparse, state, _, _, _, _, hload⟩ := h
  obtain ⟨_, _, hend, _, hlo, hhi, _⟩ := parseFullSnapshotHeader_ok hparse
  have hlen : (slice file.bytes header.layout.mem_offset header.layout.mem_len).length =
      header.layout.mem_len := slice_length (by unfold File.len at hend; omega)
  cases ram_load with
  | map =>
    simp only [bind_eq_ok, refuse_eq_ok, pure_eq_ok, Except.ok.injEq] at hload
    obtain ⟨_, _, _, _, fresh, hfresh, mem, hmap, rfl⟩ := hload
    obtain ⟨_, _, rfl⟩ := mapFileRangePrivate_eq_ok hmap
    have hnew : fresh.bytes = List.replicate header.layout.mem_len 0 := by
      unfold GuestMemory.new at hfresh
      split at hfresh
      · cases hfresh
      · cases hfresh
        rfl
    have hsize : fresh.size_bytes = header.layout.mem_len := by
      simp [GuestMemory.size_bytes, hnew]
    have hbytes : copyAt fresh.bytes 0
        (slice file.bytes header.layout.mem_offset header.layout.mem_len) =
        slice file.bytes header.layout.mem_offset header.layout.mem_len :=
      copyAt_all (by rw [hlen, hnew, length_replicate])
    refine ⟨_, state, header.version, header.layout.mem_offset, rfl, ?_⟩
    simp only [GuestMemory.size_bytes] at hsize ⊢
    simp only [hsize, hbytes, hlen]
    exact ⟨trivial, hend, hlo, hhi⟩
  | copy =>
    simp only [bind_eq_ok, Prod.exists, refuse_eq_ok, pure_eq_ok, Except.ok.injEq] at hload
    obtain ⟨_, _, _, _, fresh, hfresh, bytes, _, hread, rfl⟩ := hload
    obtain ⟨_, hbytes⟩ := Cursor.read_of (Cursor.seek_of (by unfold File.len at hend; omega))
      (rd_eq_ok.mp hread)
    refine ⟨_, state, header.version, header.layout.mem_offset, rfl, ?_⟩
    simp only [GuestMemory.size_bytes]
    subst hbytes
    simp only [Cursor.seek, hlen]
    exact ⟨trivial, hend, hlo, hhi⟩

theorem readSnapshotWith_ok {ram_load : RamLoad} {content : SnapshotContent}
    (h : readSnapshotWith crc host path snapshot_root ram_load = .ok content) :
    (∃ mem state version, content = .full mem state version ∧ MIB ≤ mem.size_bytes ∧
        mem.size_bytes ≤ MAX_MEMORY_BYTES) ∨
      (∃ parent state version pages, content = .diff parent state version pages) ∨
      ∃ parent state version file data_offset runs,
        content = .alignedDiff parent state version file data_offset runs ∧
          AlignedOk file data_offset runs := by
  simp only [readSnapshotWith, bind_eq_ok, Prod.exists] at h
  obtain ⟨file, _, magic, c, hc, h⟩ := h
  split at h
  · obtain ⟨mem, state, version, _, rfl, _, _, hlo, hhi⟩ := readFull_ok h
    exact .inl ⟨mem, state, version, rfl, hlo, hhi⟩
  split at h
  · simp only [readDiff, bind_eq_ok, Prod.exists, pure_eq_ok, Except.ok.injEq] at h
    obtain ⟨head, _, _, _, _, _, _, _, _, _, _, _, pages, _, _, _, _, rfl⟩ := h
    exact .inr (.inl ⟨_, _, _, _, rfl⟩)
  split at h
  · have hpos : c.pos = 4 := rd_pos hc
    have hcopy := h
    simp only [readAlignedDiff, bind_eq_ok, Prod.exists, pure_eq_ok, Except.ok.injEq] at h
    obtain ⟨head, _, _, _, _, _, _, _, _, _, _, _, _, _, _, _, _, _, _, _, _, runs, _, _, _,
      _, _, rfl⟩ := h
    exact .inr (.inr ⟨_, _, _, _, _, _, rfl, readAlignedDiff_ok hpos hcopy⟩)
  · cases h

/-- On a host that maps, a checksum that matches is accepted, recorded or not. -/
theorem verifyRamCrcOnce_of_hash (hm : host.Maps) {layout : FullSnapshotLayout} {expected : Nat}
    (hend : layout.mem_offset + layout.mem_len ≤ file.len) (ho : layout.mem_offset < 2 ^ 63)
    (hcrc : (crc.hash (slice file.bytes layout.mem_offset layout.mem_len)).toNat = expected) :
    verifyRamCrcOnce crc host file path layout expected = .ok () := by
  simp only [verifyRamCrcOnce]
  split
  · rfl
  have hmapped : crc32MappedRange crc host file path layout.mem_offset layout.mem_len =
      .ok (crc.hash (slice file.bytes layout.mem_offset layout.mem_len)) := by
    simp only [crc32MappedRange]
    split
    · rename_i hz
      simp [hz, slice]
    rename_i hz
    have hdelta : layout.mem_offset / 4096 * 4096 +
        (layout.mem_offset - layout.mem_offset / 4096 * 4096) = layout.mem_offset := by omega
    rw [refuse_of_not (by omega), ok_bind, hm.mmap file _ _ (by omega) (by omega) (by omega)]
    simp only [mapErr, ok_bind, pure_eq_ok]
    rw [slice_slice (by omega), hdelta]
  rw [hmapped]
  exact refuse_of_not (by simpa using hcrc)

end Accepted

end Tarit.Snapshot
