import Tarit.Snapshot.ChainOrder
import Tarit.Snapshot.DiffWriter

/-!
# What a writer reports as written, and what the reader accepts

A written file is read back in full exactly when it stays inside the reader's limits:
the padded state, and for a diff also the parent path and the number of runs its dirty
pages need. The writers check none of these.
-/
namespace Tarit.Snapshot

open Lib List SnapshotWriteLayout

variable {file : File} {n : Nat} {Hasher : Type} {crc : Crc32 Hasher} {host : Host}
  {path root : String} {state_blob mem : Bytes}

section Full

/-- Sizes the configuration accepts are whole MiB between the limits of the reader. -/
theorem sizeBytes_ok {size_mib : Nat} (h : sizeBytes size_mib = .ok n) :
    MIB ≤ n ∧ n ≤ MAX_MEMORY_BYTES ∧ n % MIB = 0 := by
  simp only [sizeBytes, bind_eq_ok, okOr_eq_ok, refuse_eq_ok, pure_eq_ok, Except.ok.injEq,
    not_not] at h
  obtain ⟨bytes, hb, _, ⟨hlo, hhi⟩, rfl⟩ := h
  obtain ⟨-, rfl⟩ := checkedMul_eq_some.mp hb
  simp only [MIN_MEMORY_MIB, MAX_MEMORY_MIB, MAX_MEMORY_BYTES, MIB] at *
  omega

theorem crc32FileLoop_of_fits {what : String} (fuel pos remaining : Nat) {hasher : Hasher}
    {a : Bytes} (hf : remaining ≤ fuel) (h : pos + remaining ≤ file.bytes.length)
    (hfed : crc.Fed hasher a) :
    ∃ out, crc32FileLoop crc path what fuel (.seek file.bytes pos) remaining hasher = .ok out ∧
      crc.Fed out (a ++ slice file.bytes pos remaining) := by
  induction fuel generalizing pos remaining hasher a with
  | zero =>
    obtain rfl : remaining = 0 := by omega
    exact ⟨hasher, rfl, by simpa [slice] using hfed⟩
  | succ fuel ih =>
    rw [crc32FileLoop]
    by_cases hz : remaining = 0
    · rw [if_pos hz]
      exact ⟨hasher, rfl, by simpa [hz, slice] using hfed⟩
    have hread : rd path s!"read {what}" (.seek file.bytes pos) (min remaining (64 * 1024)) =
        .ok (slice file.bytes pos (min remaining (64 * 1024)),
          .seek file.bytes (pos + min remaining (64 * 1024))) := by
      rw [rd, Cursor.read_seek (by omega), okOr_some]
    rw [if_neg hz]
    simp only [hread, ok_bind]
    obtain ⟨out, hout, hfed'⟩ := ih (pos + min remaining (64 * 1024))
      (remaining - min remaining (64 * 1024)) (by omega) (by omega)
      (crc.update_fed hfed (slice file.bytes pos (min remaining (64 * 1024))))
    refine ⟨out, hout, ?_⟩
    rw [append_assoc, ← slice_add] at hfed'
    rwa [show min remaining (64 * 1024) + (remaining - min remaining (64 * 1024)) = remaining
      by omega] at hfed'

theorem crc32FileRange_of_fits {what : String} {offset len : Nat} (h : offset + len ≤ file.len) :
    crc32FileRange crc file path offset len what = .ok
      (crc.hash (slice file.bytes offset len)) := by
  obtain ⟨out, hout, hfed⟩ := crc32FileLoop_of_fits len offset len (le_refl _) h crc.new_fed
  rw [crc32FileRange, hout, ok_bind, pure_eq_ok, crc.finalize_fed hfed, nil_append]

variable {layout : SnapshotWriteLayout} {mem_crc : Nat}

theorem fields_length : (layout.fields mem_crc).length = FULL_SNAPSHOT_REST_HEADER_LEN := by
  simp [fields, FULL_SNAPSHOT_REST_HEADER_LEN]

theorem field_version : field (layout.fields mem_crc) 0 2 = SNAPSHOT_VERSION := by
  rw [field, fields, ← nil_append (toLeBytes 2 _ ++ _),
    slice_mid length_nil (toLeBytes_length)]
  exact fromLeBytes_toLeBytes (by decide)

theorem field_flags (h : layout.flags < 2) : field (layout.fields mem_crc) 2 2 = layout.flags := by
  rw [field, fields, slice_mid toLeBytes_length (toLeBytes_length)]
  exact fromLeBytes_toLeBytes (by omega)

theorem field_state_len (h : layout.state_len < 2 ^ 64) :
    field (layout.fields mem_crc) 4 8 = layout.state_len := by
  rw [field, fields, ← append_assoc,
    slice_mid (by simp) (toLeBytes_length)]
  exact fromLeBytes_toLeBytes (by simpa using h)

theorem field_state_crc (h : layout.state_crc < 2 ^ 32) :
    field (layout.fields mem_crc) 12 4 = layout.state_crc := by
  rw [field, fields, ← append_assoc, ← append_assoc,
    slice_mid (by simp) (toLeBytes_length)]
  exact fromLeBytes_toLeBytes (by simpa using h)

theorem field_mem_len (h : layout.mem_len < 2 ^ 64) :
    field (layout.fields mem_crc) 16 8 = layout.mem_len := by
  rw [field, fields, ← append_assoc, ← append_assoc,
    ← append_assoc, slice_mid (by simp) (toLeBytes_length)]
  exact fromLeBytes_toLeBytes (by simpa using h)

theorem field_mem_crc (h : mem_crc < 2 ^ 32) : field (layout.fields mem_crc) 24 4 = mem_crc := by
  rw [field, fields, ← append_assoc, ← append_assoc,
    ← append_assoc, ← append_assoc, ← append_nil (toLeBytes 4 mem_crc),
    slice_mid (by simp) (toLeBytes_length)]
  exact fromLeBytes_toLeBytes (by simpa using h)

/-- The header the writer laid out, as the reader parses it. -/
def SnapshotWriteLayout.parsed (layout : SnapshotWriteLayout) (mem_crc : Nat) :
    FullSnapshotHeader where
  version := SNAPSHOT_VERSION
  flags := layout.flags
  layout := { state_offset := FULL_SNAPSHOT_HEADER_LEN, state_len := layout.state_len
              mem_offset := FULL_SNAPSHOT_HEADER_LEN + layout.state_len, mem_len := layout.mem_len }
  state_crc := layout.state_crc
  mem_crc := mem_crc

variable {diff : Bool} (h : LayoutOf crc state_blob mem.length diff layout)

include h

theorem LayoutOf.flags_lt : layout.flags < 2 := by
  rw [h.flags]
  split <;> omega

theorem parse_fields (hs : layout.state_len ≤ MAX_SNAPSHOT_STATE_BYTES)
    (hmem : MIB ≤ mem.length ∧ mem.length ≤ MAX_MEMORY_BYTES ∧ mem.length % MIB = 0)
    (hcrc : mem_crc < 2 ^ 32) {file_len : Nat} (hf : file_len = layout.mem_offset + mem.length) :
    parseFullSnapshotHeader (layout.fields mem_crc) file_len path = .ok
      (layout.parsed mem_crc) := by
  have hml := h.mem_len
  have hmo := h.mem_offset
  have hsmall : MAX_SNAPSHOT_STATE_BYTES < 2 ^ 63 := by decide
  have hmsmall : MAX_MEMORY_BYTES < 2 ^ 62 := by decide
  have hhdr : FULL_SNAPSHOT_HEADER_LEN < 2 ^ 10 := by decide
  have hfl := h.flags_lt
  simp only [parseFullSnapshotHeader, validateSnapshotLengths, fullSnapshotLayoutForLengths]
  rw [field_version, field_flags hfl, field_state_len (by omega),
    field_state_crc (h.state_crc ▸ UInt32.toNat_lt _),
    field_mem_len (by omega), field_mem_crc hcrc, refuse_of_not (by decide), ok_bind,
    refuse_of_not (by omega), ok_bind, refuse_of_not (by omega), ok_bind, refuse_of_not (by omega),
    ok_bind, refuse_of_not (by simp [hml, hmem.2.2]), ok_bind,
    checkedAdd_of_lt (by unfold u64Size; omega)]
  simp only [Option.bind_eq_bind, Option.bind_some]
  rw [checkedAdd_of_lt (by unfold u64Size; omega)]
  simp only [Option.bind_some, okOr_some, ok_bind]
  rw [checkedAdd_of_lt (by unfold u64Size; omega), okOr_some, ok_bind, refuse_of_not (by omega),
    ok_bind, refuse_of_not (by omega), ok_bind]
  rfl

theorem state_limit_of_parse {file_len : Nat} {header : FullSnapshotHeader}
    (hok : parseFullSnapshotHeader (layout.fields mem_crc) file_len path = .ok header) :
    layout.state_len ≤ MAX_SNAPSHOT_STATE_BYTES := by
  have hfit := h.fits
  have hmo := h.mem_offset
  simp only [parseFullSnapshotHeader, validateSnapshotLengths, bind_eq_ok, refuse_eq_ok] at hok
  obtain ⟨_, _, _, _, _, ⟨_, hs, _⟩, _⟩ := hok
  rw [field_state_len (by unfold u64Size at hfit; omega)] at hs
  omega

/-- The stored state: the blob and its zero padding. -/
def SnapshotWriteLayout.paddedState (layout : SnapshotWriteLayout) (state_blob : Bytes) : Bytes :=
  state_blob ++ List.replicate layout.padding 0

omit h in
theorem fullImage_parts (mem : Bytes) :
    fullImage crc layout state_blob mem = FULL_MAGIC ++
      (layout.fields (crc.hash mem).toNat ++ (layout.paddedState state_blob ++ mem)) := by
  simp [fullImage, header, paddedState]

theorem fullImage_length :
    (fullImage crc layout state_blob mem).length = layout.mem_offset + mem.length := by
  rw [fullImage, length_append, header_length h]

theorem slice_fullImage_state :
    slice (fullImage crc layout state_blob mem) FULL_SNAPSHOT_HEADER_LEN layout.state_len =
      layout.paddedState state_blob := by
  rw [fullImage_parts, ← append_assoc]
  apply slice_mid
  · rw [length_append, fields_length]
    rfl
  · rw [paddedState, length_append, length_replicate, h.state_len]

theorem slice_fullImage_mem :
    slice (fullImage crc layout state_blob mem) layout.mem_offset mem.length = mem := by
  have hlen := header_length h (crc.hash mem).toNat
  rw [fullImage, ← hlen, ← add_zero (List.length _), slice_append_right, slice_full]

omit h in
theorem guestMemory_new (h : 0 < n) (hp : n % 4096 = 0) :
    GuestMemory.new n =
      .ok { bytes := List.replicate n 0, file_backed := false, file_ranges := [] } :=
  if_neg (by omega)

/-- Within the state limit the reader gives back the RAM and the padded state. -/
theorem readFull_fullImage (path : String) (hm : host.Maps)
    (hs : layout.state_len ≤ MAX_SNAPSHOT_STATE_BYTES)
    (hmem : MIB ≤ mem.length ∧ mem.length ≤ MAX_MEMORY_BYTES ∧ mem.length % MIB = 0)
    (hfile : file.bytes = fullImage crc layout state_blob mem) (ram_load : RamLoad)
    (hpage : ram_load = .map → layout.mem_offset % 4096 = 0) :
    ∃ m : GuestMemory, readFull crc host file path ram_load ⟨file.bytes.drop 4, 4⟩ =
      .ok (.full m (layout.paddedState state_blob) SNAPSHOT_VERSION) ∧ m.bytes = mem := by
  have hlen : file.len = layout.mem_offset + mem.length := by
    rw [File.len, hfile, fullImage_length h]
  have hmo := h.mem_offset
  have hml := h.mem_len
  have hpages : mem.length % 4096 = 0 := by
    simp only [MIB] at hmem
    omega
  have hpos : 0 < mem.length := by
    simp only [MIB] at hmem
    omega
  have hsmall : MAX_SNAPSHOT_STATE_BYTES < 2 ^ 62 := by decide
  have hmsmall : MAX_MEMORY_BYTES < 2 ^ 62 := by decide
  have hhdr : FULL_SNAPSHOT_HEADER_LEN < 2 ^ 10 := by decide
  have hdrop : file.bytes.drop 4 = layout.fields (crc.hash mem).toNat ++
      (layout.paddedState state_blob ++ mem) := by
    rw [hfile, fullImage_parts]
    rfl
  have hstate : slice file.bytes FULL_SNAPSHOT_HEADER_LEN layout.state_len =
      layout.paddedState state_blob := by rw [hfile, slice_fullImage_state h]
  have hram : slice file.bytes layout.mem_offset mem.length = mem := by
    rw [hfile, slice_fullImage_mem h]
  have hscrc : (crc.hash (layout.paddedState state_blob)).toNat = layout.state_crc :=
    h.state_crc.symm
  have hseek : rd path "read state" (.seek file.bytes FULL_SNAPSHOT_HEADER_LEN) layout.state_len =
      .ok (layout.paddedState state_blob,
        .seek file.bytes (FULL_SNAPSHOT_HEADER_LEN + layout.state_len)) := by
    rw [rd, Cursor.read_seek (by unfold File.len at hlen; omega), okOr_some, hstate]
  unfold readFull
  rw [hdrop, rd_append fields_length]
  simp only [ok_bind]
  rw [parse_fields h hs hmem (UInt32.toNat_lt _) hlen]
  simp only [ok_bind, parsed, hseek]
  rw [refuse_of_not (by simp [hscrc]), ok_bind, ← hmo, hml]
  cases ram_load with
  | copy =>
    have hmemread : rd path "read mem" (.seek file.bytes layout.mem_offset) mem.length =
        .ok (mem, .seek file.bytes (layout.mem_offset + mem.length)) := by
      rw [rd, Cursor.read_seek (by unfold File.len at hlen; omega), okOr_some, hram]
    refine ⟨{ bytes := mem, file_backed := false, file_ranges := [] }, ?_, rfl⟩
    simp only [crc32FileRange_of_fits (le_of_eq hlen.symm), hram, ok_bind,
      guestMemory_new hpos hpages, hmemread]
    rw [refuse_of_not (by simp), ok_bind]
    rfl
  | map =>
    have hpage := hpage rfl
    obtain ⟨m, hmap, hbytes⟩ := mapFilePrivate_fresh hm ⟨hpages, hpos⟩ hpage
      (by omega : layout.mem_offset + mem.length ≤ file.len) (by omega) (by unfold u64Size; omega)
    refine ⟨m, ?_, hbytes.trans hram⟩
    rw [refuse_of_not (by simp [hpage]), ok_bind,
      verifyRamCrcOnce_of_hash hm (by dsimp only; omega) (by dsimp only; omega)
        (by dsimp only; rw [hram]),
      ok_bind, guestMemory_new hpos hpages, ok_bind, hmap]
    rfl

end Full

section Diff

variable {parent resolved : String} {dirty : DirtyBitmap} {runs : List (Nat × Nat)} {rest : Bytes}
  {ram_load : RamLoad} {data_crc : Nat}

theorem runEntries_of_data {data_offset : Nat} (hle : ∀ r ∈ runs, r.1 ≤ mem.length)
    (data_page : Nat) (h : slice file.bytes (data_offset + data_page * DIFF_PAGE_BYTES)
      (dataPages runs * DIFF_PAGE_BYTES) = runs.flatMap (runData mem)) :
    runEntries file data_offset runs data_page = runs.map fun r => (r.1, runData mem r) := by
  induction runs generalizing data_page with
  | nil => rfl
  | cons r runs ih =>
    obtain ⟨hfits, hle⟩ := forall_mem_cons.mp hle
    have hr := runData_length hfits
    have hsum : dataPages (r :: runs) * DIFF_PAGE_BYTES =
        r.2 * DIFF_PAGE_BYTES + dataPages runs * DIFF_PAGE_BYTES := by
      simp only [dataPages, map_cons, sum_cons, add_mul]
    rw [hsum, slice_add, flatMap_cons] at h
    have hfirst : (slice file.bytes (data_offset + data_page * DIFF_PAGE_BYTES)
        (r.2 * DIFF_PAGE_BYTES)).length = (runData mem r).length := by
      have hlen := congrArg List.length h
      simp only [slice, length_append, length_take, length_drop] at hlen ⊢
      omega
    obtain ⟨h1, h2⟩ := append_inj h hfirst
    have hnext : data_offset + (data_page + r.2) * DIFF_PAGE_BYTES =
        data_offset + data_page * DIFF_PAGE_BYTES + r.2 * DIFF_PAGE_BYTES := by
      rw [add_mul]
      omega
    rw [runEntries, h1, map_cons, ih hle (data_page + r.2) (by rw [hnext]; exact h2)]

/-- Entries that do not overlap write a byte at most once, with what RAM holds there. -/
theorem writes_of_runs (hle : ∀ r ∈ runs, r.1 ≤ mem.length)
    (hapart : runs.Pairwise fun a b => a.1 + a.2 * DIFF_PAGE_BYTES ≤ b.1) (i : Nat) :
    (runs.map fun r => (r.1, runData mem r)).filterMap (patchAt · i) =
      if ∃ r ∈ runs, r.1 ≤ i ∧ i < r.1 + r.2 * DIFF_PAGE_BYTES then [peek mem i] else [] := by
  induction runs with
  | nil => simp
  | cons r runs ih =>
    obtain ⟨hfits, hle⟩ := forall_mem_cons.mp hle
    have hr := runData_length hfits
    obtain ⟨hlo, htail⟩ := pairwise_cons.mp hapart
    have ih := ih hle htail
    rw [map_cons, filterMap_cons]
    by_cases hin : r.1 ≤ i ∧ i < r.1 + r.2 * DIFF_PAGE_BYTES
    swap
    · have hpatch : patchAt (r.1, runData mem r) i = none :=
        patchAt_eq_none_iff.mpr (by dsimp only; omega)
      rw [hpatch, ih]
      simp only [mem_cons, exists_eq_or_imp, hin, false_or]
    have hnone : ¬ ∃ q ∈ runs, q.1 ≤ i ∧ i < q.1 + q.2 * DIFF_PAGE_BYTES := by
      rintro ⟨q, hq, hqi, _⟩
      have := hlo q hq
      omega
    have hpatch : patchAt (r.1, runData mem r) i = some (peek mem i) := by
      have hget := peek_runData hfits (i - r.1)
      rw [if_pos (by omega), show r.1 + (i - r.1) = i by omega, peek_eq_getElem?] at hget
      have hsome : (runData mem r)[i - r.1]? = some (runData mem r)[i - r.1] :=
        List.getElem?_eq_getElem (by omega)
      rw [hsome] at hget
      simp only [patchAt, if_pos hin.1, hsome]
      rw [← hget]
      rfl
    rw [hpatch, ih, if_neg hnone, if_pos ⟨r, by simp, hin⟩]

/-- A full snapshot that reads back: the same RAM and the state with zero padding. -/
def YieldsFull (content : SnapshotContent) (state_blob mem : Bytes) : Prop :=
  ∃ m version padding, content = .full m (state_blob ++ List.replicate padding 0) version ∧
    m.bytes = mem

/-- A diff that reads back: the same state, and its entries write each byte of a dirty
page inside RAM once, with RAM's byte, and no other byte. -/
def YieldsDiff (content : SnapshotContent) (state_blob mem : Bytes) (dirty : DirtyBitmap) : Prop :=
  ∃ parent version file data_offset runs,
    content = .alignedDiff parent state_blob version file data_offset runs ∧
      ∀ i, (runEntries file data_offset runs 0).filterMap (patchAt · i) =
        if i / DIFF_PAGE_BYTES ∈ dirty ∧ i < mem.length then [peek mem i] else []

theorem yieldsDiff_of_data {data_offset version : Nat} (hp : mem.length % DIFF_PAGE_BYTES = 0)
    (hu : mem.length < u64Size) (h : slice file.bytes data_offset
      (dataPages (dirtyPageRuns dirty mem.length) * DIFF_PAGE_BYTES) =
        (dirtyPageRuns dirty mem.length).flatMap (runData mem)) :
    YieldsDiff (.alignedDiff resolved state_blob version file data_offset
      (dirtyPageRuns dirty mem.length)) state_blob mem dirty := by
  refine ⟨_, _, _, _, _, rfl, fun i => ?_⟩
  have hle := dirtyPageRuns_le dirty hu
  rw [runEntries_of_data hle 0 (by rw [zero_mul, add_zero]; exact h),
    writes_of_runs hle (dirtyPageRuns_apart hu)]
  have hmem := mem_dirtyPageRuns hu dirty (p := i / DIFF_PAGE_BYTES)
  have hrun : (∃ r ∈ dirtyPageRuns dirty mem.length, r.1 ≤ i ∧ i < r.1 + r.2 * DIFF_PAGE_BYTES) ↔
      i / DIFF_PAGE_BYTES ∈ dirty ∧ i < mem.length := by
    have hpage : i / DIFF_PAGE_BYTES * DIFF_PAGE_BYTES < mem.length ↔ i < mem.length := by
      simp only [DIFF_PAGE_BYTES] at *
      omega
    rw [← hpage, ← hmem]
    constructor
    · rintro ⟨r, hr, h1, h2⟩
      have hal := (dirtyPageRuns_shape hu r hr).1
      refine ⟨r, hr, ?_, ?_⟩ <;> simp only [DIFF_PAGE_BYTES] at * <;> omega
    · rintro ⟨r, hr, h1, h2⟩
      have hal := (dirtyPageRuns_shape hu r hr).1
      refine ⟨r, hr, ?_, ?_⟩ <;> simp only [DIFF_PAGE_BYTES] at * <;> omega
  simp only [hrun]

theorem writeDiffSnapshotToFile_bytes {f : File}
    (h : writeDiffSnapshotToFile crc file parent state_blob mem dirty = .ok (f, n)) :
    (asBytes parent).length < 2 ^ 32 ∧ state_blob.length < 2 ^ 64 ∧
      (dirtyPageRuns dirty mem.length).length < 2 ^ 32 ∧
      f.bytes = alignedHeader crc parent state_blob (dirtyPageRuns dirty mem.length)
        (crc.hash ((dirtyPageRuns dirty mem.length).flatMap (runData mem))).toNat
        (alignFill (alignedHeader crc parent state_blob (dirtyPageRuns dirty mem.length)
          (crc.hash ((dirtyPageRuns dirty mem.length).flatMap (runData mem))).toNat []).length ++
        (dirtyPageRuns dirty mem.length).flatMap (runData mem)) := by
  simp only [writeDiffSnapshotToFile, bind_eq_ok, refuse_eq_ok, pure_eq_ok, Except.ok.injEq,
    Prod.mk.injEq] at h
  obtain ⟨_, hp, _, hs, _, hc, rfl, _⟩ := h
  have hfed : crc.Fed _ ([] ++ _) :=
    foldl_update_fed mem (dirtyPageRuns dirty mem.length) crc.new_fed
  refine ⟨by omega, by omega, by omega, ?_⟩
  rw [crc.finalize_fed hfed, nil_append, append_assoc]
  exact alignedHeader_append

theorem rd_magic {magic : Bytes} (hm : magic.length = 4) (hfile : file.bytes = magic ++ rest) :
    rd path "read magic" (.seek file.bytes 0) 4 = .ok (magic, ⟨file.bytes.drop 4, 4⟩) := by
  have hdrop : file.bytes.drop 4 = rest := by rw [hfile, ← hm, drop_left]
  rw [hdrop, hfile]
  exact rd_append hm

section Open

variable (hopen : openSnapshotInput host path = .ok file)

include hopen

theorem readSnapshotWith_aligned (hfile : file.bytes = ALIGNED_DIFF_MAGIC ++ rest) :
    readSnapshotWith crc host path root ram_load =
      readAlignedDiff crc host file path root ⟨file.bytes.drop 4, 4⟩ := by
  rw [readSnapshotWith, hopen]
  simp only [ok_bind, rd_magic rfl hfile]
  rw [if_neg (by decide), if_neg (by decide), if_pos trivial]

theorem readSnapshotWith_diff (hfile : file.bytes = DIFF_MAGIC ++ rest) :
    readSnapshotWith crc host path root ram_load =
      readDiff crc host file path root ⟨file.bytes.drop 4, 4⟩ := by
  rw [readSnapshotWith, hopen]
  simp only [ok_bind, rd_magic rfl hfile]
  rw [if_neg (by decide), if_pos trivial]

theorem readSnapshotWith_full (hfile : file.bytes = FULL_MAGIC ++ rest) :
    readSnapshotWith crc host path root ram_load =
      readFull crc host file path ram_load ⟨file.bytes.drop 4, 4⟩ := by
  rw [readSnapshotWith, hopen]
  simp only [ok_bind, rd_magic rfl hfile]
  rw [if_pos trivial]

end Open

theorem alignedFile_len (hp : (asBytes parent).length ≤ MAX_DIFF_PARENT_PATH_BYTES)
    (hs : state_blob.length ≤ MAX_SNAPSHOT_STATE_BYTES) (hc : runs.length < 2 ^ 32)
    (hrest : rest.length < 2 ^ 62)
    (hfile : file.bytes = alignedHeader crc parent state_blob runs data_crc rest) :
    file.len < u64Size := by
  rw [File.len, hfile, alignedHeader_length]
  simp only [MAX_DIFF_PARENT_PATH_BYTES, MAX_SNAPSHOT_STATE_BYTES, DIFF_RUN_ENTRY_BYTES,
    u64Size] at *
  omega

theorem limits_of_readAlignedDiff {content : SnapshotContent}
    (hp : (asBytes parent).length < 2 ^ 32) (hs : state_blob.length < 2 ^ 64)
    (hc : runs.length < 2 ^ 32) (hrest : rest.length < 2 ^ 62)
    (hr : resolveSnapshotParent host parent root = .ok resolved)
    (hfile : file.bytes = alignedHeader crc parent state_blob runs data_crc rest)
    (h : readAlignedDiff crc host file path root ⟨file.bytes.drop 4, 4⟩ = .ok content) :
    (asBytes parent).length ≤ MAX_DIFF_PARENT_PATH_BYTES ∧
      state_blob.length ≤ MAX_SNAPSHOT_STATE_BYTES ∧ runs.length ≤ MAX_DIFF_PAGES := by
  obtain ⟨hdrop, hlen⟩ := alignedFile_drop hfile
  rw [hdrop] at h hlen
  have hcopy := h
  simp only [readAlignedDiff, bind_eq_ok] at hcopy
  obtain ⟨_, hhead, _⟩ := hcopy
  obtain ⟨hple, hsle⟩ := limits_of_readDiffHead hp hs hhead
  have hu := alignedFile_len hple hsle hc hrest hfile
  refine ⟨hple, hsle, ?_⟩
  rw [readAlignedDiff, readDiffHead_diffHead hple hsle hr hlen hu] at h
  simp only [ok_bind] at h
  rw [rdInt_append (by simpa using hc)] at h
  simp only [ok_bind, bind_eq_ok, refuse_eq_ok] at h
  omega

theorem writtenRest_length (hp : mem.length % DIFF_PAGE_BYTES = 0)
    (hm : mem.length ≤ MAX_MEMORY_BYTES) :
    (alignFill n ++ (dirtyPageRuns dirty mem.length).flatMap (runData mem)).length < 2 ^ 62 := by
  have hu : mem.length < u64Size := lt_of_le_of_lt hm (by decide)
  have hle := (dirtyPageRuns_ok dirty hp hm).dataPages_le (Nat.zero_le _)
  have hlt := nextMultipleOf_lt n
  rw [length_append, runsData_length (dirtyPageRuns_le dirty hu), alignFill,
    length_replicate]
  simp only [MAX_MEMORY_BYTES, MAX_MEMORY_MIB, MIB, DIFF_PAGE_BYTES] at *
  omega

/-- A written snapshot is accepted and gives back what was written exactly within the
reader's limits. -/
theorem written_snapshot_accepted_iff (hm : host.Maps) {size_mib : Nat}
    (hsize : sizeBytes size_mib = .ok mem.length) {opened : File}
    (hopen : openSnapshotInput host path = .ok opened) (ram_load : RamLoad) :
    (∀ file f populated, Unpopulated mem populated →
      writeSnapshotToFile crc file state_blob mem populated false = .ok f →
      opened.bytes = f.bytes →
      ((∃ content, readSnapshotWith crc host path root ram_load = .ok content ∧
          YieldsFull content state_blob mem) ↔
        state_blob.length + FULL_SNAPSHOT_HEADER_LEN ≤ MAX_SNAPSHOT_STATE_BYTES)) ∧
    (∀ file f n parent resolved dirty,
      writeDiffSnapshotToFile crc file parent state_blob mem dirty = .ok (f, n) →
      resolveSnapshotParent host parent root = .ok resolved → opened.bytes = f.bytes →
      ((∃ content, readSnapshotWith crc host path root ram_load = .ok content ∧
          YieldsDiff content state_blob mem dirty) ↔
        (asBytes parent).length ≤ MAX_DIFF_PARENT_PATH_BYTES ∧
          state_blob.length ≤ MAX_SNAPSHOT_STATE_BYTES ∧
          runStarts dirty mem.length ≤ MAX_DIFF_PAGES)) := by
  obtain ⟨hlo, hhi, hmib⟩ := sizeBytes_ok hsize
  have hmem : mem.length < u64Size := lt_of_le_of_lt hhi (by decide)
  have hpages : mem.length % DIFF_PAGE_BYTES = 0 := by
    simp only [MIB, DIFF_PAGE_BYTES] at *
    omega
  constructor
  · intro file f populated hz hw hbytes
    cases hl : SnapshotWriteLayout.new crc state_blob mem.length false with
    | error e =>
      rw [writeSnapshotToFile, hl] at hw
      cases hw
    | ok layout =>
      have hlay := layoutOf_of_new hl
      rw [writeSnapshotToFile_bytes hz hl hw] at hbytes
      rw [readSnapshotWith_full hopen (by rw [hbytes, fullImage_parts])]
      have hlimit : layout.state_len ≤ MAX_SNAPSHOT_STATE_BYTES ↔
          state_blob.length + FULL_SNAPSHOT_HEADER_LEN ≤ MAX_SNAPSHOT_STATE_BYTES := by
        have h1 := hlay.state_len
        obtain ⟨h2, h3⟩ := page_of_new hl
        have h4 := hlay.mem_offset
        simp only [MAX_SNAPSHOT_STATE_BYTES, FULL_SNAPSHOT_HEADER_LEN] at *
        omega
      rw [← hlimit]
      constructor
      · rintro ⟨content, hread, _⟩
        have hdrop : opened.bytes.drop 4 = layout.fields (crc.hash mem).toNat ++
            (layout.paddedState state_blob ++ mem) := by
          rw [hbytes, fullImage_parts]
          rfl
        rw [readFull, hdrop, rd_append fields_length] at hread
        simp only [ok_bind, bind_eq_ok] at hread
        obtain ⟨header, hparse, _⟩ := hread
        exact state_limit_of_parse hlay hparse
      · intro hs
        obtain ⟨m, hread, hm⟩ := readFull_fullImage hlay path hm hs ⟨hlo, hhi, hmib⟩ hbytes ram_load
          (fun _ => (page_of_new hl).2)
        exact ⟨_, hread, m, _, _, rfl, hm⟩
  · intro file f n parent resolved dirty hw hr hbytes
    obtain ⟨hp32, hs64, hc32, hf⟩ := writeDiffSnapshotToFile_bytes hw
    rw [hf] at hbytes
    rw [readSnapshotWith_aligned hopen (by rw [hbytes, alignedHeader]), ← dirtyPageRuns_length hmem]
    have hdata := runsData_length (dirtyPageRuns_le dirty hmem)
    constructor
    · rintro ⟨content, hread, _⟩
      exact limits_of_readAlignedDiff hp32 hs64 hc32 (writtenRest_length hpages hhi) hr hbytes hread
    · rintro ⟨hp, hs, hc⟩
      have hread := readAlignedDiff_alignedHeader path hm hp hs hc hr
        (dirtyPageRuns_ok dirty hpages hhi) hdata rfl rfl hbytes
      refine ⟨_, hread, yieldsDiff_of_data hpages hmem ?_⟩
      rw [hbytes, ← hdata]
      exact slice_alignedHeader_data rfl

/-- The aligned writer refuses only lengths its own fields cannot hold. -/
theorem writeDiffSnapshotToFile_isOk (file : File) (hp : (asBytes parent).length < 2 ^ 32)
    (hs : state_blob.length < 2 ^ 64)
    (hc : (dirtyPageRuns dirty mem.length).length < 2 ^ 32) :
    ∃ f n, writeDiffSnapshotToFile crc file parent state_blob mem dirty = .ok (f, n) ∧
      f.regular = file.regular := by
  simp only [writeDiffSnapshotToFile]
  rw [refuse_of_not (by omega), ok_bind, refuse_of_not (by omega), ok_bind,
    refuse_of_not (by omega), ok_bind]
  exact ⟨_, _, rfl, rfl⟩

/-- A table longer than the reader's limit is refused before it is looked at. -/
theorem readAlignedDiff_too_many (hp : (asBytes parent).length ≤ MAX_DIFF_PARENT_PATH_BYTES)
    (hs : state_blob.length ≤ MAX_SNAPSHOT_STATE_BYTES) (hc : MAX_DIFF_PAGES < runs.length)
    (hc32 : runs.length < 2 ^ 32) (hrest : rest.length < 2 ^ 62)
    (hr : resolveSnapshotParent host parent root = .ok resolved)
    (hfile : file.bytes = alignedHeader crc parent state_blob runs data_crc rest) :
    readAlignedDiff crc host file path root ⟨file.bytes.drop 4, 4⟩ =
      .error (.snapshot s!"too many diff runs in {path}: {runs.length}") := by
  obtain ⟨hdrop, hlen⟩ := alignedFile_drop hfile
  rw [hdrop] at hlen ⊢
  rw [readAlignedDiff, readDiffHead_diffHead hp hs hr hlen (alignedFile_len hp hs hc32 hrest hfile)]
  simp only [ok_bind]
  rw [rdInt_append (by simpa using hc32)]
  simp only [ok_bind]
  rw [refuse, if_pos hc, error_bind]

end Diff

def zeroRam (size_mib : Nat) : Bytes := List.replicate (size_mib * MIB) 0

def freshFile (ino : Nat) : File where
  regular := true
  dev := 1
  ino := ino
  mtime := 0
  mtime_nsec := 0
  bytes := []
  ram_verified := none

/-- The directory `/s` with a base and, over it, one more snapshot. -/
def tipHost (tip base : File) : Host := Host.ofFiles [("/s/tip", tip), ("/s/base", base)]

theorem tipHost_maps (tip base : File) : (tipHost tip base).Maps :=
  ⟨fun _ _ _ _ _ _ => rfl, fun _ => rfl⟩

theorem open_tip {tip : File} (base : File) (h : tip.regular = true) :
    openSnapshotInput (tipHost tip base) "/s/tip" = .ok tip := by
  have hopen : (tipHost tip base).openFile "/s/tip" = .ok tip := rfl
  rw [openSnapshotInput, hopen]
  simp [h]

theorem resolve_base {tip base : File} (h : base.regular = true) :
    resolveSnapshotParent (tipHost tip base) "/s/base" "/s" = .ok "/s/base" := by
  have hexists : (tipHost tip base).pathExists "/s/base" = true := rfl
  have habs : isAbsolute "/s/base" = true := by decide
  have hcand : parentCandidate (tipHost tip base) "/s/base" "/s" = "/s/base" := by
    simp only [parentCandidate, habs, if_true, hexists]
  have hfile : (tipHost tip base).isFile "/s/base" = .ok true := by
    have : (tipHost tip base).isFile "/s/base" = .ok base.regular := rfl
    rw [this, h]
  have hcanon : (tipHost tip base).canonicalize "/s/base" = .ok "/s/base" := rfl
  simp only [resolveSnapshotParent, hcand, hfile, hcanon]
  rw [refuse_of_not (by decide), ok_bind, refuse_of_not (by decide), ok_bind]
  rfl

theorem zeroRam_length (size_mib : Nat) : (zeroRam size_mib).length = size_mib * MIB := by
  simp [zeroRam]

/-- A one MiB guest with two dirty pages: the written diff is accepted and gives back
exactly them. -/
theorem written_diff_accepted_one_mib :
    ∃ tip n content,
      writeDiffSnapshotToFile Crc32.ieee (freshFile 2) "/s/base" [7] (zeroRam 1) {0, 2} =
        .ok (tip, n) ∧
      readSnapshotWith Crc32.ieee (tipHost tip (freshFile 1)) "/s/tip" "/s" .map = .ok content ∧
      YieldsDiff content [7] (zeroRam 1) {0, 2} := by
  have hram := zeroRam_length 1
  have hmem : (zeroRam 1).length < u64Size := by rw [hram]; decide
  have hstarts : runStarts {0, 2} (zeroRam 1).length ≤ MAX_DIFF_PAGES := by
    rw [hram]
    decide +kernel
  have hruns : (dirtyPageRuns {0, 2} (zeroRam 1).length).length < 2 ^ 32 := by
    rw [dirtyPageRuns_length hmem]
    exact lt_of_le_of_lt hstarts (by decide)
  have hsize : sizeBytes 1 = .ok (zeroRam 1).length := by
    rw [hram]
    decide
  obtain ⟨tip, n, hw, hreg⟩ : ∃ f n,
      writeDiffSnapshotToFile .ieee (freshFile 2) "/s/base" [7] (zeroRam 1) {0, 2} =
        .ok (f, n) ∧ f.regular = true :=
    writeDiffSnapshotToFile_isOk _ (by decide) (by decide) hruns
  have hiff := (written_snapshot_accepted_iff (tipHost_maps _ _) hsize
    (open_tip (freshFile 1) hreg) .map).2 _ tip n "/s/base" "/s/base" {0, 2} hw
    (resolve_base rfl) rfl
  obtain ⟨content, hread, hyield⟩ := hiff.mpr ⟨by decide, by decide, hstarts⟩
  exact ⟨tip, n, content, hw, hread, hyield⟩

/-- An 8193 MiB guest with every other page dirty: the diff is written, and refused when
it is read. -/
theorem written_diff_refused_eight_gib :
    sizeBytes 8193 = .ok (zeroRam 8193).length ∧
    ∃ tip n,
      writeDiffSnapshotToFile Crc32.ieee (freshFile 2) "/s/base" [] (zeroRam 8193)
        (alternatePages 1048704) = .ok (tip, n) ∧
      resolveSnapshotParent (tipHost tip (freshFile 1)) "/s/base" "/s" = .ok "/s/base" ∧
      readSnapshotWith Crc32.ieee (tipHost tip (freshFile 1)) "/s/tip" "/s" .copy =
        .error (.snapshot "too many diff runs in /s/tip: 1048704") := by
  have hram := zeroRam_length 8193
  have hpagelen : (zeroRam 8193).length = 2 * 1048704 * DIFF_PAGE_BYTES := by
    rw [hram]
    decide
  have hmem : (zeroRam 8193).length < u64Size := by rw [hram]; decide
  have hpages : (zeroRam 8193).length % DIFF_PAGE_BYTES = 0 := by rw [hram]; decide
  have hmax : (zeroRam 8193).length ≤ MAX_MEMORY_BYTES := by rw [hram]; decide
  have hcount : (dirtyPageRuns (alternatePages 1048704) (zeroRam 8193).length).length =
      1048704 := by
    rw [dirtyPageRuns_length hmem, hpagelen, runStarts_alternatePages]
  have hc32 : (dirtyPageRuns (alternatePages 1048704) (zeroRam 8193).length).length < 2 ^ 32 := by
    rw [hcount]
    decide
  refine ⟨by rw [hram]; decide, ?_⟩
  obtain ⟨tip, n, hw, hreg⟩ : ∃ f n,
      writeDiffSnapshotToFile .ieee (freshFile 2) "/s/base" [] (zeroRam 8193)
        (alternatePages 1048704) = .ok (f, n) ∧ f.regular = true :=
    writeDiffSnapshotToFile_isOk _ (by decide) (by decide) hc32
  obtain ⟨_, _, _, hbytes⟩ := writeDiffSnapshotToFile_bytes hw
  refine ⟨tip, n, hw, resolve_base rfl, ?_⟩
  rw [readSnapshotWith_aligned (open_tip _ hreg) (by rw [hbytes, alignedHeader]),
    readAlignedDiff_too_many (by decide) (by decide) (by rw [hcount]; decide) hc32
      (writtenRest_length hpages hmax) (resolve_base rfl) hbytes, hcount]
  exact congrArg (fun text => Except.error (VmmError.snapshot text)) (by decide +kernel)

end Tarit.Snapshot
