import Tarit.Snapshot.ChainApply

/-!
# Mapping a chain instead of copying it

Map mode differs from copy mode in two places: how the base image gets into RAM, and how
long stretches of an aligned diff do. On a host that maps, the walk over the diffs
succeeds in one mode exactly when it does in the other, and the bytes are those of the
byte-wise reading of the walk in both. The base is the exception: a RAM image that does
not start on a page boundary can be copied but not mapped.
-/
namespace Tarit.Snapshot

open Lib Cursor List Option

/-- Where the RAM image of a full snapshot starts: the header, then the stored state. -/
def ramOffset (file : File) : Nat :=
  FULL_SNAPSHOT_HEADER_LEN + field (slice file.bytes 4 FULL_SNAPSHOT_REST_HEADER_LEN) 4 8

section Walk

variable {host : Host} (hm : host.Maps) {file : File} {ram_load : RamLoad}

include hm

theorem fillRam_isOk {mem : GuestMemory} {file_offset ram_offset pages : Nat}
    (hal : file_offset % DIFF_PAGE_BYTES = 0 ∧ ram_offset % DIFF_PAGE_BYTES = 0)
    (hpos : 0 < pages) (hfile : file_offset + pages * DIFF_PAGE_BYTES ≤ file.len)
    (hoff : file.len < 2 ^ 63) (hfit : ram_offset + pages * DIFF_PAGE_BYTES ≤ mem.size_bytes)
    (hu : mem.size_bytes < u64Size) :
    ∃ mem', fillRam host ram_load mem file file_offset ram_offset pages = .ok mem' ∧
      mem'.size_bytes = mem.size_bytes := by
  have hlen : (slice file.bytes file_offset (pages * DIFF_PAGE_BYTES)).length =
      pages * DIFF_PAGE_BYTES := slice_length hfile
  have hsize : (copyAt mem.bytes ram_offset
      (slice file.bytes file_offset (pages * DIFF_PAGE_BYTES))).length = mem.size_bytes :=
    copyAt_length (by rw [hlen]; exact hfit)
  have hpages : pages * DIFF_PAGE_BYTES % 4096 = 0 ∧ 0 < pages * DIFF_PAGE_BYTES := by
    simp only [DIFF_PAGE_BYTES]
    omega
  simp only [fillRam]
  split
  · rw [mapFileRangePrivate_of_maps hm ⟨hal.1, hal.2, hpages⟩ hfit hu hfile (by omega)]
    exact ⟨_, rfl, hsize⟩
  · rw [refuse_of_not (by omega), ok_bind]
    exact ⟨_, rfl, hsize⟩

variable {s : Restoring}

theorem restoreRun_isOk {data_at first pages : Nat}
    (fuel k : Nat) (hk : k ≤ pages) (hal : data_at % DIFF_PAGE_BYTES = 0)
    (hfile : data_at + pages * DIFF_PAGE_BYTES ≤ file.len) (hoff : file.len < 2 ^ 63)
    (hfit : (first + pages) * DIFF_PAGE_BYTES ≤ s.mem.size_bytes)
    (hu : s.mem.size_bytes < u64Size) :
    ∃ s', restoreRun host ram_load file data_at first pages fuel k s = .ok s' := by
  induction fuel generalizing k s with
  | zero => exact ⟨s, rfl⟩
  | succ fuel ih =>
    rw [restoreRun]
    by_cases hlt : k < pages
    swap
    · rw [if_neg hlt]
      exact ⟨s, rfl⟩
    rw [if_pos hlt]
    by_cases hcov : s.covered (first + k) = true
    · rw [if_pos hcov]
      exact ih (k + 1) (by omega) hfit hu
    rw [if_neg hcov]
    have hspec := coverRun_spec first pages (pages - k) k s.covered
    have hstep := coverRun_lt (pages - k) (by omega) hlt (by simpa using hcov)
    have hstop := hspec.stop_le hk
    revert hstep hstop
    generalize coverRun first pages (pages - k) k s.covered = r
    intro hstep hstop
    obtain ⟨stop, covered⟩ := r
    dsimp only at hstep hstop ⊢
    have hdata : data_at + k * DIFF_PAGE_BYTES + (stop - k) * DIFF_PAGE_BYTES ≤ file.len := by
      rw [add_assoc, ← add_mul]
      exact le_trans (Nat.add_le_add_left (Nat.mul_le_mul_right _ (by omega)) _) hfile
    have hroom : (first + k) * DIFF_PAGE_BYTES + (stop - k) * DIFF_PAGE_BYTES ≤
        s.mem.size_bytes := by
      rw [← add_mul]
      exact le_trans (Nat.mul_le_mul_right _ (by omega)) hfit
    have hpage : (data_at + k * DIFF_PAGE_BYTES) % DIFF_PAGE_BYTES = 0 := by
      rw [Nat.add_mul_mod_self_right, hal]
    obtain ⟨mem, hfill, hsize⟩ := fillRam_isOk hm
      ⟨hpage, Nat.mul_mod_left (first + k) _⟩ (by omega) hdata hoff hroom hu
    rw [hfill, ok_bind]
    exact ih stop hstop (by rw [← hsize] at hfit; exact hfit) (by rw [← hsize] at hu; exact hu)

/-- Runs that lie in the file and in the memory are restored without an error. -/
theorem restoreRuns_isOk {data_offset : Nat}
    {runs : List (Nat × Nat)} (data_page : Nat) (hruns : ∀ r ∈ runs, r.1 % DIFF_PAGE_BYTES = 0)
    (hal : data_offset % DIFF_PAGE_BYTES = 0)
    (hfile : data_offset + (data_page + dataPages runs) * DIFF_PAGE_BYTES ≤ file.len)
    (hoff : file.len < 2 ^ 63) (hu : s.mem.size_bytes < u64Size)
    (hin : ∀ r ∈ runs, r.1 + r.2 * DIFF_PAGE_BYTES ≤ s.mem.size_bytes) :
    ∃ s', restoreRuns host ram_load file data_offset runs data_page s = .ok s' := by
  induction runs generalizing data_page s with
  | nil => exact ⟨s, rfl⟩
  | cons r runs ih =>
    obtain ⟨offset, pages⟩ := r
    obtain ⟨hr, hin⟩ := forall_mem_cons.mp hin
    obtain ⟨hpage, hruns⟩ := forall_mem_cons.mp hruns
    have hfirst : offset / DIFF_PAGE_BYTES * DIFF_PAGE_BYTES = offset :=
      Nat.div_mul_cancel (Nat.dvd_of_mod_eq_zero hpage)
    have hsum := data_cons_le hfile
    dsimp only at hr hsum
    have hfit : (offset / DIFF_PAGE_BYTES + pages) * DIFF_PAGE_BYTES ≤ s.mem.size_bytes := by
      rw [add_mul, hfirst]
      exact hr
    have hat : (data_offset + data_page * DIFF_PAGE_BYTES) % DIFF_PAGE_BYTES = 0 := by
      rw [Nat.add_mul_mod_self_right, hal]
    obtain ⟨t, hrun⟩ := restoreRun_isOk hm pages 0 (Nat.zero_le _) hat (by omega) hoff hfit hu
    obtain ⟨hsz, _⟩ := restoreRun_view pages 0 (by omega) (Nat.zero_le _) (by omega) hfit hrun
    obtain ⟨s', hs'⟩ := ih (data_page + pages) hruns
      (by rw [add_mul, add_mul]; omega) (by rw [hsz]; exact hu)
      (by rw [hsz]; exact hin)
    refine ⟨s', ?_⟩
    simp only [restoreRuns, validateDiffPageRange]
    rw [checkedAdd_of_lt (by omega), okOr_some, ok_bind, refuse_of_not (by omega), ok_bind, hrun,
      ok_bind, hs']

theorem restoreDiffs_isOk {diffs : List ChainDiff}
    (hd : ∀ d ∈ diffs, d.Accepted) (hu : s.mem.size_bytes < u64Size)
    (hin : ∀ d ∈ diffs, ∀ p ∈ d.entries, p.1 + p.2.length ≤ s.mem.size_bytes) :
    ∃ s', restoreDiffs host ram_load diffs s = .ok s' := by
  induction diffs generalizing s with
  | nil => exact ⟨s, rfl⟩
  | cons d diffs ih =>
    obtain ⟨hacc, hd⟩ := forall_mem_cons.mp hd
    obtain ⟨hentries, hin⟩ := forall_mem_cons.mp hin
    have hok : ∃ t, restoreDiff host ram_load d s = .ok t := by
      cases d with
      | pages ps => exact restorePages_isOk hu hentries
      | aligned file data_offset runs =>
        have hacc : AlignedOk file data_offset runs := hacc
        have hends : data_offset + (0 + dataPages runs) * DIFF_PAGE_BYTES ≤ file.len := by
          rw [zero_add]
          exact le_of_eq hacc.ends
        refine restoreRuns_isOk hm 0 (fun r hr => (hacc.runs_ok.page r hr).1) hacc.page hends
          hacc.off_t hu ?_
        intro r hr
        have hmem : (r.1, r.2 * DIFF_PAGE_BYTES) ∈
            (runEntries file data_offset runs 0).map (fun p => (p.1, p.2.length)) := by
          rw [runEntries_shape 0 hends]
          exact mem_map.mpr ⟨r, hr, rfl⟩
        obtain ⟨p, hp, heq⟩ := mem_map.mp hmem
        obtain ⟨h1, h2⟩ := Prod.mk.inj heq
        rw [← h1, ← h2]
        exact hentries p hp
    obtain ⟨t, ht⟩ := hok
    obtain ⟨hsz, _⟩ := restoreDiff_view hacc ht
    obtain ⟨s', hs'⟩ := ih hd (by rw [hsz]; exact hu) (by rw [hsz]; exact hin)
    exact ⟨s', by rw [restoreDiffs, ht, ok_bind, hs']⟩

theorem restoreDiffs_mode {diffs : List ChainDiff} (hd : ∀ d ∈ diffs, d.Accepted)
    {mem mapped : GuestMemory} {restored : Restoring}
    (hbytes : mapped.bytes = mem.bytes) (hu : mem.size_bytes < u64Size)
    (h : restoreDiffs host .copy diffs { mem, covered := fun _ => false } = .ok restored) :
    ∃ out, restoreDiffs host .map diffs { mem := mapped, covered := fun _ => false } = .ok out ∧
      out.mem.bytes = restored.mem.bytes := by
  have hsize : mapped.size_bytes = mem.size_bytes := congrArg List.length hbytes
  obtain ⟨_, hin, hview⟩ := restoreDiffs_view hd h
  obtain ⟨out, hout⟩ := restoreDiffs_isOk hm hd
    (s := { mem := mapped, covered := fun _ => false }) (by rw [← hsize] at hu; exact hu)
    (by rw [← hsize] at hin; exact hin)
  obtain ⟨_, _, hview'⟩ := restoreDiffs_view hd hout
  refine ⟨out, hout, ?_⟩
  apply ext_getElem?
  intro i
  have hstart : (Restoring.mk mapped fun _ => false).view i =
      (Restoring.mk mem fun _ => false).view i := by
    simp only [Restoring.view, hbytes]
  have heq := hview' i
  rw [hstart, ← hview i] at heq
  exact congrArg Prod.fst heq

end Walk

section Base

variable {Hasher : Type} {crc : Crc32 Hasher} {host : Host} {file : File} {path root : String}

theorem parse_mem_offset {header : FullSnapshotHeader}
    (h : parseFullSnapshotHeader (slice file.bytes 4 FULL_SNAPSHOT_REST_HEADER_LEN) file.len path =
      .ok header) : header.layout.mem_offset = ramOffset file := by
  have hoff := (parseFullSnapshotHeader_ok h).2.1
  simp only [parseFullSnapshotHeader, fullSnapshotLayoutForLengths, bind_eq_ok, okOr_eq_ok,
    pure_eq_ok, Except.ok.injEq, bind_eq_bind, bind_eq_some_iff,
    some.injEq] at h
  obtain ⟨_, _, _, _, _, _, layout, ⟨_, _, _, _, hlay⟩, _, _, _, _, _, _, rfl⟩ := h
  rw [hoff, ← hlay]
  rfl

variable {content : SnapshotContent}

theorem readFull_head {ram_load : RamLoad}
    (h : readFull crc host file path ram_load (.seek file.bytes 4) = .ok content) :
    4 + FULL_SNAPSHOT_REST_HEADER_LEN ≤ file.bytes.length ∧ ∃ header,
      parseFullSnapshotHeader (slice file.bytes 4 FULL_SNAPSHOT_REST_HEADER_LEN) file.len path =
        .ok header := by
  simp only [readFull, bind_eq_ok, Prod.exists] at h
  obtain ⟨hdr, d, hread, header, hparse, _⟩ := h
  have hread := rd_eq_ok.mp hread
  obtain ⟨happ, hlen, _⟩ := read_eq_some hread
  have hroom : 4 + FULL_SNAPSHOT_REST_HEADER_LEN ≤ file.bytes.length := by
    have hl := congrArg List.length happ
    simp only [Cursor.seek, length_drop, length_append, hlen,
      FULL_SNAPSHOT_REST_HEADER_LEN] at hl ⊢
    omega
  rw [read_seek hroom] at hread
  obtain ⟨rfl, _⟩ := Prod.mk.inj (some.inj hread)
  exact ⟨hroom, header, hparse⟩

theorem page_of_readFull_map
    (h : readFull crc host file path .map (.seek file.bytes 4) = .ok content) :
    ramOffset file % 4096 = 0 := by
  obtain ⟨hroom, header, hparse⟩ := readFull_head h
  simp only [readFull] at h
  rw [rd, read_seek hroom, okOr_some] at h
  simp only [ok_bind, hparse, bind_eq_ok, refuse_eq_ok] at h
  rw [← parse_mem_offset hparse]
  omega

/-- A base that can be copied and starts on a page boundary can be mapped. -/
theorem readFull_map_of_copy (hm : host.Maps) (hpage : ramOffset file % 4096 = 0)
    (h : readFull crc host file path .copy (.seek file.bytes 4) = .ok content) :
    ∃ mem mapped state version, content = .full mem state version ∧
      readFull crc host file path .map (.seek file.bytes 4) = .ok (.full mapped state version) ∧
      mapped.bytes = mem.bytes := by
  obtain ⟨hroom, header, hparse⟩ := readFull_head h
  obtain ⟨_, hoff, hend, hstate, hlo, hhi, hmib⟩ := parseFullSnapshotHeader_ok hparse
  have hat := parse_mem_offset hparse
  have hhead : rd path "read header" (.seek file.bytes 4) FULL_SNAPSHOT_REST_HEADER_LEN =
      .ok (slice file.bytes 4 FULL_SNAPSHOT_REST_HEADER_LEN,
        .seek file.bytes (4 + FULL_SNAPSHOT_REST_HEADER_LEN)) := by
    rw [rd, read_seek hroom, okOr_some]
  simp only [readFull, hhead, hparse, ok_bind, bind_eq_ok, Prod.exists, refuse_eq_ok, pure_eq_ok,
    Except.ok.injEq] at h
  obtain ⟨state, _, hread, _, hscrc, actual, hactual, _, hcrc, fresh, hfresh, bytes, _, hmem,
    rfl⟩ :=
    h
  have hpages : header.layout.mem_len % 4096 = 0 ∧ 0 < header.layout.mem_len := by
    simp only [MIB] at *
    omega
  have hsmall : header.layout.mem_offset < 2 ^ 63 ∧ header.layout.mem_len < u64Size := by
    simp only [FULL_SNAPSHOT_HEADER_LEN, MAX_SNAPSHOT_STATE_BYTES, MAX_MEMORY_BYTES,
      MAX_MEMORY_MIB, MIB, u64Size] at *
    omega
  rw [crc32FileRange_of_fits (le_of_eq hend)] at hactual
  cases hactual
  have hmem := rd_eq_ok.mp hmem
  rw [read_seek (by unfold File.len at hend; omega)] at hmem
  obtain ⟨rfl, _⟩ := Prod.mk.inj (some.inj hmem)
  obtain ⟨mapped, hmap, hbytes⟩ := mapFilePrivate_fresh hm hpages (by rw [hat, hpage])
    (le_of_eq hend) hsmall.1 hsmall.2
  refine ⟨_, mapped, state, header.version, rfl, ?_, hbytes⟩
  have hverify : verifyRamCrcOnce crc host file path header.layout header.mem_crc = .ok () :=
    verifyRamCrcOnce_of_hash hm (le_of_eq hend) hsmall.1 (by simpa using hcrc)
  simp only [readFull, hhead, hparse, ok_bind, hread]
  rw [refuse_of_not hscrc, ok_bind, refuse_of_not (by rw [hat, hpage]; simp), ok_bind, hverify,
    ok_bind, guestMemory_new hpages.2 hpages.1, ok_bind, hmap]
  rfl

/-- What copying read one file as, mapping reads it as too, except for a base whose RAM
image does not start on a page boundary. -/
theorem readSnapshotWith_mode (hm : host.Maps)
    (h : readSnapshotWith crc host path root .copy = .ok content) :
    (∃ file mem state version, openSnapshotInput host path = .ok file ∧
        content = .full mem state version ∧
        (ramOffset file % 4096 = 0 → ∃ mapped : GuestMemory,
          readSnapshotWith crc host path root .map = .ok (.full mapped state version) ∧
            mapped.bytes = mem.bytes) ∧
        ∀ r, readSnapshotWith crc host path root .map = .ok r → ramOffset file % 4096 = 0) ∨
      (readSnapshotWith crc host path root .map = .ok content ∧
        ∀ mem state version, content ≠ .full mem state version) := by
  have hcopy := h
  simp only [readSnapshotWith, bind_eq_ok, Prod.exists] at hcopy
  obtain ⟨file, hopen, magic, c, hmagic, hrest⟩ := hcopy
  have hc : c = .seek file.bytes 4 := by
    have hread := rd_eq_ok.mp hmagic
    obtain ⟨happ, hlen, _⟩ := read_eq_some hread
    have hl := congrArg List.length happ
    simp only [Cursor.seek, length_drop, length_append] at hl
    rw [read_seek (by omega)] at hread
    exact (Prod.mk.inj (some.inj hread)).2.symm
  subst hc
  have hmode : ∀ ram_load, readSnapshotWith crc host path root ram_load =
      if magic = FULL_MAGIC then readFull crc host file path ram_load (.seek file.bytes 4)
      else if magic = DIFF_MAGIC then readDiff crc host file path root (.seek file.bytes 4)
      else if magic = ALIGNED_DIFF_MAGIC then
        readAlignedDiff crc host file path root (.seek file.bytes 4)
      else throw (.snapshot s!"bad magic in {path}") := by
    intro ram_load
    simp only [readSnapshotWith, hopen, ok_bind, hmagic]
  by_cases hfull : magic = FULL_MAGIC
  · rw [if_pos hfull] at hrest
    left
    obtain ⟨mem, state, version, _, rfl, _⟩ := readFull_ok hrest
    refine ⟨file, mem, state, version, hopen, rfl, ?_, ?_⟩
    · intro hpage
      obtain ⟨_, mapped, _, _, heq, hread, hbytes⟩ := readFull_map_of_copy hm hpage hrest
      obtain ⟨rfl, rfl, rfl⟩ := SnapshotContent.full.inj heq
      exact ⟨mapped, by rw [hmode, if_pos hfull, hread], hbytes⟩
    · intro r hr
      rw [hmode, if_pos hfull] at hr
      exact page_of_readFull_map hr
  · rw [if_neg hfull] at hrest
    right
    refine ⟨by rw [hmode, if_neg hfull, hrest], ?_⟩
    rintro mem state version rfl
    split at hrest
    · simp only [readDiff, bind_eq_ok, pure_eq_ok, Except.ok.injEq, reduceCtorEq,
        and_false, exists_false] at hrest
    · split at hrest
      · simp only [readAlignedDiff, bind_eq_ok, pure_eq_ok, Except.ok.injEq,
          reduceCtorEq, and_false, exists_false] at hrest
      · cases hrest

theorem followChain_mode (hm : host.Maps) (fuel : Nat) {seen : List String} {cur : String}
    {total : Nat} {diffs : List (Nat × Bytes × ChainDiff)} {chain : Chain}
    (h : followChain crc host root .copy fuel seen cur total diffs = .ok chain) :
    ∃ file, openSnapshotInput host chain.base_path = .ok file ∧
      (ramOffset file % 4096 = 0 → ∃ mapped : GuestMemory,
        followChain crc host root .map fuel seen cur total diffs =
          .ok { chain with mem := mapped } ∧ mapped.bytes = chain.mem.bytes) ∧
      ∀ r, followChain crc host root .map fuel seen cur total diffs = .ok r →
        ramOffset file % 4096 = 0 := by
  induction fuel generalizing seen cur total diffs with
  | zero => cases h
  | succ fuel ih =>
    simp only [followChain, bind_eq_ok] at h ⊢
    obtain ⟨_, hseen, content, hread, h⟩ := h
    rcases readSnapshotWith_mode hm hread with
      ⟨file, mem, state, version, hopen, rfl, hmap, hpage⟩ | ⟨hsame, hnot⟩
    · cases h
      refine ⟨file, hopen, ?_, ?_⟩
      · intro ha
        obtain ⟨mapped, hr, hbytes⟩ := hmap ha
        exact ⟨mapped, ⟨_, hseen, _, hr, rfl⟩, hbytes⟩
      · rintro r ⟨_, _, content, hr, _⟩
        exact hpage content hr
    · cases content with
      | full mem state version => exact absurd rfl (hnot mem state version)
      | diff parent state version pages =>
        simp only [bind_eq_ok] at h
        obtain ⟨next, htotal, h⟩ := h
        obtain ⟨file, hopen, hmap, hpage⟩ := ih h
        refine ⟨file, hopen, ?_, ?_⟩
        · intro ha
          obtain ⟨mapped, hr, hbytes⟩ := hmap ha
          refine ⟨mapped, ⟨_, hseen, _, hsame, ?_⟩, hbytes⟩
          simp only [htotal, ok_bind, hr]
        · rintro r ⟨_, _, content, hr, hfollow⟩
          obtain rfl := Except.ok.inj (hsame.symm.trans hr)
          simp only [htotal, ok_bind] at hfollow
          exact hpage r hfollow
      | alignedDiff parent state version f data_offset runs =>
        obtain ⟨file, hopen, hmap, hpage⟩ := ih h
        refine ⟨file, hopen, ?_, ?_⟩
        · intro ha
          obtain ⟨mapped, hr, hbytes⟩ := hmap ha
          exact ⟨mapped, ⟨_, hseen, _, hsame, hr⟩, hbytes⟩
        · rintro r ⟨_, _, content, hr, hfollow⟩
          obtain rfl := Except.ok.inj (hsame.symm.trans hr)
          exact hpage r hfollow

theorem readChain_mode (hm : host.Maps) {chain : Chain}
    (h : readChain crc host path .copy = .ok chain) :
    ∃ file, openSnapshotInput host chain.base_path = .ok file ∧
      (ramOffset file % 4096 = 0 → ∃ mapped : GuestMemory,
        readChain crc host path .map = .ok { chain with mem := mapped } ∧
          mapped.bytes = chain.mem.bytes) ∧
      ∀ r, readChain crc host path .map = .ok r → ramOffset file % 4096 = 0 := by
  cases hroot : canonicalSnapshotTip host path with
  | error e =>
    rw [readChain, hroot, error_bind] at h
    cases h
  | ok found =>
    have hfollow : ∀ ram_load, readChain crc host path ram_load =
        followChain crc host found.2 ram_load MAX_DIFF_CHAIN_DEPTH [] found.1 0 [] := by
      intro ram_load
      rw [readChain, hroot, ok_bind]
    rw [hfollow] at h
    simp only [hfollow]
    generalize MAX_DIFF_CHAIN_DEPTH = depth at *
    exact followChain_mode hm depth h

/-- A chain that loads in copy mode loads in map mode, with the same bytes, exactly when
the RAM image of its base starts on a page boundary. -/
theorem map_load_iff_page_aligned (hm : host.Maps) {mem : GuestMemory} {state : Bytes}
    {version : Nat} (h : loadSnapshotChainWith crc host path .copy = .ok (mem, state, version)) :
    ∃ chain base, readChain crc host path .copy = .ok chain ∧
      openSnapshotInput host chain.base_path = .ok base ∧
      ((∃ mapped, loadSnapshotChainWith crc host path .map = .ok (mapped, state, version) ∧
          mapped.bytes = mem.bytes) ↔ ramOffset base % 4096 = 0) := by
  simp only [loadSnapshotChainWith, bind_eq_ok, pure_eq_ok, Except.ok.injEq, Prod.mk.injEq] at h
  obtain ⟨chain, hchain, restored, hrestore, rfl, rfl, rfl⟩ := h
  obtain ⟨base, hopen, hmap, hpage⟩ := readChain_mode hm hchain
  have hok := readChain_ok hchain
  refine ⟨chain, base, hchain, hopen, ?_, ?_⟩
  · rintro ⟨_, hload, _⟩
    simp only [loadSnapshotChainWith, bind_eq_ok] at hload
    obtain ⟨r, hr, _⟩ := hload
    exact hpage r hr
  · intro ha
    obtain ⟨mapped, hr, hbytes⟩ := hmap ha
    have haccepted : ∀ d ∈ chain.diffs.map (·.2.2), d.Accepted := by
      intro d hd
      obtain ⟨e, he, rfl⟩ := mem_map.mp hd
      exact hok.accepted e he
    obtain ⟨out, hout, heq⟩ := restoreDiffs_mode hm haccepted hbytes
      (lt_of_le_of_lt hok.size (by decide)) hrestore
    refine ⟨out.mem, ?_, heq⟩
    simp only [loadSnapshotChainWith, hr, ok_bind, hout]
    rfl

end Base

/-- Header fields of a RAM image right behind the header, with no state in front. -/
def bareLayout (mem : Bytes) : SnapshotWriteLayout where
  state_len := 0
  padding := 0
  state_crc := (crc32Ieee []).toNat
  flags := 0
  mem_len := mem.length
  mem_offset := FULL_SNAPSHOT_HEADER_LEN

theorem layoutOf_bareLayout (mem : Bytes) :
    LayoutOf Crc32.ieee [] mem.length false (bareLayout mem) :=
  ⟨rfl, rfl, rfl, rfl, rfl, show FULL_SNAPSHOT_HEADER_LEN < u64Size by decide⟩

/-- A base of one MiB of zeros whose RAM image starts at byte 32. -/
def bareBase : File :=
  { freshFile 1 with bytes := fullImage Crc32.ieee (bareLayout (zeroRam 1)) [] (zeroRam 1) }

theorem ramOffset_fullImage {Hasher : Type} {crc : Crc32 Hasher} {state_blob mem : Bytes}
    {diff : Bool} {layout : SnapshotWriteLayout}
    (h : LayoutOf crc state_blob mem.length diff layout) {file : File}
    (hfile : file.bytes = fullImage crc layout state_blob mem) :
    ramOffset file = layout.mem_offset := by
  have hfit := h.fits
  have hoff := h.mem_offset
  have hmagic : FULL_MAGIC.length = 4 := rfl
  rw [ramOffset, hfile, fullImage_parts, slice_mid hmagic fields_length,
    field_state_len (by unfold u64Size at hfit; omega), hoff]

/-- Over a base the program wrote, a diff loads the same way in both modes. -/
theorem mapped_over_written_base :
    ∃ base, ∃ mem mapped : GuestMemory,
      writeSnapshotToFile Crc32.ieee (freshFile 1) [] (zeroRam 1) none false = .ok base ∧
      loadSnapshotChainWith Crc32.ieee (tipHost (pagesTip [(4096, filledPage 9)]) base) "/s/tip"
        .copy = .ok (mem, [], SNAPSHOT_VERSION) ∧
      loadSnapshotChainWith Crc32.ieee (tipHost (pagesTip [(4096, filledPage 9)]) base) "/s/tip"
        .map = .ok (mapped, [], SNAPSHOT_VERSION) ∧ mapped.bytes = mem.bytes := by
  obtain ⟨base, layout, hw, hbase, hpage⟩ := writtenBase
  obtain ⟨chain, restored, hchain, _, hpath, _, hload⟩ := load_pagesTip hbase
    entriesOk_filledPage (by simp [filledPage_length]; decide)
  obtain ⟨chain', file, hchain', hopen, hiff⟩ := map_load_iff_page_aligned (tipHost_maps _ _) hload
  obtain rfl : chain = chain' := Except.ok.inj (hchain.symm.trans hchain')
  rw [hpath, open_base _ hbase.regular] at hopen
  cases hopen
  obtain ⟨mapped, hmap, hbytes⟩ := hiff.mpr
    (by rw [ramOffset_fullImage hbase.fields hbase.image, hpage])
  exact ⟨base, restored.mem, mapped, hw, hload, hmap, hbytes⟩

/-- A base whose RAM image starts at byte 32 loads in copy mode and not in map mode. -/
theorem bare_base_not_mapped :
    (∃ mem : GuestMemory, loadSnapshotChainWith Crc32.ieee (tipHost (pagesTip []) bareBase)
      "/s/tip" .copy = .ok (mem, [], SNAPSHOT_VERSION)) ∧
    ∀ r, loadSnapshotChainWith Crc32.ieee (tipHost (pagesTip []) bareBase) "/s/tip" .map ≠
      .ok r := by
  have hbase : ZeroBase bareBase (bareLayout (zeroRam 1)) :=
    ⟨rfl, layoutOf_bareLayout _, by decide, rfl⟩
  have he : EntriesOk [] := ⟨by decide, by simp, by decide⟩
  obtain ⟨chain, restored, hchain, _, hpath, _, hload⟩ := load_pagesTip hbase he (by simp)
  refine ⟨⟨restored.mem, hload⟩, ?_⟩
  intro r hr
  obtain ⟨file, hopen, _, hpage⟩ := readChain_mode (tipHost_maps _ _) hchain
  rw [hpath, open_base _ hbase.regular] at hopen
  cases hopen
  simp only [loadSnapshotChainWith, bind_eq_ok] at hr
  obtain ⟨c, hc, _⟩ := hr
  have h32 := hpage c hc
  revert h32
  decide

end Tarit.Snapshot
