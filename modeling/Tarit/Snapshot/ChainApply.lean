import Tarit.Snapshot.RoundTrip

/-!
# The loaded image and the diffs applied in order

A loaded chain is compared with `tryApplyDiffs`: the base, then every diff from the
oldest on, every entry in file order. Byte by byte the two agree exactly when the entry
the tip-first walk leaves standing holds the byte of the newest entry. Diffs of whole,
separate pages, as the writer makes them, always agree; entries that repeat a page or do
not start on one need not.
-/
namespace Tarit.Snapshot

open Lib List

def Chain.oldestFirst (chain : Chain) : List (List (Nat × Bytes)) :=
  (chain.diffs.map (·.2.2.entries)).reverse

/-- The writes at byte `i`, diff by diff from the tip on. -/
def Chain.writesAt (chain : Chain) (i : Nat) : List (List (Reach × UInt8)) :=
  chain.diffs.map (·.2.2.writesAt i)

/-- What the walk leaves at byte `i` is what the newest entry over it holds: the last
entry of the newest diff that writes the byte. -/
def Chain.NewestStands (chain : Chain) (i : Nat) : Prop :=
  survivor (chain.writesAt i).flatten = (chain.writesAt i).reverse.flatten.getLast?.map Prod.snd

instance (chain : Chain) (i : Nat) : Decidable (chain.NewestStands i) :=
  inferInstanceAs (Decidable (_ = _))

variable {Hasher : Type} {crc : Crc32 Hasher} {host : Host} {root path : String}
  {ram_load : RamLoad} {chain : Chain}

/-- What a chain the loader followed consists of. -/
structure Chain.Ok (chain : Chain) : Prop where
  accepted : ∀ d ∈ chain.diffs, d.2.2.Accepted
  size : chain.mem.size_bytes ≤ MAX_MEMORY_BYTES

theorem followChain_ok (fuel : Nat) {seen : List String} {cur : String} {total : Nat}
    {diffs : List (Nat × Bytes × ChainDiff)} {chain : Chain}
    (hd : ∀ d ∈ diffs, d.2.2.Accepted)
    (h : followChain crc host root ram_load fuel seen cur total diffs = .ok chain) :
    chain.Ok := by
  induction fuel generalizing seen cur total diffs with
  | zero => cases h
  | succ fuel ih =>
    simp only [followChain, bind_eq_ok] at h
    obtain ⟨_, _, content, hread, h⟩ := h
    rcases readSnapshotWith_ok hread with ⟨mem, state, version, rfl, _, hsize⟩ |
      ⟨parent, state, version, pages, rfl⟩ |
      ⟨parent, state, version, file, data_offset, runs, rfl, hok⟩
    · cases h
      exact ⟨hd, hsize⟩
    · simp only [bind_eq_ok] at h
      obtain ⟨next, _, h⟩ := h
      refine ih (forall_mem_append.mpr ⟨hd, forall_mem_singleton.mpr ?_⟩) h
      trivial
    · refine ih (forall_mem_append.mpr ⟨hd, forall_mem_singleton.mpr ?_⟩) h
      exact hok

theorem readChain_ok {chain : Chain} (h : readChain crc host path ram_load = .ok chain) :
    chain.Ok := by
  simp only [readChain, bind_eq_ok, Prod.exists] at h
  obtain ⟨tip, root, _, h⟩ := h
  exact followChain_ok MAX_DIFF_CHAIN_DEPTH (by simp) h

theorem map_snd_entryAt (entries : List (Nat × Bytes)) (i : Nat) :
    (entries.filterMap (entryAt i)).map Prod.snd = entries.filterMap (patchAt · i) := by
  rw [map_filterMap]
  congr 1
  funext p
  simp [entryAt, Option.map_map, Function.comp_def]

theorem filterMap_oldestFirst (chain : Chain) (i : Nat) :
    chain.oldestFirst.flatten.filterMap (patchAt · i) =
      (chain.writesAt i).reverse.flatten.map Prod.snd := by
  rw [← map_snd_entryAt, Chain.oldestFirst, Chain.writesAt, filterMap_flatten,
    map_reverse, map_map]
  rfl

/-- The restored image is the diffs applied in order exactly where at every byte the
newest entry stands. -/
theorem restored_iff_newestStands (hok : chain.Ok) {restored : Restoring}
    (h : restoreDiffs host ram_load (chain.diffs.map (·.2.2))
      { mem := chain.mem, covered := fun _ => false } = .ok restored)
    (tryReserve : Nat → Bool) :
    tryApplyDiffs tryReserve chain.mem.bytes chain.oldestFirst = .ok restored.mem.bytes ↔
      ∀ i, chain.NewestStands i := by
  have haccepted : ∀ d ∈ chain.diffs.map (·.2.2), d.Accepted := by
    intro d hd
    obtain ⟨e, he, rfl⟩ := mem_map.mp hd
    exact hok.accepted e he
  obtain ⟨hsize, hin, hview⟩ := restoreDiffs_view haccepted h
  have hinside : ∀ p ∈ chain.oldestFirst.flatten, p.1 + p.2.length ≤ chain.mem.bytes.length := by
    intro p hp
    simp only [Chain.oldestFirst, mem_flatten, mem_reverse, mem_map] at hp
    obtain ⟨_, ⟨d, hd, rfl⟩, hp⟩ := hp
    exact hin d.2.2 (mem_map.mpr ⟨d, hd, rfl⟩) p hp
  have hbound : chain.mem.bytes.length ≤ MAX_DIFF_APPLY_BYTES := le_trans hok.size (by decide)
  have hbyte : ∀ i, restored.mem.bytes[i]? =
      (survivor (chain.writesAt i).flatten).or chain.mem.bytes[i]? := by
    intro i
    have hfold := congrArg Prod.fst (hview i)
    rw [flatMap_map, flatMap_def] at hfold
    change restored.mem.bytes[i]? =
      (List.foldl coverStep (chain.mem.bytes[i]?, false) (chain.writesAt i).flatten).1 at hfold
    rw [hfold, foldl_coverStep]
  rw [tryApplyDiffs_of_inside hbound hinside, Except.ok.injEq, List.ext_getElem?_iff]
  apply forall_congr'
  intro i
  rw [getElem?_overlay hinside, filterMap_oldestFirst, List.getLast?_map, hbyte i]
  unfold Chain.NewestStands
  -- Both sides name a write, or there is none at all and the base shows through.
  cases hs : survivor (chain.writesAt i).flatten with
  | none =>
    have hnil := survivor_eq_none_iff.mp hs
    have hrev : (chain.writesAt i).reverse.flatten = [] := by
      rw [flatten_eq_nil_iff] at hnil ⊢
      intro l hl
      exact hnil l (mem_reverse.mp hl)
    simp [hrev]
  | some b =>
    have hne : (chain.writesAt i).reverse.flatten ≠ [] := by
      intro hrev
      have hnil : (chain.writesAt i).flatten = [] := by
        rw [flatten_eq_nil_iff] at hrev ⊢
        intro l hl
        exact hrev l (mem_reverse.mpr hl)
      rw [hnil] at hs
      cases hs
    obtain ⟨w, hw⟩ := Option.isSome_iff_exists.mp (List.getLast?_isSome.mpr hne)
    rw [hw]
    simp [eq_comm]

/-- Entries of whole pages that do not overlap. -/
structure ChainDiff.Paged (diff : ChainDiff) : Prop where
  whole : ∀ p ∈ diff.entries, p.1 % DIFF_PAGE_BYTES = 0 ∧ p.2.length % DIFF_PAGE_BYTES = 0
  apart : diff.entries.Pairwise fun p q => p.1 + p.2.length ≤ q.1 ∨ q.1 + q.2.length ≤ p.1

theorem ChainDiff.Paged.reach {diff : ChainDiff} (h : diff.Paged) {i : Nat}
    {w : Reach × UInt8} (hw : w ∈ diff.writesAt i) : w.1 = .whole := by
  obtain ⟨p, hp, hat⟩ := mem_filterMap.mp hw
  obtain ⟨hal, hlen⟩ := h.whole p hp
  simp only [entryAt, Option.map_eq_some_iff] at hat
  obtain ⟨v, hv, rfl⟩ := hat
  have hin := range_of_patchAt hv
  unfold reachOf
  rw [if_neg (by simpa using hal), if_pos]
  simp only [DIFF_PAGE_BYTES] at *
  omega

theorem length_filterMap_le_one {entries : List (Nat × Bytes)}
    (h : entries.Pairwise fun p q => p.1 + p.2.length ≤ q.1 ∨ q.1 + q.2.length ≤ p.1) (i : Nat) :
    (entries.filterMap (entryAt i)).length ≤ 1 := by
  induction entries with
  | nil => simp
  | cons p entries ih =>
    obtain ⟨hp, htail⟩ := pairwise_cons.mp h
    cases hat : patchAt p i with
    | none =>
      rw [filterMap_cons_none (by simp [entryAt, hat])]
      exact ih htail
    | some v =>
      have hin := range_of_patchAt hat
      have hnil : entries.filterMap (entryAt i) = [] := by
        rw [filterMap_eq_nil_iff]
        intro q hq
        have hout := hp q hq
        have hnone : patchAt q i = none := patchAt_eq_none_iff.mpr (by omega)
        simp [entryAt, hnone]
      rw [filterMap_cons_some (b := (reachOf p i, v)) (by simp [entryAt, hat]), hnil]
      simp

/-- Diffs of whole, separate pages: the newest entry stands at every byte. -/
theorem newestStands_of_paged (h : ∀ d ∈ chain.diffs, d.2.2.Paged) (i : Nat) :
    chain.NewestStands i := by
  have hwhole : ∀ w ∈ (chain.writesAt i).flatten, w.1 = .whole := by
    intro w hw
    obtain ⟨l, hl, hw⟩ := mem_flatten.mp hw
    obtain ⟨d, hd, rfl⟩ := mem_map.mp hl
    exact (h d hd).reach hw
  have hone : ∀ l ∈ chain.writesAt i, l.length ≤ 1 := by
    intro l hl
    obtain ⟨d, hd, rfl⟩ := mem_map.mp hl
    exact length_filterMap_le_one (h d hd).apart i
  unfold Chain.NewestStands
  rw [survivor_of_all_whole hwhole, getLast?_reverse_flatten hone]

theorem runEntries_shape {file : File} {data_offset : Nat} {runs : List (Nat × Nat)}
    (data_page : Nat)
    (hfile : data_offset + (data_page + dataPages runs) * DIFF_PAGE_BYTES ≤ file.len) :
    (runEntries file data_offset runs data_page).map (fun p => (p.1, p.2.length)) =
      runs.map fun r => (r.1, r.2 * DIFF_PAGE_BYTES) := by
  induction runs generalizing data_page with
  | nil => rfl
  | cons r runs ih =>
    have hsum := data_cons_le hfile
    have hlen : (slice file.bytes (data_offset + data_page * DIFF_PAGE_BYTES)
        (r.2 * DIFF_PAGE_BYTES)).length = r.2 * DIFF_PAGE_BYTES :=
      slice_length (by unfold File.len at hsum; omega)
    rw [runEntries, map_cons, map_cons, hlen, ih (data_page + r.2)]
    rw [add_mul, add_mul]
    omega

/-- A loaded chain gives the memory of its diffs applied oldest first, each entry in file
order, exactly when at every byte the entry left standing holds the newest byte. -/
theorem loaded_iff_newestStands {mem : GuestMemory} {state : Bytes} {version : Nat}
    (h : loadSnapshotChainWith crc host path ram_load = .ok (mem, state, version)) :
    ∃ chain, readChain crc host path ram_load = .ok chain ∧ ∀ tryReserve,
      (tryApplyDiffs tryReserve chain.mem.bytes chain.oldestFirst = .ok mem.bytes ↔
        ∀ i, chain.NewestStands i) := by
  simp only [loadSnapshotChainWith, bind_eq_ok, pure_eq_ok, Except.ok.injEq, Prod.mk.injEq] at h
  obtain ⟨chain, hchain, restored, hrestore, rfl, _, _⟩ := h
  exact ⟨chain, hchain, restored_iff_newestStands (readChain_ok hchain) hrestore⟩

/-- Diffs, tip first, of a guest that had RAM `base`, and its RAM at the tip: each holds the pages
that were dirty; the others are as in the parent. -/
inductive Incremental (base : Bytes) : List ChainDiff → Bytes → Prop where
  | base : Incremental base [] base
  | diff {diffs : List ChainDiff} {diff : ChainDiff} {ram ram' : Bytes} {dirty : DirtyBitmap}
      (hparent : Incremental base diffs ram) (hpaged : diff.Paged)
      (hwrites : ∀ i, diff.entries.filterMap (patchAt · i) =
        if i / DIFF_PAGE_BYTES ∈ dirty ∧ i < ram'.length then [peek ram' i] else [])
      (hclean : ∀ i, ¬ (i / DIFF_PAGE_BYTES ∈ dirty ∧ i < ram'.length) → ram'[i]? = ram[i]?) :
      Incremental base (diff :: diffs) ram'

theorem Incremental.newest {base ram : Bytes} {diffs : List ChainDiff}
    (h : Incremental base diffs ram) (i : Nat) :
    (∀ w ∈ diffs.flatMap (·.writesAt i), w.1 = .whole) ∧
      ((diffs.flatMap (·.writesAt i)).head?.map Prod.snd).or base[i]? = ram[i]? := by
  induction h with
  | base => simp
  | @diff diffs diff ram ram' dirty _ hpaged hwrites hclean ih =>
    rw [flatMap_cons]
    refine ⟨forall_mem_append.mpr ⟨fun w => hpaged.reach, ih.1⟩, ?_⟩
    have hdiff : (diff.writesAt i).map Prod.snd = _ := (map_snd_entryAt ..).trans (hwrites i)
    rw [← head?_map, map_append, hdiff]
    split
    · next hin => simp [peek_eq_getElem?, List.getElem?_eq_getElem hin.2]
    · next hout => rw [nil_append, head?_map, ih.2, hclean i hout]

/-- A diff that holds one page, which was dirty. -/
theorem Incremental.page {base page : Bytes} {k : Nat} (hlength : page.length = DIFF_PAGE_BYTES)
    (hin : k * DIFF_PAGE_BYTES + page.length ≤ base.length) :
    Incremental base [.pages [(k * DIFF_PAGE_BYTES, page)]]
      (copyAt base (k * DIFF_PAGE_BYTES) page) := by
  have hbyte := getElem?_copyAt_patch (p := (k * DIFF_PAGE_BYTES, page)) hin
  have hsize := copyAt_length hin
  have hdirty (i : Nat) : i / DIFF_PAGE_BYTES = k ↔
      patchAt (k * DIFF_PAGE_BYTES, page) i ≠ none := by
    rw [ne_eq, patchAt_eq_none_iff]
    unfold DIFF_PAGE_BYTES at *
    dsimp only
    omega
  have hpaged : (ChainDiff.pages [(k * DIFF_PAGE_BYTES, page)]).Paged :=
    ⟨by simp [ChainDiff.entries, hlength], by simp [ChainDiff.entries]⟩
  refine @Incremental.diff _ _ _ _ _ {k} .base hpaged (fun i => ?_) fun i hclean => ?_
  · simp only [ChainDiff.entries, filterMap_cons, filterMap_nil, Finset.mem_singleton, hdirty]
    cases hat : patchAt (k * DIFF_PAGE_BYTES, page) i with
    | none => simp
    | some v =>
      have hrange := range_of_patchAt hat
      dsimp only at hrange
      rw [if_pos ⟨by simp, by omega⟩, peek_eq_getElem?, hbyte, hat]
      rfl
  · have hnone : patchAt (k * DIFF_PAGE_BYTES, page) i = none := by
      by_contra hat
      obtain ⟨v, hv⟩ := Option.ne_none_iff_exists'.mp hat
      have hrange := range_of_patchAt hv
      dsimp only at hrange
      exact hclean ⟨Finset.mem_singleton.mpr ((hdirty i).mpr hat), by omega⟩
    rw [hbyte, hnone, Option.none_or]

/-- A chain of incremental snapshots loads the RAM of its tip. -/
theorem loaded_incremental {mem : GuestMemory} {state : Bytes} {version : Nat}
    (h : loadSnapshotChainWith crc host path ram_load = .ok (mem, state, version)) :
    ∃ chain, readChain crc host path ram_load = .ok chain ∧
      ∀ ram, Incremental chain.mem.bytes (chain.diffs.map (·.2.2)) ram → mem.bytes = ram := by
  simp only [loadSnapshotChainWith, bind_eq_ok, pure_eq_ok, Except.ok.injEq, Prod.mk.injEq] at h
  obtain ⟨chain, hchain, restored, hrestore, rfl, _, _⟩ := h
  refine ⟨chain, hchain, fun ram hram => ext_getElem? fun i => ?_⟩
  obtain ⟨_, _, hview⟩ := restoreDiffs_view
    (forall_mem_map.mpr (readChain_ok hchain).accepted) hrestore
  have hbyte := congrArg Prod.fst (hview i)
  change restored.mem.bytes[i]? = (foldl coverStep (chain.mem.bytes[i]?, false) _).1 at hbyte
  obtain ⟨hwhole, hnewest⟩ := hram.newest i
  rw [hbyte, foldl_coverStep, survivor_of_all_whole hwhole]
  exact hnewest

section Directory

variable {tip base : File} {state_blob tip_state mem : Bytes} {layout : SnapshotWriteLayout}
  {pages : List (Nat × Bytes)}

theorem canonical_tip (htip : tip.regular = true) :
    canonicalSnapshotTip (tipHost tip base) "/s/tip" = .ok ("/s/tip", "/s") := by
  have hfile : (tipHost tip base).isFile "/s/tip" = .ok true := by
    have : (tipHost tip base).isFile "/s/tip" = .ok tip.regular := rfl
    rw [this, htip]
  have hcanon : (tipHost tip base).canonicalize "/s/tip" = .ok "/s/tip" := rfl
  have hroot : parentDir "/s/tip" = some "/s" := by decide
  simp only [canonicalSnapshotTip, hfile, hcanon, hroot, okOr_some, ok_bind, pure_eq_ok]

theorem open_base (tip : File) (h : base.regular = true) :
    openSnapshotInput (tipHost tip base) "/s/base" = .ok base := by
  have hopen : (tipHost tip base).openFile "/s/base" = .ok base := rfl
  rw [openSnapshotInput, hopen]
  simp [h]

theorem foldlM_budget {total : Nat} (h : total + payloadBytes pages ≤ MAX_EAGER_DIFF_BYTES) :
    pages.foldlM (fun total page => validateDiffPayloadBudget total page.2.length) total =
      .ok (total + payloadBytes pages) := by
  induction pages generalizing total with
  | nil => rfl
  | cons p pages ih =>
    have hsum : payloadBytes (p :: pages) = p.2.length + payloadBytes pages := rfl
    rw [foldlM_cons, validateDiffPayloadBudget_of_le (by omega), ok_bind, ih (by omega), hsum,
      add_assoc]

theorem readChain_tip (ram_load : RamLoad) (htip : tip.regular = true) (hbase : base.regular = true)
    (hlay : LayoutOf crc state_blob mem.length false layout)
    (hstate : layout.state_len ≤ MAX_SNAPSHOT_STATE_BYTES)
    (hmem : MIB ≤ mem.length ∧ mem.length ≤ MAX_MEMORY_BYTES ∧ mem.length % MIB = 0)
    (himage : base.bytes = fullImage crc layout state_blob mem)
    (hpage : ram_load = .map → layout.mem_offset % 4096 = 0)
    (htipstate : tip_state.length ≤ MAX_SNAPSHOT_STATE_BYTES) (he : EntriesOk pages)
    (hdiff : tip.bytes = legacyDiff crc "/s/base" tip_state pages) :
    ∃ m : GuestMemory, readChain crc (tipHost tip base) "/s/tip" ram_load =
      .ok { mem := m, base_state := layout.paddedState state_blob
            base_version := SNAPSHOT_VERSION, base_path := "/s/base"
            diffs := [(SNAPSHOT_VERSION, tip_state, .pages pages)] } ∧ m.bytes = mem := by
  have hm := tipHost_maps tip base
  have hdepth : MAX_DIFF_CHAIN_DEPTH = 1022 + 1 + 1 := rfl
  have htipread : readSnapshotWith crc (tipHost tip base) "/s/tip" "/s" ram_load =
      .ok (.diff "/s/base" tip_state SNAPSHOT_VERSION pages) := by
    rw [readSnapshotWith_diff (open_tip base htip) (by rw [hdiff, legacyDiff])]
    exact readDiff_legacyDiff "/s/tip" (by decide) htipstate he (resolve_base hbase) hdiff
  obtain ⟨m, hread, hbytes⟩ := readFull_fullImage hlay "/s/base" hm hstate hmem himage
    ram_load hpage
  have hbaseread : readSnapshotWith crc (tipHost tip base) "/s/base" "/s" ram_load =
      .ok (.full m (layout.paddedState state_blob) SNAPSHOT_VERSION) := by
    rw [readSnapshotWith_full (open_base tip hbase) (by rw [himage, fullImage_parts]), hread]
  have hbudget := he.budget
  refine ⟨m, ?_, hbytes⟩
  rw [readChain, canonical_tip htip]
  simp only [ok_bind]
  rw [hdepth, followChain, refuse_of_not (by simp), ok_bind, htipread]
  simp only [ok_bind]
  rw [foldlM_budget (by omega), ok_bind, followChain, refuse_of_not (by decide), ok_bind, hbaseread]
  rfl

theorem restorePages_isOk {s : Restoring} (hu : s.mem.size_bytes < u64Size)
    (h : ∀ p ∈ pages, p.1 + p.2.length ≤ s.mem.size_bytes) :
    ∃ s', restorePages pages s = .ok s' := by
  induction pages generalizing s with
  | nil => exact ⟨s, rfl⟩
  | cons p pages ih =>
    have hp := h p (by simp)
    obtain ⟨hsz, _⟩ := restoreChunks_view p.2.length 0 p.2 s (le_refl _)
      (show p.1 + 0 * DIFF_PAGE_BYTES + p.2.length ≤ s.mem.size_bytes by omega)
    obtain ⟨s', hs'⟩ := ih (s := restoreChunks p.1 0 (chunks DIFF_PAGE_BYTES p.2) s)
      (by rw [chunks, hsz]; exact hu)
      (by intro q hq; rw [chunks, hsz]; exact h q (by simp [hq]))
    refine ⟨s', ?_⟩
    rw [restorePages, validateDiffPageRange, checkedAdd_of_lt (by omega), okOr_some, ok_bind,
      refuse_of_not (by omega), ok_bind, hs']

/-- A diff over a base of one MiB of zeros. -/
def pagesTip (pages : List (Nat × Bytes)) : File :=
  { freshFile 2 with bytes := legacyDiff Crc32.ieee "/s/base" [] pages }

/-- A full image of one MiB of zeros without state. -/
structure ZeroBase (base : File) (layout : SnapshotWriteLayout) : Prop where
  regular : base.regular = true
  fields : LayoutOf Crc32.ieee [] (zeroRam 1).length false layout
  state : layout.state_len ≤ MAX_SNAPSHOT_STATE_BYTES
  image : base.bytes = fullImage Crc32.ieee layout [] (zeroRam 1)

/-- The program's own writer makes such a base, its RAM on a page boundary. -/
theorem writtenBase : ∃ base layout,
    writeSnapshotToFile Crc32.ieee (freshFile 1) [] (zeroRam 1) none false = .ok base ∧
      ZeroBase base layout ∧ layout.mem_offset % 4096 = 0 := by
  obtain ⟨base, layout, hw, hnew, hreg⟩ := writeSnapshotToFile_isOk .ieee (freshFile 1)
    [] (zeroRam 1) none false (by decide)
  have hlay := layoutOf_of_new hnew
  obtain ⟨hpad, hpage⟩ := page_of_new hnew
  refine ⟨base, layout, hw, ⟨hreg.trans rfl, hlay, ?_, ?_⟩, hpage⟩
  · rw [hlay.state_len, length_nil]
    simp only [MAX_SNAPSHOT_STATE_BYTES]
    omega
  · exact writeSnapshotToFile_bytes unpopulated_none hnew hw

/-- The chain of a zero base and the given entries, followed and loaded. -/
theorem load_pagesTip (hbase : ZeroBase base layout) (he : EntriesOk pages)
    (hin : ∀ p ∈ pages, p.1 + p.2.length ≤ MIB) :
    ∃ chain restored,
      readChain Crc32.ieee (tipHost (pagesTip pages) base) "/s/tip" .copy = .ok chain ∧
      chain.diffs = [(SNAPSHOT_VERSION, [], .pages pages)] ∧ chain.base_path = "/s/base" ∧
      restoreDiffs (tipHost (pagesTip pages) base) .copy (chain.diffs.map (·.2.2))
        { mem := chain.mem, covered := fun _ => false } = .ok restored ∧
      loadSnapshotChainWith Crc32.ieee (tipHost (pagesTip pages) base) "/s/tip" .copy =
        .ok (restored.mem, [], SNAPSHOT_VERSION) := by
  obtain ⟨m, hchain, hbytes⟩ := readChain_tip .copy (rfl : (pagesTip pages).regular = true)
    hbase.regular hbase.fields hbase.state (by rw [zeroRam_length]; decide) hbase.image (by simp)
    (by decide) he rfl
  obtain ⟨restored, hrestored⟩ := restorePages_isOk
    (s := { mem := m, covered := fun _ => false })
    (show m.bytes.length < u64Size by rw [hbytes, zeroRam_length]; decide)
    (show ∀ p ∈ pages, p.1 + p.2.length ≤ m.bytes.length by
      intro p hp
      rw [hbytes, zeroRam_length, one_mul]
      exact hin p hp)
  have hrestore : restoreDiffs (tipHost (pagesTip pages) base) .copy [.pages pages]
      { mem := m, covered := fun _ => false } = .ok restored := by
    simp only [restoreDiffs, restoreDiff, hrestored, ok_bind]
  refine ⟨_, restored, hchain, rfl, rfl, hrestore, ?_⟩
  rw [loadSnapshotChainWith, hchain, ok_bind]
  simp only [map_cons, map_nil, hrestore, ok_bind]
  rfl

def filledPage (b : UInt8) : Bytes := List.replicate DIFF_PAGE_BYTES b

theorem filledPage_length (b : UInt8) : (filledPage b).length = DIFF_PAGE_BYTES := by
  simp [filledPage]

theorem entriesOk_filledPage : EntriesOk [(4096, filledPage 9)] :=
  ⟨by decide, by simp [filledPage_length]; decide,
    by simp [payloadBytes, filledPage_length]; decide⟩

theorem loaded_single_page :
    ∃ base, ∃ chain : Chain, ∃ mem : GuestMemory,
      writeSnapshotToFile Crc32.ieee (freshFile 1) [] (zeroRam 1) none false = .ok base ∧
      loadSnapshotChainWith Crc32.ieee
        (tipHost (pagesTip [(4096, filledPage 9)]) base) "/s/tip" .copy =
          .ok (mem, [], SNAPSHOT_VERSION) ∧
      chain.oldestFirst = [[(4096, filledPage 9)]] ∧
      tryApplyDiffs (fun _ => true) chain.mem.bytes chain.oldestFirst = .ok mem.bytes := by
  obtain ⟨base, layout, hw, hbase, _⟩ := writtenBase
  obtain ⟨chain, restored, hchain, hdiffs, _, _, hload⟩ := load_pagesTip hbase
    entriesOk_filledPage (by simp [filledPage_length]; decide)
  obtain ⟨chain', hchain', hiff⟩ := loaded_iff_newestStands hload
  obtain rfl : chain = chain' := Except.ok.inj (hchain.symm.trans hchain')
  have hpaged : ∀ d ∈ chain.diffs, d.2.2.Paged := by
    rw [hdiffs]
    intro d hd
    obtain rfl := mem_singleton.mp hd
    exact ⟨by simp [ChainDiff.entries, filledPage_length]; decide, by simp [ChainDiff.entries]⟩
  refine ⟨base, chain, restored.mem, hw, hload, ?_, (hiff _).mpr (newestStands_of_paged hpaged)⟩
  simp [Chain.oldestFirst, hdiffs, ChainDiff.entries]

/-- A page that a diff repeats: the walk keeps its first copy, applying the diff keeps its
last. -/
theorem loaded_repeated_page_differs :
    ∃ base, ∃ chain : Chain, ∃ mem : GuestMemory,
      writeSnapshotToFile Crc32.ieee (freshFile 1) [] (zeroRam 1) none false = .ok base ∧
      readChain Crc32.ieee (tipHost (pagesTip [(0, filledPage 1),
        (0, filledPage 2)]) base) "/s/tip" .copy = .ok chain ∧
      loadSnapshotChainWith Crc32.ieee (tipHost (pagesTip [(0, filledPage 1),
        (0, filledPage 2)]) base) "/s/tip" .copy = .ok (mem, [], SNAPSHOT_VERSION) ∧
      tryApplyDiffs (fun _ => true) chain.mem.bytes chain.oldestFirst ≠ .ok mem.bytes := by
  have he : EntriesOk [(0, filledPage 1), (0, filledPage 2)] :=
    ⟨by decide, by simp [filledPage_length]; decide,
      by simp [payloadBytes, filledPage_length]; decide⟩
  obtain ⟨base, layout, hw, hbase, _⟩ := writtenBase
  obtain ⟨chain, restored, hchain, hdiffs, _, hrestore, hload⟩ :=
    load_pagesTip hbase he (by simp [filledPage_length]; decide)
  refine ⟨base, chain, restored.mem, hw, hchain, hload, ?_⟩
  rw [ne_eq, restored_iff_newestStands (readChain_ok hchain) hrestore]
  intro hall
  have hzero := hall 0
  simp only [Chain.NewestStands, Chain.writesAt, hdiffs] at hzero
  revert hzero
  decide +kernel

/-- A page was written since the base. -/
theorem loaded_incremental_page :
    ∃ host, ∃ chain : Chain, ∃ mem : GuestMemory,
      readChain Crc32.ieee host "/s/tip" .copy = .ok chain ∧
      loadSnapshotChainWith Crc32.ieee host "/s/tip" .copy = .ok (mem, [], SNAPSHOT_VERSION) ∧
      mem.bytes = copyAt chain.mem.bytes 4096 (filledPage 9) := by
  obtain ⟨base, layout, _, hbase, _⟩ := writtenBase
  obtain ⟨chain, restored, hread, hdiffs, _, hrestore, hload⟩ := load_pagesTip hbase
    entriesOk_filledPage (by simp [filledPage_length]; decide)
  obtain ⟨_, hchain, hram⟩ := loaded_incremental hload
  cases hread.symm.trans hchain
  rw [hdiffs] at hrestore hram
  refine ⟨_, chain, restored.mem, hchain, hload, hram _ ?_⟩
  have hlength := filledPage_length 9
  generalize filledPage 9 = page at hrestore hlength ⊢
  have hin : 4096 + page.length ≤ chain.mem.bytes.length :=
    (restoreDiffs_view (by simp [ChainDiff.Accepted]) hrestore).2.1 _ (.head _) _ (.head _)
  exact Incremental.page (k := 1) hlength hin

end Directory

end Tarit.Snapshot
