import Tarit.Snapshot.Chain

/-!
# What the tip-first walk leaves at each byte

The loader's walk is read one byte at a time: a byte and the covered bit of its page
change exactly as `coverStep` says, entry by entry. From that the loaded image is
compared with the diffs applied oldest first.
-/
namespace Tarit.Snapshot

open Lib List

/-- A byte of the image being rebuilt and the covered bit of its page. -/
def Restoring.view (s : Restoring) (i : Nat) : Option UInt8 × Bool :=
  (s.mem.bytes[i]?, s.covered (i / DIFF_PAGE_BYTES))

/-- How an entry meets the page of byte `i`. -/
def reachOf (p : Nat × Bytes) (i : Nat) : Reach :=
  if p.1 % DIFF_PAGE_BYTES ≠ 0 then .loose
  else if (i / DIFF_PAGE_BYTES + 1) * DIFF_PAGE_BYTES ≤ p.1 + p.2.length then .whole
  else .short

/-- The write an entry makes at byte `i`, if it reaches it. -/
def entryAt (i : Nat) (p : Nat × Bytes) : Option (Reach × UInt8) :=
  (patchAt p i).map fun v => (reachOf p i, v)

/-- The entries of a run table, each run with its bytes of the data area. -/
def runEntries (file : File) (data_offset : Nat) : List (Nat × Nat) → Nat → List (Nat × Bytes)
  | [], _ => []
  | (offset, pages) :: runs, data_page =>
    (offset, slice file.bytes (data_offset + data_page * DIFF_PAGE_BYTES)
      (pages * DIFF_PAGE_BYTES)) :: runEntries file data_offset runs (data_page + pages)

def ChainDiff.entries : ChainDiff → List (Nat × Bytes)
  | .pages ps => ps
  | .aligned file data_offset runs => runEntries file data_offset runs 0

/-- The writes of a diff at byte `i`, in file order. -/
def ChainDiff.writesAt (diff : ChainDiff) (i : Nat) : List (Reach × UInt8) :=
  diff.entries.filterMap (entryAt i)

/-- The effect of one entry on the byte at `i` and its page. -/
def entryStep (v : Option UInt8 × Bool) (i : Nat) (p : Nat × Bytes) : Option UInt8 × Bool :=
  match entryAt i p with
  | none => v
  | some w => coverStep v w

variable {i pages first k n : Nat} {v : Option UInt8 × Bool} {s s' : Restoring} {a : Bytes}

theorem entryStep_of_none {p : Nat × Bytes} (h : patchAt p i = none) : entryStep v i p = v := by
  simp [entryStep, entryAt, h]

theorem entryStep_of_some {p : Nat × Bytes} {b : UInt8} (h : patchAt p i = some b) :
    entryStep v i p = coverStep v (reachOf p i, b) := by
  simp [entryStep, entryAt, h]

def restoreChunk (pos : Nat) (chunk : Bytes) (s : Restoring) : Restoring :=
  if pos % DIFF_PAGE_BYTES = 0 ∧ s.covered (pos / DIFF_PAGE_BYTES) = true then s
  else if pos % DIFF_PAGE_BYTES = 0 ∧ chunk.length = DIFF_PAGE_BYTES then
    { s.write pos chunk with covered := cover s.covered (pos / DIFF_PAGE_BYTES) }
  else s.write pos chunk

theorem restoreChunks_cons (start index : Nat) (chunk : Bytes) (rest : List Bytes) (s : Restoring) :
    restoreChunks start index (chunk :: rest) s = restoreChunks start (index + 1) rest
      (restoreChunk (start + index * DIFF_PAGE_BYTES) chunk s) := by
  simp only [restoreChunks, restoreChunk]
  split
  · rfl
  · split <;> rfl

theorem restoreChunk_size {pos : Nat} {chunk : Bytes} (h : pos + chunk.length ≤ s.mem.size_bytes) :
    (restoreChunk pos chunk s).mem.size_bytes = s.mem.size_bytes := by
  unfold restoreChunk
  split
  · rfl
  · split <;> exact copyAt_length h

/-- A chunk no longer than a page acts on each byte as an entry of its own. -/
theorem restoreChunk_view {pos : Nat} {chunk : Bytes} (h : pos + chunk.length ≤ s.mem.size_bytes)
    (hc : chunk.length ≤ DIFF_PAGE_BYTES) (i : Nat) :
    (restoreChunk pos chunk s).view i = entryStep (s.view i) i (pos, chunk) := by
  have hwrite : (copyAt s.mem.bytes pos chunk)[i]? = (patchAt (pos, chunk) i).or s.mem.bytes[i]? :=
    getElem?_copyAt_patch (p := (pos, chunk)) h i
  cases hp : patchAt (pos, chunk) i with
  | none =>
    -- The byte lies outside the chunk; a page is covered only by a chunk that fills it.
    have hout : i < pos ∨ pos + chunk.length ≤ i := patchAt_eq_none_iff.mp hp
    rw [entryStep_of_none hp]
    unfold restoreChunk
    split
    · rfl
    split
    · have hpage : i / DIFF_PAGE_BYTES ≠ pos / DIFF_PAGE_BYTES := by
        simp only [DIFF_PAGE_BYTES] at *
        omega
      simp [Restoring.view, Restoring.write, hwrite, hp, cover, hpage]
    · simp [Restoring.view, Restoring.write, hwrite, hp]
  | some b =>
    have hin : pos ≤ i ∧ i < pos + chunk.length := range_of_patchAt hp
    rw [entryStep_of_some hp]
    by_cases hal : pos % DIFF_PAGE_BYTES = 0
    · have hpage : i / DIFF_PAGE_BYTES = pos / DIFF_PAGE_BYTES := by
        simp only [DIFF_PAGE_BYTES] at *
        omega
      have hreach : reachOf (pos, chunk) i =
          if chunk.length = DIFF_PAGE_BYTES then .whole else .short := by
        unfold reachOf
        rw [if_neg (by simpa using hal)]
        congr 1
        simp only [DIFF_PAGE_BYTES, eq_iff_iff] at *
        omega
      rw [hreach]
      unfold restoreChunk
      cases hcov : s.covered (pos / DIFF_PAGE_BYTES) with
      | true =>
        rw [if_pos ⟨hal, rfl⟩]
        split <;> simp [Restoring.view, hpage, hcov, coverStep]
      | false =>
        rw [if_neg (by simp)]
        by_cases hfull : chunk.length = DIFF_PAGE_BYTES
        · rw [if_pos ⟨hal, hfull⟩, if_pos hfull]
          simp [Restoring.view, Restoring.write, hwrite, hp, hpage, hcov, coverStep, cover]
        · rw [if_neg (by simp [hfull]), if_neg hfull]
          simp [Restoring.view, Restoring.write, hwrite, hp, hpage, hcov, coverStep]
    · have hreach : reachOf (pos, chunk) i = .loose := if_pos hal
      rw [hreach]
      unfold restoreChunk
      rw [if_neg (by simp [hal]), if_neg (by simp [hal])]
      simp [Restoring.view, Restoring.write, hwrite, hp, coverStep]

/-- Whole pages and what follows them act as one entry. -/
theorem entryStep_append (pos : Nat) {b : Bytes} (ha : a.length % DIFF_PAGE_BYTES = 0) :
    entryStep (entryStep v i (pos, a)) i (pos + a.length, b) = entryStep v i (pos, a ++ b) := by
  have happ := patchAt_append pos i a b
  by_cases hin : i < pos + a.length
  · have hnone : patchAt (pos + a.length, b) i = none := patchAt_eq_none_iff.mpr (.inl hin)
    rw [entryStep_of_none hnone]
    rw [hnone, Option.or_none] at happ
    cases hp : patchAt (pos, a) i with
    | none => rw [entryStep_of_none hp, entryStep_of_none (happ.trans hp)]
    | some w =>
      have hreach : reachOf (pos, a) i = reachOf (pos, a ++ b) i := by
        simp only [reachOf, length_append]
        split
        · rfl
        have hend : (i / DIFF_PAGE_BYTES + 1) * DIFF_PAGE_BYTES ≤ pos + a.length := by
          simp only [DIFF_PAGE_BYTES] at *
          omega
        rw [if_pos hend, if_pos (by omega)]
      rw [entryStep_of_some hp, entryStep_of_some (happ.trans hp), hreach]
  · have hnone : patchAt (pos, a) i = none := patchAt_eq_none_iff.mpr (.inr (by dsimp only; omega))
    rw [entryStep_of_none hnone]
    rw [hnone, Option.none_or] at happ
    have hmod : (pos + a.length) % DIFF_PAGE_BYTES = pos % DIFF_PAGE_BYTES := by
      rw [Nat.add_mod, ha, add_zero, Nat.mod_mod]
    have hreach : reachOf (pos + a.length, b) i = reachOf (pos, a ++ b) i := by
      simp only [reachOf, length_append, hmod, add_assoc]
    simp only [entryStep, entryAt, happ, hreach]

/-- The chunk loop over an entry acts on each byte as the entry. -/
theorem restoreChunks_view {start : Nat} (fuel index : Nat) (data : Bytes) (s : Restoring)
    (hf : data.length ≤ fuel)
    (h : start + index * DIFF_PAGE_BYTES + data.length ≤ s.mem.size_bytes) :
    (restoreChunks start index (chunksFrom DIFF_PAGE_BYTES fuel data) s).mem.size_bytes =
        s.mem.size_bytes ∧
      ∀ i, (restoreChunks start index (chunksFrom DIFF_PAGE_BYTES fuel data) s).view i =
        entryStep (s.view i) i (start + index * DIFF_PAGE_BYTES, data) := by
  induction fuel generalizing index data s with
  | zero =>
    obtain rfl := eq_nil_of_length_eq_zero (Nat.le_zero.mp hf)
    exact ⟨rfl, fun i => (entryStep_of_none (by simp [patchAt])).symm⟩
  | succ fuel ih =>
    cases hd : data with
    | nil => exact ⟨rfl, fun i => (entryStep_of_none (by simp [patchAt])).symm⟩
    | cons b rest =>
      rw [← hd]
      have hchunks : chunksFrom DIFF_PAGE_BYTES (fuel + 1) data = data.take DIFF_PAGE_BYTES ::
          chunksFrom DIFF_PAGE_BYTES fuel (data.drop DIFF_PAGE_BYTES) := by rw [hd]; rfl
      have htake : (data.take DIFF_PAGE_BYTES).length = min DIFF_PAGE_BYTES data.length :=
        length_take
      have hdrop : (data.drop DIFF_PAGE_BYTES).length = data.length - DIFF_PAGE_BYTES :=
        length_drop
      have hpos : 0 < DIFF_PAGE_BYTES := by decide
      have hfit : start + index * DIFF_PAGE_BYTES + (data.take DIFF_PAGE_BYTES).length ≤
          s.mem.size_bytes := by omega
      have hsize := restoreChunk_size hfit
      rw [hchunks, restoreChunks_cons]
      by_cases hlong : DIFF_PAGE_BYTES ≤ data.length
      · have hnext : start + (index + 1) * DIFF_PAGE_BYTES + (data.drop DIFF_PAGE_BYTES).length ≤
            (restoreChunk (start + index * DIFF_PAGE_BYTES) (data.take DIFF_PAGE_BYTES)
              s).mem.size_bytes := by
          rw [hsize, hdrop, add_mul]
          omega
        obtain ⟨hsz, hview⟩ := ih (index + 1) _ _ (by omega) hnext
        refine ⟨hsz.trans hsize, fun i => ?_⟩
        have hfull : (data.take DIFF_PAGE_BYTES).length = DIFF_PAGE_BYTES := by omega
        have hidx : start + (index + 1) * DIFF_PAGE_BYTES =
            start + index * DIFF_PAGE_BYTES + (data.take DIFF_PAGE_BYTES).length := by
          rw [add_mul, hfull]
          omega
        rw [hview, restoreChunk_view hfit (by omega), hidx,
          entryStep_append _ (by rw [hfull, Nat.mod_self]), take_append_drop]
      · have hnil : data.drop DIFF_PAGE_BYTES = [] := drop_eq_nil_of_le (by omega)
        have hall : data.take DIFF_PAGE_BYTES = data := take_of_length_le (by omega)
        have hstop : chunksFrom DIFF_PAGE_BYTES fuel ([] : Bytes) = [] := by cases fuel <;> rfl
        rw [hnil, hstop]
        refine ⟨hsize, fun i => ?_⟩
        rw [restoreChunks, restoreChunk_view hfit (by omega), hall]

theorem foldl_entryStep (entries : List (Nat × Bytes)) (i : Nat) :
    entries.foldl (fun v p => entryStep v i p) v =
      (entries.filterMap (entryAt i)).foldl coverStep v := by
  induction entries generalizing v with
  | nil => rfl
  | cons p entries ih =>
    rw [foldl_cons, ih, entryStep]
    cases hp : entryAt i p <;> simp [hp]

theorem restorePages_view {pages : List (Nat × Bytes)} (h : restorePages pages s = .ok s') :
    s'.mem.size_bytes = s.mem.size_bytes ∧
      (∀ p ∈ pages, p.1 + p.2.length ≤ s.mem.size_bytes) ∧
      ∀ i, s'.view i = (pages.filterMap (entryAt i)).foldl coverStep (s.view i) := by
  induction pages generalizing s with
  | nil =>
    cases h
    exact ⟨rfl, by simp, fun i => rfl⟩
  | cons p pages ih =>
    simp only [restorePages, validateDiffPageRange, bind_eq_ok, okOr_eq_ok, refuse_eq_ok,
      checkedAdd_eq_some] at h
    obtain ⟨_, ⟨stop, ⟨_, rfl⟩, hstop⟩, hrest⟩ := h
    have hfit : p.1 + 0 * DIFF_PAGE_BYTES + p.2.length ≤ s.mem.size_bytes := by omega
    obtain ⟨hsz, hview⟩ := restoreChunks_view p.2.length 0 p.2 s (le_refl _) hfit
    obtain ⟨hsz', hin, hview'⟩ := ih hrest
    refine ⟨hsz'.trans hsz, ?_, fun i => ?_⟩
    · rw [chunks, hsz] at hin
      exact forall_mem_cons.mpr ⟨by omega, hin⟩
    · rw [hview' i, ← foldl_entryStep, ← foldl_entryStep, foldl_cons, chunks, hview i]
      simp

/-- The inner loop covers an uncovered stretch of the run that starts at `k`. -/
structure CoverRunSpec (first pages k : Nat) (covered : Nat → Bool) (r : Nat × (Nat → Bool)) :
    Prop where
  le_stop : k ≤ r.1
  stop_le : k ≤ pages → r.1 ≤ pages
  fresh : ∀ j, k ≤ j → j < r.1 → covered (first + j) = false
  covers : ∀ p, r.2 p = (covered p || decide (first + k ≤ p ∧ p < first + r.1))

theorem coverRun_spec (first pages fuel k : Nat) (covered : Nat → Bool) :
    CoverRunSpec first pages k covered (coverRun first pages fuel k covered) := by
  have hstay : ∀ k covered, CoverRunSpec first pages k covered (k, covered) := fun k covered =>
    ⟨le_refl _, id, fun j _ _ => by omega, fun p => by simp⟩
  induction fuel generalizing k covered with
  | zero => exact hstay k covered
  | succ fuel ih =>
    rw [coverRun]
    by_cases hk : k < pages ∧ covered (first + k) = false
    swap
    · rw [if_neg hk]
      exact hstay k covered
    rw [if_pos hk]
    have h := ih (k + 1) (cover covered (first + k))
    refine ⟨by have := h.le_stop; omega, fun _ => h.stop_le hk.1, ?_, ?_⟩
    · intro j hj hlt
      by_cases hkj : j = k
      · rw [hkj, hk.2]
      have hc := h.fresh j (by omega) hlt
      simp only [cover, Bool.or_eq_false_iff] at hc
      exact hc.2
    · intro p
      have hle := h.le_stop
      rw [h.covers p, cover]
      by_cases hp : p = first + k
      · simp [hp]
        omega
      · simp only [hp, decide_false, Bool.false_or]
        congr 1
        simp only [decide_eq_decide]
        omega

theorem coverRun_lt (fuel : Nat) {covered : Nat → Bool} (hf : 0 < fuel) (hk : k < pages)
    (hc : covered (first + k) = false) : k < (coverRun first pages fuel k covered).1 := by
  obtain ⟨fuel, rfl⟩ := Nat.exists_eq_succ_of_ne_zero (by omega : fuel ≠ 0)
  rw [coverRun, if_pos ⟨hk, hc⟩]
  have := (coverRun_spec first pages fuel (k + 1) (cover covered (first + k))).le_stop
  omega

theorem entryStep_of_covered {page : Nat} (hc : s.covered page = true)
    (ha : a.length = DIFF_PAGE_BYTES) :
    entryStep (s.view i) i (page * DIFF_PAGE_BYTES, a) = s.view i := by
  cases hp : patchAt (page * DIFF_PAGE_BYTES, a) i with
  | none => exact entryStep_of_none hp
  | some b =>
    have hin : page * DIFF_PAGE_BYTES ≤ i ∧ i < page * DIFF_PAGE_BYTES + a.length :=
      range_of_patchAt hp
    have hpage : i / DIFF_PAGE_BYTES = page := by
      simp only [DIFF_PAGE_BYTES] at *
      omega
    have hreach : reachOf (page * DIFF_PAGE_BYTES, a) i ≠ .loose := by
      unfold reachOf
      rw [if_neg (by simp)]
      split <;> simp
    rw [entryStep_of_some hp, Restoring.view, hpage, hc]
    cases hr : reachOf (page * DIFF_PAGE_BYTES, a) i with
    | loose => exact absurd hr hreach
    | whole => rfl
    | short => rfl

/-- Filling an uncovered stretch of pages and covering it is one entry. -/
theorem entryStep_of_fresh {page : Nat} {covered : Nat → Bool} (ha : a.length = n * DIFF_PAGE_BYTES)
    (hfit : page * DIFF_PAGE_BYTES + a.length ≤ s.mem.size_bytes)
    (hfresh : ∀ p, page ≤ p → p < page + n → s.covered p = false)
    (hcov : ∀ p, covered p = (s.covered p || decide (page ≤ p ∧ p < page + n)))
    {mem : GuestMemory} (hmem : mem.bytes = copyAt s.mem.bytes (page * DIFF_PAGE_BYTES) a) :
    (Restoring.mk mem covered).view i = entryStep (s.view i) i (page * DIFF_PAGE_BYTES, a) := by
  have hwrite : mem.bytes[i]? = (patchAt (page * DIFF_PAGE_BYTES, a) i).or s.mem.bytes[i]? := by
    rw [hmem]
    exact getElem?_copyAt_patch (p := (page * DIFF_PAGE_BYTES, a)) hfit i
  cases hp : patchAt (page * DIFF_PAGE_BYTES, a) i with
  | none =>
    have hout : i < page * DIFF_PAGE_BYTES ∨ page * DIFF_PAGE_BYTES + a.length ≤ i :=
      patchAt_eq_none_iff.mp hp
    have hpage : ¬ (page ≤ i / DIFF_PAGE_BYTES ∧ i / DIFF_PAGE_BYTES < page + n) := by
      simp only [DIFF_PAGE_BYTES] at *
      omega
    rw [entryStep_of_none hp]
    simp only [Restoring.view, hwrite, hp, hcov, decide_eq_false hpage, Option.none_or,
      Bool.or_false]
  | some b =>
    have hin : page * DIFF_PAGE_BYTES ≤ i ∧ i < page * DIFF_PAGE_BYTES + a.length :=
      range_of_patchAt hp
    have hpage : page ≤ i / DIFF_PAGE_BYTES ∧ i / DIFF_PAGE_BYTES < page + n := by
      simp only [DIFF_PAGE_BYTES] at *
      omega
    have hreach : reachOf (page * DIFF_PAGE_BYTES, a) i = .whole := by
      unfold reachOf
      rw [if_neg (by simp), if_pos]
      rw [ha, ← add_mul]
      exact Nat.mul_le_mul_right _ hpage.2
    rw [entryStep_of_some hp, hreach]
    simp only [Restoring.view, hwrite, hp, hcov, hfresh _ hpage.1 hpage.2, decide_eq_true hpage,
      Option.some_or, Bool.or_true, coverStep]

section Runs

variable {host : Host} {ram_load : RamLoad} {file : File}

theorem fillRam_bytes {mem mem' : GuestMemory} {file_offset ram_offset : Nat}
    (h : fillRam host ram_load mem file file_offset ram_offset pages = .ok mem') :
    mem'.bytes =
      copyAt mem.bytes ram_offset (slice file.bytes file_offset (pages * DIFF_PAGE_BYTES)) := by
  unfold fillRam at h
  split at h
  · obtain ⟨_, _, rfl⟩ := mapFileRangePrivate_eq_ok h
    rfl
  · simp only [bind_eq_ok, refuse_eq_ok, pure_eq_ok, Except.ok.injEq] at h
    obtain ⟨_, _, rfl⟩ := h
    rfl

/-- `n` pages of a run whose data starts at `data_at`, from its page `k` on. -/
def runStretch (file : File) (data_at first k n : Nat) : Nat × Bytes :=
  ((first + k) * DIFF_PAGE_BYTES,
    slice file.bytes (data_at + k * DIFF_PAGE_BYTES) (n * DIFF_PAGE_BYTES))

variable {data_at : Nat}

theorem runStretch_length (first : Nat) (hkn : k + n ≤ pages)
    (hfile : data_at + pages * DIFF_PAGE_BYTES ≤ file.len) :
    (runStretch file data_at first k n).2.length = n * DIFF_PAGE_BYTES := by
  apply slice_length
  have hle : (k + n) * DIFF_PAGE_BYTES ≤ pages * DIFF_PAGE_BYTES := Nat.mul_le_mul_right _ hkn
  rw [add_mul] at hle
  unfold File.len at hfile
  omega

/-- The rest of a run from page `k` on is its next `n` pages, then what follows them. -/
theorem entryStep_runStretch (hkn : k + n ≤ pages)
    (hfile : data_at + pages * DIFF_PAGE_BYTES ≤ file.len) :
    entryStep (entryStep v i (runStretch file data_at first k n)) i
        (runStretch file data_at first (k + n) (pages - (k + n))) =
      entryStep v i (runStretch file data_at first k (pages - k)) := by
  have hlen := runStretch_length first hkn hfile
  have hpos : (first + (k + n)) * DIFF_PAGE_BYTES =
      (first + k) * DIFF_PAGE_BYTES + (runStretch file data_at first k n).2.length := by
    rw [hlen, ← add_assoc, add_mul]
  have hsrc : data_at + (k + n) * DIFF_PAGE_BYTES =
      data_at + k * DIFF_PAGE_BYTES + n * DIFF_PAGE_BYTES := by rw [add_mul]; omega
  have hsum : (pages - k) * DIFF_PAGE_BYTES =
      n * DIFF_PAGE_BYTES + (pages - (k + n)) * DIFF_PAGE_BYTES := by
    rw [← add_mul]
    congr 1
    omega
  have happ := entryStep_append (v := v) (i := i) ((first + k) * DIFF_PAGE_BYTES)
    (b := (runStretch file data_at first (k + n) (pages - (k + n))).2)
    (by rw [hlen, Nat.mul_mod_left])
  rw [← hpos] at happ
  simp only [runStretch] at happ ⊢
  rw [happ, hsrc, ← slice_add, ← hsum]

theorem entryStep_runStretch_zero : entryStep v i (runStretch file data_at first k 0) = v := by
  apply entryStep_of_none
  rw [patchAt_eq_none_iff]
  simp [runStretch, slice]
  omega

/-- The loop over a run acts on each byte as one entry from page `k` of the run on. -/
theorem restoreRun_view (fuel k : Nat) (hf : pages - k ≤ fuel) (hk : k ≤ pages)
    (hfile : data_at + pages * DIFF_PAGE_BYTES ≤ file.len)
    (hfit : (first + pages) * DIFF_PAGE_BYTES ≤ s.mem.size_bytes)
    (h : restoreRun host ram_load file data_at first pages fuel k s = .ok s') :
    s'.mem.size_bytes = s.mem.size_bytes ∧
      ∀ i, s'.view i = entryStep (s.view i) i (runStretch file data_at first k (pages - k)) := by
  induction fuel generalizing k s with
  | zero =>
    cases h
    obtain rfl : k = pages := by omega
    rw [Nat.sub_self]
    exact ⟨rfl, fun i => (entryStep_runStretch_zero).symm⟩
  | succ fuel ih =>
    rw [restoreRun] at h
    by_cases hlt : k < pages
    · rw [if_pos hlt] at h
      by_cases hcov : s.covered (first + k) = true
      · rw [if_pos hcov] at h
        obtain ⟨hsz, hview⟩ := ih (k + 1) (by omega) (by omega) hfit h
        have hlen := runStretch_length first (by omega : k + 1 ≤ pages) hfile
        refine ⟨hsz, fun i => ?_⟩
        have hkeep : entryStep (s.view i) i (runStretch file data_at first k 1) = s.view i :=
          entryStep_of_covered hcov hlen
        rw [hview i, ← entryStep_runStretch (by omega : k + 1 ≤ pages) hfile, hkeep]
      · rw [if_neg hcov] at h
        have hfree : s.covered (first + k) = false := by simpa using hcov
        have hspec := coverRun_spec first pages (pages - k) k s.covered
        have hstep := coverRun_lt (pages - k) (by omega) hlt hfree
        have hstop := hspec.stop_le hk
        revert h hspec hstep hstop
        generalize coverRun first pages (pages - k) k s.covered = r
        intro h hspec hstep hstop
        obtain ⟨stop, covered⟩ := r
        obtain ⟨n, rfl⟩ : ∃ n, stop = k + n := ⟨stop - k, by dsimp only at hstep; omega⟩
        simp only [bind_eq_ok, Nat.add_sub_cancel_left] at h
        obtain ⟨mem, hfill, hrest⟩ := h
        have hlen := runStretch_length first hstop hfile
        have hbytes := fillRam_bytes hfill
        have hroom : (first + k) * DIFF_PAGE_BYTES +
            (runStretch file data_at first k n).2.length ≤ s.mem.size_bytes := by
          rw [hlen, ← add_mul]
          exact le_trans (Nat.mul_le_mul_right _ (by omega)) hfit
        have hsize : mem.size_bytes = s.mem.size_bytes := by
          rw [GuestMemory.size_bytes, hbytes]
          exact copyAt_length hroom
        obtain ⟨hsz, hview⟩ := ih (k + n) (by dsimp only at hstep; omega) hstop
          (by rw [← hsize] at hfit; exact hfit) hrest
        refine ⟨hsz.trans hsize, fun i => ?_⟩
        rw [hview i, ← entryStep_runStretch hstop hfile]
        congr 1
        refine entryStep_of_fresh hlen hroom ?_ ?_ hbytes
        · intro p hlo hhi
          have := hspec.fresh (p - first) (by omega) (by omega)
          rwa [show first + (p - first) = p by omega] at this
        · intro p
          rw [add_assoc]
          exact hspec.covers p
    · rw [if_neg hlt] at h
      cases h
      obtain rfl : k = pages := by omega
      rw [Nat.sub_self]
      exact ⟨rfl, fun i => (entryStep_runStretch_zero).symm⟩

/-- Restoring a diff does to each byte what its entries do, in the order of the runs. -/
theorem restoreRuns_view {data_offset : Nat} {runs : List (Nat × Nat)} (data_page : Nat)
    (hal : ∀ r ∈ runs, r.1 % DIFF_PAGE_BYTES = 0)
    (hfile : data_offset + (data_page + dataPages runs) * DIFF_PAGE_BYTES ≤ file.len)
    (h : restoreRuns host ram_load file data_offset runs data_page s = .ok s') :
    s'.mem.size_bytes = s.mem.size_bytes ∧
      (∀ p ∈ runEntries file data_offset runs data_page, p.1 + p.2.length ≤ s.mem.size_bytes) ∧
      ∀ i, s'.view i =
        ((runEntries file data_offset runs data_page).filterMap (entryAt i)).foldl coverStep
          (s.view i) := by
  induction runs generalizing data_page s with
  | nil =>
    cases h
    exact ⟨rfl, by simp [runEntries], fun i => rfl⟩
  | cons r runs ih =>
    obtain ⟨offset, pages⟩ := r
    simp only [restoreRuns, validateDiffPageRange, bind_eq_ok, okOr_eq_ok, refuse_eq_ok,
      checkedAdd_eq_some] at h
    obtain ⟨_, ⟨stop, ⟨_, rfl⟩, hstop⟩, t, hrun, hrest⟩ := h
    obtain ⟨hoff, hal⟩ := forall_mem_cons.mp hal
    have hfirst : offset / DIFF_PAGE_BYTES * DIFF_PAGE_BYTES = offset :=
      Nat.div_mul_cancel (Nat.dvd_of_mod_eq_zero hoff)
    have hsum := data_cons_le hfile
    dsimp only at hsum
    have hfit : (offset / DIFF_PAGE_BYTES + pages) * DIFF_PAGE_BYTES ≤ s.mem.size_bytes := by
      rw [add_mul, hfirst]
      omega
    obtain ⟨hsz, hview⟩ := restoreRun_view pages 0 (by omega) (Nat.zero_le _) (by omega) hfit hrun
    have hrest_file : data_offset + (data_page + pages + dataPages runs) * DIFF_PAGE_BYTES ≤
        file.len := by
      rw [add_mul, add_mul]
      omega
    obtain ⟨hsz', hin, hview'⟩ := ih (data_page + pages) hal hrest_file hrest
    have hentry : runStretch file (data_offset + data_page * DIFF_PAGE_BYTES)
        (offset / DIFF_PAGE_BYTES) 0 (pages - 0) = (offset, slice file.bytes
          (data_offset + data_page * DIFF_PAGE_BYTES) (pages * DIFF_PAGE_BYTES)) := by
      simp [runStretch, hfirst]
    refine ⟨hsz'.trans hsz, ?_, fun i => ?_⟩
    · have hlen : (slice file.bytes (data_offset + data_page * DIFF_PAGE_BYTES)
          (pages * DIFF_PAGE_BYTES)).length = pages * DIFF_PAGE_BYTES :=
        slice_length (by unfold File.len at hsum; omega)
      rw [hsz] at hin
      exact forall_mem_cons.mpr ⟨by dsimp only; omega, hin⟩
    · rw [hview' i, hview i, hentry, ← foldl_entryStep, ← foldl_entryStep, runEntries,
        foldl_cons]

/-- A diff the reader hands on: for an aligned one the run table fits its file. -/
def ChainDiff.Accepted : ChainDiff → Prop
  | .pages _ => True
  | .aligned file data_offset runs => AlignedOk file data_offset runs

theorem restoreDiff_view {diff : ChainDiff} (hd : diff.Accepted)
    (h : restoreDiff host ram_load diff s = .ok s') :
    s'.mem.size_bytes = s.mem.size_bytes ∧
      (∀ p ∈ diff.entries, p.1 + p.2.length ≤ s.mem.size_bytes) ∧
      ∀ i, s'.view i = (diff.writesAt i).foldl coverStep (s.view i) := by
  cases diff with
  | pages ps => exact restorePages_view h
  | aligned file data_offset runs =>
    have hok : AlignedOk file data_offset runs := hd
    have hends := hok.ends
    exact restoreRuns_view 0 (fun r hr => (hok.runs_ok.page r hr).1) (by rw [zero_add]; omega) h

theorem restoreDiffs_view {diffs : List ChainDiff} (hd : ∀ d ∈ diffs, d.Accepted)
    (h : restoreDiffs host ram_load diffs s = .ok s') :
    s'.mem.size_bytes = s.mem.size_bytes ∧
      (∀ d ∈ diffs, ∀ p ∈ d.entries, p.1 + p.2.length ≤ s.mem.size_bytes) ∧
      ∀ i, s'.view i = (diffs.flatMap (·.writesAt i)).foldl coverStep (s.view i) := by
  induction diffs generalizing s with
  | nil =>
    cases h
    exact ⟨rfl, by simp, fun i => rfl⟩
  | cons d diffs ih =>
    simp only [restoreDiffs, bind_eq_ok] at h
    obtain ⟨t, hstep, hrest⟩ := h
    obtain ⟨hfirst, hd⟩ := forall_mem_cons.mp hd
    obtain ⟨hsz, hin, hview⟩ := restoreDiff_view hfirst hstep
    obtain ⟨hsz', hin', hview'⟩ := ih hd hrest
    refine ⟨hsz'.trans hsz, ?_, fun i => ?_⟩
    · rw [hsz] at hin'
      exact forall_mem_cons.mpr ⟨hin, hin'⟩
    · rw [hview' i, hview i, flatMap_cons, foldl_append]

end Runs

end Tarit.Snapshot
