import Tarit.Lib.Overlay
import Tarit.Snapshot.Reader

/-!
# Loading a chain of snapshots

`followChain` walks parent pointers from the tip to the base and collects each diff.
`restoreDiffs` then walks the diffs from the tip on, skipping pages a newer diff
already supplied. `tryApplyDiffs` is the other reading of a chain: every diff in the
order it was taken, every entry in file order, each over what is there.
-/
namespace Tarit.Snapshot

open Lib

inductive ChainDiff where
  | pages (pages : List (Nat × Bytes))
  | aligned (file : File) (data_offset : Nat) (runs : List (Nat × Nat))

/-- A chain read from tip to base: the base image, where it was read, and, tip first,
each diff's version, state and pages. -/
structure Chain where
  mem : GuestMemory
  base_state : Bytes
  base_version : Nat
  base_path : String
  diffs : List (Nat × Bytes × ChainDiff)

/-- RAM being rebuilt and the pages a newer diff has supplied. -/
structure Restoring where
  mem : GuestMemory
  covered : Nat → Bool

def cover (covered : Nat → Bool) (page : Nat) : Nat → Bool := fun p => p = page || covered p

def Restoring.write (s : Restoring) (pos : Nat) (data : Bytes) : Restoring :=
  { s with mem := { s.mem with bytes := copyAt s.mem.bytes pos data } }

/-- The chunk loop over one entry of an interleaved diff. -/
def restoreChunks (start : Nat) : Nat → List Bytes → Restoring → Restoring
  | _, [], s => s
  | index, chunk :: rest, s =>
    let pos := start + index * DIFF_PAGE_BYTES
    let page := pos / DIFF_PAGE_BYTES
    if pos % DIFF_PAGE_BYTES = 0 ∧ s.covered page = true then
      restoreChunks start (index + 1) rest s
    else
      let s := s.write pos chunk
      let s := if pos % DIFF_PAGE_BYTES = 0 ∧ chunk.length = DIFF_PAGE_BYTES then
          { s with covered := cover s.covered page } else s
      restoreChunks start (index + 1) rest s

def restorePages : List (Nat × Bytes) → Restoring → Result Restoring
  | [], s => .ok s
  | (gpa, bytes) :: pages, s => do
    validateDiffPageRange gpa bytes.length s.mem.size_bytes
    restorePages pages (restoreChunks gpa 0 (chunks DIFF_PAGE_BYTES bytes) s)

/-- The inner loop over a run: cover pages from `k` on until one is covered already. -/
def coverRun (first pages : Nat) : Nat → Nat → (Nat → Bool) → Nat × (Nat → Bool)
  | 0, k, covered => (k, covered)
  | fuel + 1, k, covered =>
    if k < pages ∧ covered (first + k) = false then
      coverRun first pages fuel (k + 1) (cover covered (first + k))
    else (k, covered)

section Load

variable {Hasher : Type} (crc : Crc32 Hasher) (host : Host)

/-- `read_exact_at` into RAM, or a private mapping of the same file range. -/
def fillRam (ram_load : RamLoad) (mem : GuestMemory) (file : File)
    (file_offset ram_offset pages : Nat) : Result GuestMemory := do
  let len := pages * DIFF_PAGE_BYTES
  if ram_load = .map ∧ pages ≥ MAP_MIN_RUN_PAGES then
    mapFileRangePrivate host mem file file_offset ram_offset len
  else
    refuse (file.len < file_offset + len) (.snapshot "read diff pages: failed to fill whole buffer")
    return { mem with bytes := copyAt mem.bytes ram_offset (slice file.bytes file_offset len) }

/-- The outer loop over a run of `pages` pages whose data starts at `data_at`. -/
def restoreRun (ram_load : RamLoad) (file : File) (data_at first pages : Nat) :
    Nat → Nat → Restoring → Result Restoring
  | 0, _, s => .ok s
  | fuel + 1, k, s =>
    if k < pages then
      if s.covered (first + k) = true then
        restoreRun ram_load file data_at first pages fuel (k + 1) s
      else do
        let (stop, covered) := coverRun first pages (pages - k) k s.covered
        let mem ← fillRam host ram_load s.mem file (data_at + k * DIFF_PAGE_BYTES)
          ((first + k) * DIFF_PAGE_BYTES) (stop - k)
        restoreRun ram_load file data_at first pages fuel stop { mem, covered }
    else .ok s

/-- One aligned diff: run by run, the data pages of the runs one after another. -/
def restoreRuns (ram_load : RamLoad) (file : File) (data_offset : Nat) :
    List (Nat × Nat) → Nat → Restoring → Result Restoring
  | [], _, s => .ok s
  | (offset, pages) :: runs, data_page, s => do
    validateDiffPageRange offset (pages * DIFF_PAGE_BYTES) s.mem.size_bytes
    let s ← restoreRun host ram_load file (data_offset + data_page * DIFF_PAGE_BYTES)
      (offset / DIFF_PAGE_BYTES) pages pages 0 s
    restoreRuns ram_load file data_offset runs (data_page + pages) s

def restoreDiff (ram_load : RamLoad) (diff : ChainDiff) (s : Restoring) : Result Restoring :=
  match diff with
  | .pages pages => restorePages pages s
  | .aligned file data_offset runs => restoreRuns host ram_load file data_offset runs 0 s

def restoreDiffs (ram_load : RamLoad) : List ChainDiff → Restoring → Result Restoring
  | [], s => .ok s
  | diff :: diffs, s => do
    let s ← restoreDiff host ram_load diff s
    restoreDiffs ram_load diffs s

/-- The loop from tip to base. `fuel` is what is left of `MAX_DIFF_CHAIN_DEPTH`: the
number of files seen and `fuel` add up to it. -/
def followChain (snapshot_root : String) (ram_load : RamLoad) :
    Nat → List String → String → Nat → List (Nat × Bytes × ChainDiff) → Result Chain
  | 0, _, _, _, _ => .error (.snapshot "snapshot chain too deep")
  | fuel + 1, seen, cur, chain_page_bytes, diffs => do
    refuse (cur ∈ seen) (.snapshot "snapshot chain cycle")
    let content ← readSnapshotWith crc host cur snapshot_root ram_load
    match content with
    | .full mem base_state base_version =>
      return { mem, base_state, base_version, base_path := cur, diffs }
    | .diff parent state version pages =>
      let total ← pages.foldlM (fun total page =>
        validateDiffPayloadBudget total page.2.length) chain_page_bytes
      followChain snapshot_root ram_load fuel (cur :: seen) parent total
        (diffs ++ [(version, state, .pages pages)])
    | .alignedDiff parent state version file data_offset runs =>
      followChain snapshot_root ram_load fuel (cur :: seen) parent chain_page_bytes
        (diffs ++ [(version, state, .aligned file data_offset runs)])

def readChain (path : String) (ram_load : RamLoad) : Result Chain := do
  let (tip, snapshot_root) ← canonicalSnapshotTip host path
  followChain crc host snapshot_root ram_load MAX_DIFF_CHAIN_DEPTH [] tip 0 []

/-- Version and state of the tip: the first diff collected, or the base. -/
def Chain.tip (chain : Chain) : Nat × Bytes :=
  match chain.diffs with
  | [] => (chain.base_version, chain.base_state)
  | (version, state, _) :: _ => (version, state)

def loadSnapshotChainWith (path : String) (ram_load : RamLoad) :
    Result (GuestMemory × Bytes × Nat) := do
  let chain ← readChain crc host path ram_load
  let restored ← restoreDiffs host ram_load (chain.diffs.map (·.2.2))
    { mem := chain.mem, covered := fun _ => false }
  return (restored.mem, chain.tip.2, chain.tip.1)

end Load

/-- `DiffError` of the snapshot crate. -/
inductive DiffError where
  | rangeOverflow (gpa len : Nat)
  | resizeTooLarge (requested max : Nat)
  | allocation (requested : Nat)
  deriving DecidableEq

def MAX_DIFF_APPLY_BYTES : Nat := 2 ^ 40

/-- One entry of `try_apply_diffs`. `tryReserve` says whether the buffer can grow. -/
def applyDiffPage (tryReserve : Nat → Bool) (out : Bytes) (page : Nat × Bytes) :
    Except DiffError Bytes :=
  let stop := page.1 + page.2.length
  if u64Size ≤ stop then .error (.rangeOverflow page.1 page.2.length)
  else if stop > MAX_DIFF_APPLY_BYTES then .error (.resizeTooLarge stop MAX_DIFF_APPLY_BYTES)
  else if stop > out.length ∧ tryReserve (stop - out.length) = false then
    .error (.allocation stop)
  else .ok (copyAt (out ++ List.replicate (stop - out.length) 0) page.1 page.2)

/-- `try_apply_diffs`: the diffs in order, each entry over what is there. -/
def tryApplyDiffs (tryReserve : Nat → Bool) (base : Bytes) (diffs : List (List (Nat × Bytes))) :
    Except DiffError Bytes :=
  diffs.flatten.foldlM (applyDiffPage tryReserve) base

/-- Entries inside the image never grow it: applying them is an overlay. -/
theorem tryApplyDiffs_of_inside {tryReserve : Nat → Bool} {base : Bytes}
    {diffs : List (List (Nat × Bytes))} (hb : base.length ≤ MAX_DIFF_APPLY_BYTES)
    (h : ∀ p ∈ diffs.flatten, p.1 + p.2.length ≤ base.length) :
    tryApplyDiffs tryReserve base diffs = .ok (overlay base diffs.flatten) := by
  unfold tryApplyDiffs
  generalize diffs.flatten = pages at h
  induction pages generalizing base with
  | nil => rfl
  | cons p pages ih =>
    have hp := h p (by simp)
    have hlt : MAX_DIFF_APPLY_BYTES < u64Size := by decide
    have hgrow : p.1 + p.2.length - base.length = 0 := by omega
    have hstep : applyDiffPage tryReserve base p = .ok (copyAt base p.1 p.2) := by
      unfold applyDiffPage
      rw [if_neg (by omega), if_neg (by omega), if_neg (by omega), hgrow]
      simp
    have hlen := copyAt_length hp
    rw [List.foldlM_cons, hstep, ok_bind, ih (by rw [hlen]; exact hb)]
    · rfl
    intro q hq
    rw [hlen]
    exact h q (by simp [hq])

end Tarit.Snapshot
