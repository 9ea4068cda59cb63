import Mathlib.Data.List.TakeWhile
import Tarit.Snapshot.ChainMap
import Tarit.Snapshot.Deferred

/-!
# Three ways to write one full snapshot

The plain writer reads all of RAM. The deferred one reads the populated pages and queues
the others from the files mapped under them. The one that works from a base reads the
dirty pages and queues the rest from the base. Each leaves the full image of the same RAM,
so the files are equal; a base whose RAM image starts inside a page can fail to be read.
-/
namespace Tarit.Snapshot

open Lib List Option

/-- Loop state of `write_snapshot_memory_deferred`. -/
structure DeferredWalk where
  placed : Bytes × Option Nat
  copies : List RamCopy
  ranges : List FileBackedRange
  page : Nat

section Write

variable {Hasher : Type} (crc : Crc32 Hasher) (ptrEq : File → File → Bool)

/-- Queue one page, joined to the last copy where both run on. -/
def pushCopy (copies : List RamCopy) (pos : Nat) (source : File) (file_at : Nat) :
    List RamCopy :=
  match copies.getLast? with
  | some last =>
    if last.ram + last.len = pos ∧ ptrEq last.source source = true ∧
        last.source_at + last.len = file_at then
      copies.dropLast ++ [{ last with len := last.len + 4096 }]
    else copies ++ [{ ram := pos, len := 4096, source, source_at := file_at }]
  | none => copies ++ [{ ram := pos, len := 4096, source, source_at := file_at }]

/-- One page of the loop: touched pages join or end the pending run, others are queued
from the range that backs them. -/
def DeferredWalk.step (offset : Nat) (mem : Bytes) (s : DeferredWalk) (touched : Bool) :
    DeferredWalk :=
  let start := s.page * 4096
  if touched then
    { s with
      placed := placePiece offset mem (isZero (pageOf mem s.page)) start s.placed
      page := s.page + 1 }
  else
    let ranges := s.ranges.dropWhile fun r => r.stop ≤ start
    let copies := match ranges.head?.filter (fun r => r.ram_offset ≤ start) with
      | some range => pushCopy ptrEq s.copies start range.file
          (range.file_offset + (start - range.ram_offset))
      -- An untouched anonymous page is zero.
      | none => s.copies
    { placed := placePiece offset mem true start s.placed, copies, ranges, page := s.page + 1 }

/-- `write_snapshot_memory_deferred`. Whether two handles are one `Arc` is `ptrEq`. -/
def writeSnapshotMemoryDeferred (file : File) (state_blob mem : Bytes) (populated : List Bool)
    (ranges : List FileBackedRange) : Result (File × DeferredFullSnapshot) := do
  let layout ← SnapshotWriteLayout.new crc state_blob mem.length false
  refuse (mem.length % 4096 ≠ 0 ∨ populated.length ≠ mem.length / 4096)
    (.snapshot "guest RAM is not a whole number of pages")
  let s := populated.foldl (DeferredWalk.step ptrEq layout.mem_offset mem)
    { placed := (setLen file.bytes 0, none), copies := [], ranges, page := 0 }
  let out := flushRun layout.mem_offset mem s.placed.1 s.placed.2 mem.length
  return ({ file with bytes := out },
    { state_blob, layout, copies := s.copies, verify_base := none })

/-- The pages of a dirty run, zero pages left as holes. -/
def writeDirtyPages (offset : Nat) (mem : Bytes) (stop : Nat) : Nat → Nat → Bytes → Bytes
  | 0, _, out => out
  | fuel + 1, page, out =>
    if page < stop then
      let bytes := slice mem page (min (page + 4096) stop - page)
      writeDirtyPages offset mem stop fuel (page + 4096)
        (if isZero bytes then out else writeAt out (offset + page) bytes)
    else out

/-- Loop state of `write_snapshot_memory_from_base`. -/
structure BaseWalk where
  out : Bytes
  copies : List RamCopy
  clean_from : Nat

def queueClean (base : File) (base_mem_offset start stop : Nat) (copies : List RamCopy) :
    List RamCopy :=
  if stop > start then
    copies ++ [{ ram := start, len := stop - start, source := base
                 source_at := base_mem_offset + start }]
  else copies

def BaseWalk.step (offset : Nat) (mem : Bytes) (base : File) (base_mem_offset : Nat)
    (s : BaseWalk) (run : Nat × Nat) : BaseWalk :=
  let stop := min (run.1 + run.2 * 4096) mem.length
  { copies := queueClean base base_mem_offset s.clean_from run.1 s.copies
    out := writeDirtyPages offset mem stop run.2 run.1 s.out
    clean_from := stop }

def writeSnapshotMemoryFromBase (file : File) (state_blob mem : Bytes) (dirty : DirtyBitmap)
    (base : File) (base_mem_offset : Nat) (base_mem_crc : UInt32) :
    Result (File × DeferredFullSnapshot) := do
  let layout ← SnapshotWriteLayout.new crc state_blob mem.length false
  let s := (dirtyPageRuns dirty mem.length).foldl
    (BaseWalk.step layout.mem_offset mem base base_mem_offset)
    { out := setLen file.bytes 0, copies := [], clean_from := 0 }
  let copies := queueClean base base_mem_offset s.clean_from mem.length s.copies
  return ({ file with bytes := s.out },
    { state_blob, layout, copies
      verify_base := some (base, base_mem_offset, mem.length, base_mem_crc) })

/-- The 32 header bytes of a full snapshot, which name its contents. -/
def fullSnapshotIdentityOf (file : File) : Option Bytes :=
  let header := slice file.bytes 0 32
  if 32 ≤ file.len ∧ header.take 4 = FULL_MAGIC ∧ field header 6 2 = 0 then some header else none

/-- A base is used if it is the named snapshot and its RAM image has this size: the file,
where RAM starts in it and the checksum its header records. -/
def checkSnapshotBase (file : File) (identity : Bytes) (mem_len : Nat) :
    Option (File × Nat × UInt32) := do
  if fullSnapshotIdentityOf file ≠ some identity then none
  else
    let state_len := field identity 8 8
    let base_mem_len := field identity 20 8
    let mem_crc := UInt32.ofNat (field identity 28 4)
    let mem_offset ← checkedAdd FULL_SNAPSHOT_HEADER_LEN state_len
    if base_mem_len ≠ mem_len ∨ checkedAdd mem_offset base_mem_len ≠ some file.len then none
    else some (file, mem_offset, mem_crc)

end Write

variable {Hasher : Type} {crc : Crc32 Hasher} {l : Lseek} {mem identity : Bytes}
  {populated : List Bool} {flags : Option (List Bool)} {ranges : List FileBackedRange}
  {dirty : DirtyBitmap} {base : File} {base_mem_offset : Nat} {base_mem_crc : UInt32}
  {state_blob : Bytes} {layout : SnapshotWriteLayout} {offset : Nat}

section Deferred

variable {ptrEq : File → File → Bool}

/-- Untouched pages hold what the file under them holds, or zeros where none is. -/
structure Backed (mem : Bytes) (populated : List Bool) (ranges : List FileBackedRange) : Prop where
  file : ∀ k : Nat, populated[k]? = some false → ∀ r ∈ ranges, r.ram_offset ≤ k * 4096 →
    k * 4096 < r.stop → ∀ j < 4096, peek mem (k * 4096 + j) =
      peek r.file.bytes (r.file_offset + (k * 4096 - r.ram_offset) + j)
  zero : ∀ k : Nat, populated[k]? = some false →
    (∀ r ∈ ranges, ¬ (r.ram_offset ≤ k * 4096 ∧ k * 4096 < r.stop)) →
    ∀ j < 4096, peek mem (k * 4096 + j) = 0

/-- Ranges inside their files, which are no longer than a file offset can say. -/
def RangesInFiles (ranges : List FileBackedRange) : Prop :=
  ∀ r ∈ ranges, r.file_offset + r.len ≤ r.file.len ∧ r.file.len < 2 ^ 63

/-- Bytes the first half writes from memory. -/
def deferredKeep (mem : Bytes) (populated : List Bool) (i : Nat) : Bool :=
  populated[i / 4096]? == some true && !isZero (pageOf mem (i / 4096))

theorem RamCopy.Ok.join {copy : RamCopy} {n : Nat} (h : copy.Ok mem)
    (hnew : RamCopy.Ok mem { ram := copy.ram + copy.len, len := n, source := copy.source
                             source_at := copy.source_at + copy.len }) :
    RamCopy.Ok mem { copy with len := copy.len + n } := by
  have hpage := h.page
  have hpage' : _ ∧ n % 4096 = 0 ∧ _ := hnew.page
  have hram : copy.ram + copy.len + n ≤ mem.length := hnew.ram
  have hfile : copy.source_at + copy.len + n ≤ copy.source.len := hnew.file
  refine ⟨⟨hpage.1, ?_, hpage.2.2⟩, ?_, ?_, h.off_t, ?_⟩
  · dsimp only
    omega
  · dsimp only
    omega
  · dsimp only
    omega
  · intro j hj
    by_cases hin : j < copy.len
    · exact h.agree j hin
    obtain ⟨k, rfl⟩ := Nat.exists_eq_add_of_le (Nat.le_of_not_lt hin)
    have hk := hnew.agree k (Nat.lt_of_add_lt_add_left hj)
    rw [← Nat.add_assoc, ← Nat.add_assoc]
    exact hk

/-- The copies become `copies'`, which are right and take in the bytes from `start` to `stop`. -/
structure Queued (mem : Bytes) (copies copies' : List RamCopy) (start stop : Nat) : Prop where
  ok : ∀ c ∈ copies', c.Ok mem
  covers : ∀ i, ((∃ c ∈ copies, c.Covers i) ∨ (start ≤ i ∧ i < stop)) → ∃ c ∈ copies', c.Covers i

theorem Queued.append {copies : List RamCopy} {new : RamCopy} {start stop : Nat}
    (hold : ∀ c ∈ copies, c.Ok mem) (hnew : new.Ok mem)
    (hcovers : ∀ i, start ≤ i → i < stop → new.Covers i) :
    Queued mem copies (copies ++ [new]) start stop := by
  constructor
  · exact forall_mem_append.mpr ⟨hold, forall_mem_singleton.mpr hnew⟩
  · rintro i (⟨c, hc, hi⟩ | hi)
    · exact ⟨c, mem_append_left _ hc, hi⟩
    · exact ⟨new, mem_append_right _ (mem_singleton.mpr rfl), hcovers i hi.1 hi.2⟩

theorem pushCopy_ok (hptr : ∀ a b, ptrEq a b = true → a = b) {copies : List RamCopy}
    (hold : ∀ c ∈ copies, c.Ok mem) {pos file_at : Nat} {source : File}
    (hnew : RamCopy.Ok mem { ram := pos, len := 4096, source, source_at := file_at }) :
    Queued mem copies (pushCopy ptrEq copies pos source file_at) pos (pos + 4096) := by
  have happend := Queued.append hold hnew fun i hlo hhi => ⟨hlo, hhi⟩
  unfold pushCopy
  split
  swap
  · exact happend
  rename_i last hlast
  split
  swap
  · exact happend
  rename_i hjoin
  obtain ⟨rfl, hsame, rfl⟩ := hjoin
  obtain rfl := hptr _ _ hsame
  have hsplit : copies = copies.dropLast ++ [last] :=
    (dropLast_append_getLast? last hlast).symm
  have hwide := (hold last (mem_of_getLast? hlast)).join hnew
  constructor
  · exact forall_mem_append.mpr
      ⟨fun c hc => hold c (mem_of_mem_dropLast hc), forall_mem_singleton.mpr hwide⟩
  · intro i hi
    rcases hi with ⟨c, hc, hlo, hhi⟩ | hi
    · rw [hsplit] at hc
      rcases mem_append.mp hc with hc | hc
      · exact ⟨c, by simp [hc], hlo, hhi⟩
      obtain rfl := mem_singleton.mp hc
      refine ⟨_, mem_append_right _ (mem_singleton.mpr rfl), hlo, ?_⟩
      exact lt_of_lt_of_le hhi (by show c.ram + c.len ≤ c.ram + (c.len + 4096); omega)
    · refine ⟨_, mem_append_right _ (mem_singleton.mpr rfl), ?_⟩
      show last.ram ≤ i ∧ i < last.ram + (last.len + 4096)
      omega

/-- What holds after `s.page` pages of the walk. -/
structure WalkInv (offset : Nat) (mem : Bytes) (populated : List Bool)
    (ranges : List FileBackedRange) (s : DeferredWalk) : Prop where
  run : RunInv offset mem [] (deferredKeep mem populated) (s.page * 4096) s.placed
  length : 4096 ∣ s.placed.1.length
  copies : ∀ c ∈ s.copies, c.Ok mem
  kept : s.ranges.Sublist ranges
  passed : ∀ r ∈ ranges, r ∈ s.ranges ∨ r.stop ≤ s.page * 4096
  covered : ∀ i < s.page * 4096, deferredKeep mem populated i = true ∨
    (∃ c ∈ s.copies, c.Covers i) ∨ peek mem i = 0

theorem mem_dropWhile_or {start : Nat} {rest : List FileBackedRange} {r : FileBackedRange}
    (hr : r ∈ rest) : r ∈ rest.dropWhile (fun r => r.stop ≤ start) ∨ r.stop ≤ start := by
  rw [← takeWhile_append_dropWhile (p := fun r : FileBackedRange => decide (r.stop ≤ start))
    (l := rest)] at hr
  rcases mem_append.mp hr with htake | hdrop
  · have hstop := mem_takeWhile_imp htake
    exact .inr (of_decide_eq_true hstop)
  · exact .inl hdrop

/-- Skipping the ranges that end before `start` finds the one over it, if there is one. -/
theorem range_over {all rest : List FileBackedRange} {start : Nat}
    (hapart : all.Pairwise fun a b => a.stop ≤ b.ram_offset) (hpos : ∀ r ∈ all, 0 < r.len)
    (hsub : rest.Sublist all) (hpassed : ∀ r ∈ all, r ∈ rest ∨ r.stop ≤ start) :
    match (rest.dropWhile fun r => r.stop ≤ start).head?.filter (fun r => r.ram_offset ≤ start) with
    | some r => r ∈ all ∧ r.ram_offset ≤ start ∧ start < r.stop
    | none => ∀ r ∈ all, ¬ (r.ram_offset ≤ start ∧ start < r.stop) := by
  have hover : ∀ r ∈ all, start < r.stop → r ∈ rest.dropWhile fun r => decide (r.stop ≤ start) := by
    intro r hr hlt
    have hmem := (hpassed r hr).resolve_right (Nat.not_le_of_lt hlt)
    exact (mem_dropWhile_or hmem).resolve_right (Nat.not_le_of_lt hlt)
  cases hd : rest.dropWhile fun r => decide (r.stop ≤ start) with
  | nil =>
    rintro r hr ⟨_, hlt⟩
    have := hover r hr hlt
    rw [hd] at this
    exact absurd this (by simp)
  | cons r later =>
    have hrmem : r ∈ rest.dropWhile fun r => decide (r.stop ≤ start) := by rw [hd]; simp
    have hr : r ∈ all := hsub.subset ((dropWhile_sublist _).subset hrmem)
    have hstop : start < r.stop := by
      have hhead := head_dropWhile_not (fun r : FileBackedRange => decide (r.stop ≤ start))
        (by rw [hd]; simp : rest.dropWhile _ ≠ [])
      simp only [hd, head_cons, decide_eq_false_iff_not] at hhead
      omega
    by_cases hle : r.ram_offset ≤ start
    · rw [List.head?_cons, filter_some, if_pos (decide_eq_true hle)]
      exact ⟨hr, hle, hstop⟩
    simp only [List.head?_cons, filter_some, hle, decide_false, Bool.false_eq_true,
      if_false]
    rintro q hq ⟨hqlo, hqhi⟩
    have hqmem := hover q hq hqhi
    rw [hd] at hqmem
    rcases mem_cons.mp hqmem with rfl | hlater
    · omega
    have hdsub : (r :: later).Sublist all := by
      rw [← hd]
      exact (dropWhile_sublist _).trans hsub
    have := (pairwise_cons.mp (hapart.sublist hdsub)).1 q hlater
    have := hpos r hr
    omega

theorem deferredKeep_of_page {k i : Nat} (hlo : k * 4096 ≤ i) (hhi : i < k * 4096 + 4096) :
    deferredKeep mem populated i = (populated[k]? == some true && !isZero (pageOf mem k)) := by
  have hk : i / 4096 = k := by omega
  rw [deferredKeep, hk]

theorem page_le_of_lt {a b : Nat} (ha : a % 4096 = 0) (hb : b % 4096 = 0) (h : a < b) :
    a + 4096 ≤ b := by
  obtain ⟨x, rfl⟩ := Nat.dvd_of_mod_eq_zero ha
  obtain ⟨y, rfl⟩ := Nat.dvd_of_mod_eq_zero hb
  have hxy : x < y := Nat.lt_of_mul_lt_mul_left h
  calc 4096 * x + 4096 = 4096 * (x + 1) := (Nat.mul_succ _ _).symm
    _ ≤ 4096 * y := Nat.mul_le_mul_left _ hxy

theorem walk_page (s : DeferredWalk) (touched : Bool) :
    (DeferredWalk.step ptrEq offset mem s touched).page = s.page + 1 := by
  cases touched <;> rfl

variable (hptr : ∀ a b, ptrEq a b = true → a = b) (hranges : RangesOk mem.length ranges)
  (hfiles : RangesInFiles ranges) (hback : Backed mem populated ranges)

include hptr hranges hfiles hback

/-- One page of the walk keeps the invariant. -/
theorem WalkInv.step (ho : 4096 ∣ offset) {s : DeferredWalk} {touched : Bool}
    (h : WalkInv offset mem populated ranges s) (ht : populated[s.page]? = some touched)
    (hroom : s.page * 4096 + 4096 ≤ mem.length) :
    WalkInv offset mem populated ranges (DeferredWalk.step ptrEq offset mem s touched) := by
  have hstart : s.page * 4096 ≤ mem.length := le_trans (Nat.le_add_right _ _) hroom
  have hnext : (s.page + 1) * 4096 = s.page * 4096 + 4096 := Nat.succ_mul _ _
  have hkeep : ∀ i, s.page * 4096 ≤ i → i < s.page * 4096 + 4096 →
      deferredKeep mem populated i = !(!touched || isZero (pageOf mem s.page)) := by
    intro i hlo hhi
    rw [deferredKeep_of_page hlo hhi, ht]
    cases touched <;> rfl
  have hrun := h.run.place hstart hkeep
  rw [← hnext] at hrun
  have hlen := placePiece_dvd (!touched || isZero (pageOf mem s.page)) ho h.length
    (Nat.dvd_mul_left 4096 s.page) hstart
  have hlater (r : FileBackedRange) (hle : r.stop ≤ s.page * 4096) : r.stop ≤ (s.page + 1) * 4096 :=
    le_trans hle (Nat.mul_le_mul_right _ (Nat.le_succ s.page))
  cases touched with
  | true =>
    refine ⟨hrun, hlen, h.copies, h.kept, fun r hr => (h.passed r hr).imp id (hlater r), ?_⟩
    intro i hi
    have hi' : i < s.page * 4096 + 4096 := hnext ▸ hi
    by_cases hold : i < s.page * 4096
    · exact h.covered i hold
    cases hz : isZero (pageOf mem s.page) with
    | false =>
      left
      rw [hkeep i (Nat.le_of_not_lt hold) hi', hz]
      rfl
    | true => exact .inr (.inr (peek_of_isZero_pageOf hz (Nat.le_of_not_lt hold) hi))
  | false =>
    have hover := range_over hranges.apart (fun r hr => (hranges.inside r hr).1) h.kept h.passed
    have hsub := (dropWhile_sublist (fun r : FileBackedRange =>
      decide (r.stop ≤ s.page * 4096))).trans h.kept
    have hpassed : ∀ r ∈ ranges,
        r ∈ s.ranges.dropWhile (fun r => decide (r.stop ≤ s.page * 4096)) ∨
          r.stop ≤ (s.page + 1) * 4096 := by
      intro r hr
      exact ((h.passed r hr).elim mem_dropWhile_or .inr).imp id (hlater r)
    -- The copies either stay or gain this page; everything else does not depend on it.
    have hcopies : (∀ c ∈ (DeferredWalk.step ptrEq offset mem s false).copies, c.Ok mem) ∧
        ∀ i, ((∃ c ∈ s.copies, c.Covers i) ∨ (s.page * 4096 ≤ i ∧ i < s.page * 4096 + 4096)) →
          (∃ c ∈ (DeferredWalk.step ptrEq offset mem s false).copies, c.Covers i) ∨
            peek mem i = 0 := by
      simp only [DeferredWalk.step, Bool.false_eq_true, if_false]
      revert hover
      cases (s.ranges.dropWhile fun r => decide (r.stop ≤ s.page * 4096)).head?.filter
          (fun r => decide (r.ram_offset ≤ s.page * 4096)) with
      | none =>
        intro hnone
        refine ⟨h.copies, ?_⟩
        rintro i (hc | ⟨hlo, hhi⟩)
        · exact .inl hc
        · right
          have hz := hback.zero s.page ht hnone (i - s.page * 4096) (by omega)
          rwa [show s.page * 4096 + (i - s.page * 4096) = i by omega] at hz
      | some r =>
        rintro ⟨hr, hrlo, hrhi⟩
        have hal := hranges.page r hr
        have hfile := hfiles r hr
        have hwhole : s.page * 4096 + 4096 ≤ r.ram_offset + r.len :=
          page_le_of_lt (Nat.mul_mod_left _ _) (by omega) hrhi
        have hnew : RamCopy.Ok mem { ram := s.page * 4096, len := 4096, source := r.file
                                     source_at := r.file_offset +
                                       (s.page * 4096 - r.ram_offset) } := by
          refine ⟨⟨Nat.mul_mod_left _ _, Nat.mod_self 4096, ?_⟩, ?_, ?_, hfile.2, ?_⟩
          · dsimp only
            omega
          · exact hroom
          · dsimp only
            omega
          · intro j hj
            exact (hback.file s.page ht r hr hrlo hrhi j hj).symm
        obtain ⟨hok, hcov⟩ := pushCopy_ok hptr h.copies hnew
        exact ⟨hok, fun i hi => .inl (hcov i hi)⟩
    refine ⟨hrun, hlen, hcopies.1, hsub, hpassed, ?_⟩
    intro i hi
    have hi' : i < s.page * 4096 + 4096 := hnext ▸ hi
    by_cases hold : i < s.page * 4096
    · rcases h.covered i hold with hk | hc | hz
      · exact .inl hk
      · exact .inr (hcopies.2 i (.inl hc))
      · exact .inr (.inr hz)
    · exact .inr (hcopies.2 i (.inr (by omega)))

/-- The whole walk keeps it, by induction over the pages left. -/
theorem walk_inv (ho : 4096 ∣ offset) (hroom : populated.length * 4096 ≤ mem.length)
    (rest : List Bool) {s : DeferredWalk} (hrest : populated.drop s.page = rest)
    (h : WalkInv offset mem populated ranges s) :
    WalkInv offset mem populated ranges
      (rest.foldl (DeferredWalk.step ptrEq offset mem) s) ∧
      (rest.foldl (DeferredWalk.step ptrEq offset mem) s).page = s.page + rest.length := by
  induction rest generalizing s with
  | nil => exact ⟨h, rfl⟩
  | cons touched rest ih =>
    have ht : populated[s.page]? = some touched := by
      rw [← List.head?_drop, hrest]
      rfl
    have hlt : s.page < populated.length := (List.getElem?_eq_some_iff.mp ht).1
    have hstep := h.step hptr hranges hfiles hback ho ht
      (by rw [← Nat.succ_mul]; exact le_trans (Nat.mul_le_mul_right _ hlt) hroom)
    have hdrop : populated.drop (DeferredWalk.step ptrEq offset mem s touched).page = rest := by
      rw [walk_page, ← drop_drop, hrest]
      rfl
    obtain ⟨hinv, hpage⟩ := ih hdrop hstep
    refine ⟨hinv, ?_⟩
    rw [foldl_cons, hpage, walk_page, length_cons]
    omega

theorem writeSnapshotMemoryDeferred_ok (l : Lseek) (file : File)
    (hl : SnapshotWriteLayout.new crc state_blob mem.length false = .ok layout)
    (hfit : layout.mem_offset + mem.length < 2 ^ 63) (hpages : mem.length % 4096 = 0)
    (hpop : populated.length = mem.length / 4096) :
    ∃ f s, writeSnapshotMemoryDeferred crc ptrEq file state_blob mem populated ranges =
      .ok (f, s) ∧ s.layout = layout ∧ DeferredOk l crc state_blob mem f s := by
  have hpage := (page_of_new hl).2
  have ho : 4096 ∣ layout.mem_offset := Nat.dvd_of_mod_eq_zero hpage
  have hnil : setLen file.bytes 0 = [] := by simp [setLen]
  have hinit : WalkInv layout.mem_offset mem populated ranges
      { placed := ([], none), copies := [], ranges, page := 0 } :=
    ⟨by rw [zero_mul]; exact .init _ _, Nat.dvd_zero _, by simp, List.Sublist.refl _,
      fun r hr => .inl hr, fun i hi => by simp at hi⟩
  obtain ⟨hinv, hend⟩ := walk_inv hptr hranges hfiles hback ho (by omega) populated rfl hinit
  simp only [writeSnapshotMemoryDeferred, hl, ok_bind, hnil]
  rw [refuse_of_not (by omega), ok_bind]
  refine ⟨_, _, rfl, rfl, ?_⟩
  revert hinv hend
  generalize populated.foldl (DeferredWalk.step ptrEq layout.mem_offset mem)
    { placed := ([], none), copies := [], ranges, page := 0 } = s
  intro hinv hend
  have hall : s.page * 4096 = mem.length := by
    rw [hend]
    dsimp only
    omega
  have hrun := hinv.run
  rw [hall] at hrun
  refine ⟨rfl, layoutOf_of_new hl, ⟨hpage, hpages⟩, hfit, ?_, hinv.copies, ?_, rfl⟩
  · exact Nat.mod_eq_zero_of_dvd
      (flushRun_dvd ho hinv.length (Nat.dvd_of_mod_eq_zero hpages) (le_refl _))
  · intro i hi
    show peek (flushRun layout.mem_offset mem s.placed.1 s.placed.2 mem.length)
        (layout.mem_offset + i) = peek mem i ∨
      (peek (flushRun layout.mem_offset mem s.placed.1 s.placed.2 mem.length)
        (layout.mem_offset + i) = 0 ∧ ∃ c ∈ s.copies, c.Covers i)
    rw [hrun.flush (le_refl _), Nat.add_sub_cancel_left]
    by_cases hk : deferredKeep mem populated i = true
    · left
      rw [if_pos ⟨by omega, by omega, hk⟩]
    rw [if_neg (by simp [hk])]
    rcases hinv.covered i (by omega) with hk' | hc | hz
    · exact absurd hk' hk
    · exact .inr ⟨rfl, hc⟩
    · exact .inl hz.symm

end Deferred

theorem writeDirtyPages_fills (fuel page stop : Nat) (out : Bytes) (ho : offset % 4096 = 0)
    (hf : stop ≤ page + fuel * 4096) (hpage : page % 4096 = 0 ∧ stop % 4096 = 0)
    (hstop : stop ≤ mem.length) (hout : out.length % 4096 = 0) :
    Fills offset mem out (writeDirtyPages offset mem stop fuel page out) ∧
      (writeDirtyPages offset mem stop fuel page out).length % 4096 = 0 ∧
      ∀ i, page ≤ i → i < stop → peek mem i = 0 ∨
        peek (writeDirtyPages offset mem stop fuel page out) (offset + i) = peek mem i := by
  induction fuel generalizing page out with
  | zero => exact ⟨.refl _ _ _, hout, fun i _ _ => by omega⟩
  | succ fuel ih =>
    rw [writeDirtyPages]
    by_cases hlt : page < stop
    swap
    · rw [if_neg hlt]
      exact ⟨.refl _ _ _, hout, fun i _ _ => by omega⟩
    have hmin : min (page + 4096) stop - page = 4096 := by omega
    have hlen : (slice mem page 4096).length = 4096 := slice_length (by omega)
    have hbyte : ∀ j < (slice mem page 4096).length,
        peek (slice mem page 4096) j = peek mem (page + j) := by
      intro j hj
      rw [hlen] at hj
      rw [peek_slice, if_pos hj]
    rw [if_pos hlt]
    dsimp only
    rw [hmin]
    generalize hnext : (if isZero (slice mem page 4096) = true then out
      else writeAt out (offset + page) (slice mem page 4096)) = next
    have hfill : Fills offset mem out next ∧ next.length % 4096 = 0 ∧
        ∀ i, page ≤ i → i < page + 4096 → peek mem i = 0 ∨
          peek next (offset + i) = peek mem i := by
      rw [← hnext]
      split
      · rename_i hz
        refine ⟨.refl _ _ _, hout, fun i hlo hhi => .inl ?_⟩
        have hp := peek_of_isZero hz (i - page)
        rw [hbyte _ (by rw [hlen]; omega)] at hp
        rwa [show page + (i - page) = i by omega] at hp
      · have hw := writeAt_length out (offset + page) (slice mem page 4096) (by omega)
        refine ⟨fills_writeAt (by omega) hbyte, by rw [hw, hlen]; omega, fun i hlo hhi => .inr ?_⟩
        rw [peek_writeAt, hlen, if_pos (by omega),
          show offset + i - (offset + page) = i - page by omega, hbyte _ (by rw [hlen]; omega)]
        congr 1
        omega
    obtain ⟨hfill', hlen', hput'⟩ := ih (page + 4096) next (by omega) ⟨by omega, hpage.2⟩
      hfill.2.1
    refine ⟨hfill.1.trans hfill', hlen', fun i hlo hhi => ?_⟩
    by_cases hnow : i < page + 4096
    · exact (hfill.2.2 i hlo hnow).imp id hfill'.keeps
    · exact hput' i (by omega) hhi

/-- What holds once the runs before `clean_from` are done. -/
structure BaseInv (offset : Nat) (mem : Bytes) (s : BaseWalk) : Prop where
  fills : Fills offset mem [] s.out
  length : s.out.length % 4096 = 0
  copies : ∀ c ∈ s.copies, c.Ok mem
  clean : s.clean_from % 4096 = 0 ∧ s.clean_from ≤ mem.length
  done : ∀ i < s.clean_from, (peek mem i = 0 ∨ peek s.out (offset + i) = peek mem i) ∨
    ∃ c ∈ s.copies, c.Covers i

theorem queueClean_ok {copies : List RamCopy} {start stop : Nat}
    (hold : ∀ c ∈ copies, c.Ok mem) (hal : start % 4096 = 0 ∧ stop % 4096 = 0)
    (hb : base_mem_offset % 4096 = 0) (hstop : stop ≤ mem.length)
    (hlen : base_mem_offset + mem.length ≤ base.len) (hoff : base.len < 2 ^ 63)
    (hsame : ∀ i, start ≤ i → i < stop → peek mem i = peek base.bytes (base_mem_offset + i)) :
    Queued mem copies (queueClean base base_mem_offset start stop copies) start stop := by
  unfold queueClean
  split
  swap
  · refine ⟨hold, ?_⟩
    rintro i (hc | hi)
    · exact hc
    · omega
  rename_i hgt
  have hnew : RamCopy.Ok mem { ram := start, len := stop - start, source := base
                               source_at := base_mem_offset + start } := by
    refine ⟨⟨hal.1, ?_, ?_⟩, ?_, ?_, hoff, ?_⟩
    · dsimp only
      omega
    · dsimp only
      omega
    · dsimp only
      omega
    · dsimp only
      omega
    · intro j hj
      have hj' : j < stop - start := hj
      rw [hsame (start + j) (by omega) (by omega), add_assoc]
  refine .append hold hnew fun i hlo hhi => ?_
  show start ≤ i ∧ i < start + (stop - start)
  omega

theorem baseWalk_inv (ho : offset % 4096 = 0) (hb : base_mem_offset % 4096 = 0)
    (hlen : base_mem_offset + mem.length ≤ base.len) (hoff : base.len < 2 ^ 63)
    (runs : List (Nat × Nat)) {s : BaseWalk} (h : BaseInv offset mem s)
    (hshape : ∀ r ∈ runs, r.1 % 4096 = 0 ∧ r.1 + r.2 * 4096 ≤ mem.length ∧ s.clean_from ≤ r.1)
    (hapart : runs.Pairwise fun a b => a.1 + a.2 * 4096 ≤ b.1)
    (hsame : ∀ i, s.clean_from ≤ i → i < mem.length →
      (∀ r ∈ runs, ¬ (r.1 ≤ i ∧ i < r.1 + r.2 * 4096)) →
        peek mem i = peek base.bytes (base_mem_offset + i)) :
    BaseInv offset mem (runs.foldl (BaseWalk.step offset mem base base_mem_offset) s) ∧
      ∀ i, (runs.foldl (BaseWalk.step offset mem base base_mem_offset) s).clean_from ≤ i →
        i < mem.length → peek mem i = peek base.bytes (base_mem_offset + i) := by
  induction runs generalizing s with
  | nil => exact ⟨h, fun i hlo hhi => hsame i hlo hhi (by simp)⟩
  | cons r runs ih =>
    obtain ⟨hal, hin, hfrom⟩ := hshape r (by simp)
    obtain ⟨hlater, htail⟩ := pairwise_cons.mp hapart
    have hmin : min (r.1 + r.2 * 4096) mem.length = r.1 + r.2 * 4096 := by omega
    have hclean := h.clean
    have hgap : ∀ i, s.clean_from ≤ i → i < r.1 →
        peek mem i = peek base.bytes (base_mem_offset + i) := by
      intro i hlo hhi
      apply hsame i hlo (by omega)
      refine forall_mem_cons.mpr ⟨by omega, fun q hq => ?_⟩
      have := hlater q hq
      omega
    obtain ⟨hok, hcov⟩ := queueClean_ok h.copies ⟨hclean.1, hal⟩ hb (by omega) hlen hoff hgap
    obtain ⟨hfill, hlen', hput⟩ := writeDirtyPages_fills r.2 r.1 (r.1 + r.2 * 4096) s.out ho
      (le_refl _) ⟨hal, by omega⟩ hin h.length
    have hstep : BaseInv offset mem (.step offset mem base base_mem_offset s r) := by
      simp only [BaseWalk.step, hmin]
      refine ⟨h.fills.trans hfill, hlen', hok, ⟨by dsimp only; omega, hin⟩, ?_⟩
      intro i hi
      by_cases hold : i < s.clean_from
      · rcases h.done i hold with hd | hc
        · exact .inl (hd.imp id hfill.keeps)
        · exact .inr (hcov i (.inl hc))
      · by_cases hq : i < r.1
        · exact .inr (hcov i (.inr ⟨by omega, hq⟩))
        · exact .inl (hput i (by omega) hi)
    have hfrom' : (BaseWalk.step offset mem base base_mem_offset s r).clean_from =
        r.1 + r.2 * 4096 := hmin
    rw [foldl_cons]
    refine ih hstep ?_ htail ?_
    · intro q hq
      have hs := hshape q (by simp [hq])
      exact ⟨hs.1, hs.2.1, by rw [hfrom']; exact hlater q hq⟩
    · intro i hlo hhi hnot
      exact hsame i (by omega) hhi (forall_mem_cons.mpr ⟨by omega, hnot⟩)

theorem writeSnapshotMemoryFromBase_ok (file : File) (hseek : l.Faithful)
    (hl : SnapshotWriteLayout.new crc state_blob mem.length false = .ok layout)
    (hfit : layout.mem_offset + mem.length < 2 ^ 63) (hpages : mem.length % 4096 = 0)
    (hb : base_mem_offset % 4096 = 0) (hlen : base_mem_offset + mem.length = base.len)
    (hoff : base.len < 2 ^ 63)
    (hsame : ∀ i < mem.length, i / 4096 ∉ dirty →
      peek mem i = peek base.bytes (base_mem_offset + i)) :
    ∃ f s, writeSnapshotMemoryFromBase crc file state_blob mem dirty base base_mem_offset
        (crc.hash (slice base.bytes base_mem_offset mem.length)) = .ok (f, s) ∧
      s.layout = layout ∧ DeferredOk l crc state_blob mem f s := by
  have hpage := (page_of_new hl).2
  have hu : mem.length < u64Size := by unfold u64Size; omega
  have hnil : setLen file.bytes 0 = [] := by simp [setLen]
  have hinit : BaseInv layout.mem_offset mem { out := [], copies := [], clean_from := 0 } :=
    ⟨.refl _ _ _, rfl, by simp, ⟨rfl, Nat.zero_le _⟩, fun i hi => by simp at hi⟩
  obtain ⟨hinv, hrest⟩ := baseWalk_inv hpage hb (le_of_eq hlen) hoff
    (dirtyPageRuns dirty mem.length) hinit
    (fun r hr => ⟨(dirtyPageRuns_shape hu r hr).1, dirtyPageRuns_inside hpages hu r hr,
      Nat.zero_le _⟩)
    (dirtyPageRuns_apart hu)
    (by
      intro i _ hi hnot
      apply hsame i hi
      intro hd
      obtain ⟨r, hr, h1, h2⟩ := (mem_dirtyPageRuns hu dirty).mpr
        ⟨hd, by simp only [DIFF_PAGE_BYTES]; omega⟩
      have hal := (dirtyPageRuns_shape hu r hr).1
      simp only [DIFF_PAGE_BYTES] at h1 h2 hal
      exact hnot r hr ⟨by omega, by omega⟩)
  simp only [writeSnapshotMemoryFromBase, hl, ok_bind, hnil]
  refine ⟨_, _, rfl, rfl, ?_⟩
  revert hinv hrest
  generalize (dirtyPageRuns dirty mem.length).foldl
    (BaseWalk.step layout.mem_offset mem base base_mem_offset)
    { out := [], copies := [], clean_from := 0 } = s
  intro hinv hrest
  obtain ⟨hok, hcov⟩ := queueClean_ok hinv.copies ⟨hinv.clean.1, hpages⟩ hb
    (le_refl _) (le_of_eq hlen) hoff hrest
  refine ⟨rfl, layoutOf_of_new hl, ⟨hpage, hpages⟩, hfit, hinv.length, hok, ?_, ?_⟩
  · intro i hi
    -- Whatever is there was put there, so a byte not in place reads as zero.
    have hplace := hinv.fills (layout.mem_offset + i)
    rw [peek_of_ge (show ([] : Bytes).length ≤ _ from Nat.zero_le _), Nat.add_sub_cancel_left]
      at hplace
    rcases hplace with hz | ⟨_, _, hin⟩
    · by_cases hc : i < s.clean_from
      · rcases hinv.done i hc with (hm | hin) | hcopy
        · exact .inl (hz.trans hm.symm)
        · exact .inl hin
        · exact .inr ⟨hz, hcov i (.inl hcopy)⟩
      · exact .inr ⟨hz, hcov i (.inr ⟨by omega, hi⟩)⟩
    · exact .inl hin
  · rw [verifyBase, regionCrc_of_pages crc base hseek ⟨hb, hpages⟩
      (.inr (le_of_eq hlen)) (by omega),
      ok_bind, window_eq_slice (le_of_eq hlen), refuse_of_not (by simp)]

theorem checkSnapshotBase_len
    (h : checkSnapshotBase base identity mem.length = some (base, base_mem_offset, base_mem_crc)) :
    base_mem_offset + mem.length = base.len := by
  simp only [checkSnapshotBase, ite_none_left_eq_some, bind_eq_bind,
    bind_eq_some_iff] at h
  obtain ⟨_, off, _, hok, h⟩ := h
  simp only [not_or, not_not, checkedAdd_eq_some] at hok
  obtain ⟨_, hoff, _⟩ := Prod.mk.inj (Option.some.inj h) |>.imp id Prod.mk.inj
  rw [← hoff, ← hok.1]
  exact hok.2.2

/-- The three writers leave the same bytes, whatever the first halves read and queued:
for RAM of whole pages, ranges as guest memory keeps them, and a base whose RAM image is
intact and starts on a page boundary. -/
theorem full_writers_agree (ptrEq : File → File → Bool) (state_blob : Bytes)
    (hseek : l.Faithful) (hptr : ∀ a b, ptrEq a b = true → a = b)
    (hpages : mem.length % 4096 = 0) (hfit : state_blob.length + mem.length + 8192 ≤ 2 ^ 63)
    (hflags : Unpopulated mem flags) (hpop : populated.length = mem.length / 4096)
    (hranges : RangesOk mem.length ranges) (hfiles : RangesInFiles ranges)
    (hback : Backed mem populated ranges)
    (hbase : checkSnapshotBase base identity mem.length =
      some (base, base_mem_offset, base_mem_crc)) (hoff : base.len < 2 ^ 63)
    (hcrc : crc.hash (slice base.bytes base_mem_offset mem.length) = base_mem_crc)
    (hpage : base_mem_offset % 4096 = 0)
    (hsame : ∀ i < mem.length, i / 4096 ∉ dirty →
      peek mem i = peek base.bytes (base_mem_offset + i)) (file₁ file₂ file₃ : File) :
    ∃ f₁ d₂ s₂ f₂ d₃ s₃ f₃,
      writeSnapshotToFile crc file₁ state_blob mem flags false = .ok f₁ ∧
      writeSnapshotMemoryDeferred crc ptrEq file₂ state_blob mem populated ranges = .ok (d₂, s₂) ∧
      finishDeferredSnapshot l crc d₂ s₂ = .ok f₂ ∧
      writeSnapshotMemoryFromBase crc file₃ state_blob mem dirty base base_mem_offset
        base_mem_crc = .ok (d₃, s₃) ∧
      finishDeferredSnapshot l crc d₃ s₃ = .ok f₃ ∧
      f₂.bytes = f₁.bytes ∧ f₃.bytes = f₁.bytes := by
  obtain ⟨f₁, layout, hf₁, hnew, _⟩ := writeSnapshotToFile_isOk crc file₁ state_blob mem flags false
    (by unfold u64Size; omega)
  have hlay := layoutOf_of_new hnew
  have hend : layout.mem_offset + mem.length < 2 ^ 63 := by
    have h1 := hlay.mem_offset
    have h2 := hlay.state_len
    have h3 := (page_of_new hnew).1
    simp only [FULL_SNAPSHOT_HEADER_LEN] at h1
    omega
  obtain ⟨d₂, s₂, hd₂, hs₂, hok₂⟩ := writeSnapshotMemoryDeferred_ok hptr hranges hfiles hback l
    file₂ hnew hend hpages hpop
  obtain ⟨d₃, s₃, hd₃, hs₃, hok₃⟩ := writeSnapshotMemoryFromBase_ok file₃ hseek hnew hend hpages
    hpage (checkSnapshotBase_len hbase) hoff hsame
  obtain ⟨f₂, hf₂, hbytes₂⟩ := finishDeferredSnapshot_bytes hseek hok₂
  obtain ⟨f₃, hf₃, hbytes₃⟩ := finishDeferredSnapshot_bytes hseek hok₃
  have hbytes₁ := writeSnapshotToFile_bytes hflags hnew hf₁
  rw [hcrc] at hd₃
  exact ⟨f₁, d₂, s₂, f₂, d₃, s₃, f₃, hf₁, hd₂, hf₂, hd₃, hf₃,
    by rw [hbytes₂, hs₂, hbytes₁], by rw [hbytes₃, hs₃, hbytes₁]⟩

section Examples

/-- A file system that keeps a zero tail behind the first 4096 bytes as a hole, and
everything else as data. -/
def tailHole : Lseek where
  seekData file offset :=
    .ok (if 4096 < file.len ∧ isZero (file.bytes.drop 4096) = true then
        if offset < 4096 then some offset else none
      else if offset < file.len then some offset else none)
  seekHole file _ :=
    .ok (if 4096 < file.len ∧ isZero (file.bytes.drop 4096) = true then 4096 else file.len)

theorem peek_of_zero_tail {f : Bytes} (h : isZero (f.drop 4096) = true) {i : Nat}
    (hi : 4096 ≤ i) : peek f i = 0 := by
  have hz := peek_of_isZero h (i - 4096)
  rw [peek_eq_getElem?, List.getElem?_drop, ← peek_eq_getElem?] at hz
  rwa [show 4096 + (i - 4096) = i by omega] at hz

theorem holes_upTo {f : Bytes} {n : Nat} (hn : n ≤ f.length) (hgrid : n % 4096 = 0 ∨ n = f.length)
    (hzero : ∀ i, n ≤ i → peek f i = 0) :
    Holes 4096 f (fun offset => if offset < n then some offset else none) fun _ => n := by
  refine ⟨?_, ?_, ?_⟩
  · intro offset hnone i hi
    split at hnone
    · cases hnone
    · exact hzero i (by omega)
  · intro offset d hd
    obtain ⟨_, ⟨⟩⟩ := ite_none_right_eq_some.mp hd
    exact ⟨le_refl _, by omega, .inl rfl, fun i h1 h2 => by omega⟩
  · intro offset d hd
    obtain ⟨_, ⟨⟩⟩ := ite_none_right_eq_some.mp hd
    exact ⟨by omega, hn, hgrid⟩

theorem tailHole_faithful : tailHole.Faithful := by
  intro file
  refine ⟨_, fun _ => _, ?_, fun offset => rfl, fun offset d _ => rfl⟩
  by_cases hsparse : 4096 < file.len ∧ isZero (file.bytes.drop 4096) = true
  · simp only [if_pos hsparse]
    exact holes_upTo (le_of_lt hsparse.1) (.inl rfl) fun i hi => peek_of_zero_tail hsparse.2 hi
  · simp only [if_neg hsparse]
    exact holes_upTo (le_refl _) (.inr rfl) fun i hi => peek_of_ge hi

/-- A region that starts inside the first page and ends in the hole, off the grid it
starts on: the hole is refused. -/
theorem regionCrc_tailHole {Hasher : Type} (crc : Crc32 Hasher) (file : File) (offset len : Nat)
    (hsparse : 4096 < file.len ∧ isZero (file.bytes.drop 4096) = true) (hlo : offset < 4096)
    (hhi : 4096 < offset + len) (hoff : (offset + len) % 4096 ≠ 0) :
    regionCrc tailHole crc file offset len =
      .error (.snapshot "snapshot hole is not page aligned") := by
  have hdata : ∀ o, tailHole.seekData file o = .ok (if o < 4096 then some o else none) := by
    intro o
    simp only [tailHole, if_pos hsparse]
  have hhole : ∀ o, tailHole.seekHole file o = .ok 4096 := by
    intro o
    simp only [tailHole, if_pos hsparse]
  obtain ⟨mid, hmid⟩ : ∃ mid,
      hashExtent crc file offset (4096 - offset) 0 (4096 - offset) crc.new = .ok mid := by
    obtain ⟨mid, hmid, _⟩ := hashExtent_fed offset (4096 - offset) 0 (le_refl _) (Nat.zero_le _)
      (show offset + (4096 - offset) ≤ file.len by omega) crc.new_fed
    exact ⟨mid, hmid⟩
  obtain ⟨n, rfl⟩ : ∃ n, len = n + 1 := ⟨len - 1, by omega⟩
  have hnone : combineZeroPages crc crc.new 0 = crc.new := rfl
  have hfirst : seekData tailHole file (offset + 0) = .ok (some (offset + 0)) :=
    seekData_of_lt (by omega) (by rw [hdata, if_pos (by omega)])
  have hstop : seekHole tailHole file (offset + 0) = .ok 4096 := seekHole_of_lt (by omega) (hhole _)
  have hsecond : seekData tailHole file (offset + (4096 - offset)) = .ok none :=
    seekData_of_lt (by omega) (by rw [hdata, if_neg (by omega)])
  have hstart : min (offset + 0 - offset) (n + 1) = 0 := by omega
  have hend : min (4096 - offset) (n + 1) = 4096 - offset := by omega
  rw [regionCrc, regionCrcLoop, if_pos (by omega), hfirst]
  simp only [ok_bind, hstart, Nat.sub_zero, Nat.zero_div, hnone]
  rw [refuse_of_not (by simp), ok_bind, if_neg (by omega), hstop]
  simp only [ok_bind, hend]
  rw [hmid, ok_bind, regionCrcLoop, if_pos (by omega), hsecond]
  simp only [ok_bind]
  rw [refuse, if_pos (by omega), error_bind]
  rfl

theorem field_behind_magic (x : Bytes) (start len : Nat) :
    field (FULL_MAGIC ++ x) (4 + start) len = field x start len := by
  rw [field, field]
  congr 1
  exact slice_append_right FULL_MAGIC x

/-- A full image names itself as a base. -/
theorem checkSnapshotBase_fullImage {Hasher : Type} {crc : Crc32 Hasher} {state_blob mem : Bytes}
    {layout : SnapshotWriteLayout} (h : LayoutOf crc state_blob mem.length false layout)
    {file : File} (hfile : file.bytes = fullImage crc layout state_blob mem)
    (hu : layout.mem_offset + mem.length < u64Size) :
    checkSnapshotBase file (slice file.bytes 0 32) mem.length =
      some (file, layout.mem_offset, crc.hash mem) := by
  have hoff := h.mem_offset
  have hlen : file.len = layout.mem_offset + mem.length := by
    rw [File.len, hfile, fullImage_length h]
  have hhdr : slice file.bytes 0 32 = FULL_MAGIC ++ layout.fields (crc.hash mem).toNat := by
    have hmid := slice_mid (a := []) (c := layout.paddedState state_blob ++ mem) rfl
      (show (FULL_MAGIC ++ layout.fields (crc.hash mem).toNat).length = 32 by
        rw [length_append, fields_length]; rfl)
    rw [hfile, fullImage_parts]
    exact hmid
  have hflags : field (FULL_MAGIC ++ layout.fields (crc.hash mem).toNat) 6 2 = 0 := by
    rw [show 6 = 4 + 2 from rfl, field_behind_magic, field_flags h.flags_lt, h.flags]
    rfl
  have hstate : field (FULL_MAGIC ++ layout.fields (crc.hash mem).toNat) 8 8 =
      layout.state_len := by
    rw [show 8 = 4 + 4 from rfl, field_behind_magic]
    exact field_state_len (by unfold u64Size at hu; omega)
  have hmem : field (FULL_MAGIC ++ layout.fields (crc.hash mem).toNat) 20 8 = mem.length := by
    rw [show 20 = 4 + 16 from rfl, field_behind_magic,
      field_mem_len (by rw [h.mem_len]; unfold u64Size at hu; omega), h.mem_len]
  have hcrc : field (FULL_MAGIC ++ layout.fields (crc.hash mem).toNat) 28 4 =
      (crc.hash mem).toNat := by
    rw [show 28 = 4 + 24 from rfl, field_behind_magic, field_mem_crc (UInt32.toNat_lt _)]
  have hid : fullSnapshotIdentityOf file = some (slice file.bytes 0 32) := by
    unfold fullSnapshotIdentityOf
    rw [hhdr, if_pos]
    refine ⟨?_, rfl, hflags⟩
    rw [hlen, hoff]
    simp only [FULL_SNAPSHOT_HEADER_LEN]
    omega
  unfold checkSnapshotBase
  rw [if_neg (by rw [hid]; simp), hhdr, hstate, hmem, hcrc]
  dsimp only
  rw [checkedAdd_of_lt (by omega), ← hoff]
  simp only [bind_eq_bind, bind_some]
  rw [checkedAdd_of_lt hu, if_neg (by simp [hlen]), UInt32.ofNat_toNat]

/-- Three pages of RAM: one that tells two images apart, one like a backing file, one of zeros. -/
def sampleRam (first : UInt8) : Bytes :=
  (List.range 12288).map fun i => if i < 4096 then first else if i < 8192 then 5 else 0

def backingFile : File := { freshFile 9 with bytes := List.replicate 4096 5 }

theorem sampleRam_length (first : UInt8) : (sampleRam first).length = 12288 := by simp [sampleRam]

theorem peek_sampleRam (first : UInt8) {i : Nat} (hi : i < 12288) :
    peek (sampleRam first) i = if i < 4096 then first else if i < 8192 then 5 else 0 := by
  rw [peek_eq_getElem?, sampleRam, List.getElem?_map, List.getElem?_range hi]
  rfl

theorem backingFile_len : backingFile.len = 4096 := List.length_replicate

theorem peek_backingFile {i : Nat} (hi : i < 4096) : peek backingFile.bytes i = 5 := by
  rw [peek_eq_getElem?, backingFile, List.getElem?_replicate_of_lt hi]
  rfl

/-- The second page, not populated, holds what the file under it holds; the third holds zeros. -/
theorem backed_sampleRam :
    Backed (sampleRam 3) [true, false, false] [⟨4096, 4096, backingFile, 0⟩] := by
  constructor
  · intro k hk r hr hlo hhi j hj
    obtain rfl := List.mem_singleton.mp hr
    have hpage : k = 1 := by
      dsimp only [FileBackedRange.stop] at hlo hhi
      omega
    subst hpage
    dsimp only
    rw [peek_sampleRam 3 (by omega), if_neg (by omega), if_pos (by omega),
      peek_backingFile (by omega)]
  · intro k hk hno j hj
    have hlen := (List.getElem?_eq_some_iff.mp hk).1
    have hzero : k ≠ 0 := fun h => by simp [h] at hk
    have hone : k ≠ 1 := fun h => hno _ (.head _) (by simp [h, FileBackedRange.stop])
    have hlast : k = 2 := by
      simp only [List.length_cons, List.length_nil] at hlen
      omega
    subst hlast
    rw [peek_sampleRam 3 (by omega), if_neg (by omega), if_neg (by omega)]

/-- The base has another first page, which is dirty; the second page is in the backing file. -/
theorem full_writers_agree_sample :
    ∃ base base_mem_offset f₁ d₂ s₂ f₂ d₃ s₃ f₃,
      writeSnapshotToFile Crc32.ieee (freshFile 1) [] (sampleRam 1) none false = .ok base ∧
      writeSnapshotToFile Crc32.ieee (freshFile 2) [7] (sampleRam 3) (some [true, true, false])
        false = .ok f₁ ∧
      writeSnapshotMemoryDeferred Crc32.ieee (fun a b => a = b) (freshFile 3) [7] (sampleRam 3)
        [true, false, false] [⟨4096, 4096, backingFile, 0⟩] = .ok (d₂, s₂) ∧
      finishDeferredSnapshot tailHole Crc32.ieee d₂ s₂ = .ok f₂ ∧
      writeSnapshotMemoryFromBase Crc32.ieee (freshFile 4) [7] (sampleRam 3) {0} base
        base_mem_offset (crc32Ieee (sampleRam 1)) = .ok (d₃, s₃) ∧
      finishDeferredSnapshot tailHole Crc32.ieee d₃ s₃ = .ok f₃ ∧
      f₂.bytes = f₁.bytes ∧ f₃.bytes = f₁.bytes := by
  obtain ⟨base, layout, hw, hnew, _⟩ := writeSnapshotToFile_isOk .ieee (freshFile 1) []
    (sampleRam 1) none false (by decide)
  have hlay := layoutOf_of_new hnew
  obtain ⟨hpad, hpage⟩ := page_of_new hnew
  have himage := writeSnapshotToFile_bytes unpopulated_none hnew hw
  have hram : (sampleRam 3).length = (sampleRam 1).length := by simp [sampleRam_length]
  have hlen : base.len = layout.mem_offset + (sampleRam 3).length := by
    rw [File.len, himage, fullImage_length hlay, hram]
  have hend : layout.mem_offset + (sampleRam 3).length < 2 ^ 63 := by
    have hoff := hlay.mem_offset
    have hstate := hlay.state_len
    simp only [FULL_SNAPSHOT_HEADER_LEN, List.length_nil] at hoff hstate
    rw [sampleRam_length]
    omega
  have hslice : slice base.bytes layout.mem_offset (sampleRam 1).length = sampleRam 1 := by
    rw [himage]
    exact slice_fullImage_mem hlay
  have hsame : ∀ i < (sampleRam 3).length, i / 4096 ∉ ({0} : DirtyBitmap) →
      peek (sampleRam 3) i = peek base.bytes (layout.mem_offset + i) := by
    intro i hi hdirty
    have hp := peek_slice base.bytes layout.mem_offset (sampleRam 1).length i
    rw [hslice, if_pos (hram ▸ hi)] at hp
    rw [sampleRam_length] at hi
    have hrest : ¬ i < 4096 := fun h => hdirty (Finset.mem_singleton.mpr (Nat.div_eq_of_lt h))
    rw [← hp, peek_sampleRam 3 hi, peek_sampleRam 1 hi, if_neg hrest, if_neg hrest]
  have hflags : Unpopulated (sampleRam 3) (some [true, true, false]) := by
    rintro flags ⟨⟩ k hk i hlo hhi
    have hlen := (List.getElem?_eq_some_iff.mp hk).1
    simp only [List.length_cons, List.length_nil] at hlen
    have hzero : k ≠ 0 := fun h => by simp [h] at hk
    have hone : k ≠ 1 := fun h => by simp [h] at hk
    rw [peek_sampleRam 3 (by omega), if_neg (by omega), if_neg (by omega)]
  have hcheck := checkSnapshotBase_fullImage hlay himage (lt_trans (hram ▸ hend) (by decide))
  rw [← hram] at hcheck hslice
  obtain ⟨f₁, d₂, s₂, f₂, d₃, s₃, f₃, h₁, h₂, h₂', h₃, h₃', he₂, he₃⟩ :=
    full_writers_agree (fun a b => a = b) [7] tailHole_faithful
      (fun a b h => of_decide_eq_true h) (by rw [sampleRam_length])
      (by rw [sampleRam_length]; decide) hflags (by rw [sampleRam_length]; rfl)
      ⟨.cons (by simp) .nil, by simp, by simp [FileBackedRange.stop, sampleRam_length]⟩
      (by simp [RangesInFiles, backingFile_len]) backed_sampleRam hcheck (hlen ▸ hend)
      (congrArg Crc32.ieee.hash hslice) hpage hsame (freshFile 2) (freshFile 3) (freshFile 4)
  exact ⟨base, layout.mem_offset, f₁, d₂, s₂, f₂, d₃, s₃, f₃, hw, h₁, h₂, h₂', h₃, h₃', he₂, he₃⟩

/-- A base whose RAM image starts at byte 32, with the tail of the file a hole: it is
accepted as a base and RAM equals it, but the snapshot cannot be finished. -/
theorem bare_base_not_finished :
    tailHole.Faithful ∧
    checkSnapshotBase bareBase (slice bareBase.bytes 0 32) (zeroRam 1).length =
      some (bareBase, 32, crc32Ieee (zeroRam 1)) ∧
    slice bareBase.bytes 32 (zeroRam 1).length = zeroRam 1 ∧
    (∃ f, writeSnapshotToFile Crc32.ieee (freshFile 2) [] (zeroRam 1) none false = .ok f) ∧
    ∃ d s, writeSnapshotMemoryFromBase Crc32.ieee (freshFile 3) [] (zeroRam 1) ∅ bareBase 32
        (crc32Ieee (zeroRam 1)) = .ok (d, s) ∧
      finishDeferredSnapshot tailHole Crc32.ieee d s =
        .error (.snapshot "snapshot hole is not page aligned") := by
  have hlay := layoutOf_bareLayout (zeroRam 1)
  have hram := zeroRam_length 1
  have himage : bareBase.bytes = fullImage .ieee (bareLayout (zeroRam 1)) [] (zeroRam 1) := rfl
  have hcheck := checkSnapshotBase_fullImage hlay himage (by rw [hram]; decide)
  obtain ⟨f, layout, hf, hnew, _⟩ := writeSnapshotToFile_isOk .ieee (freshFile 2) []
    (zeroRam 1) none false (by decide)
  refine ⟨tailHole_faithful, hcheck, slice_fullImage_mem hlay, ⟨f, hf⟩, ?_⟩
  have hlen : bareBase.len = 32 + 1048576 := by
    rw [File.len, himage, fullImage_length hlay, hram]
    rfl
  have hzero : isZero (bareBase.bytes.drop 4096) = true := by
    have hdrop : bareBase.bytes.drop 4096 = (zeroRam 1).drop 4064 := by
      rw [himage, fullImage, show 4096 = ((bareLayout (zeroRam 1)).header []
        (Crc32.ieee.hash (zeroRam 1)).toNat).length + 4064 by rw [header_length hlay]; rfl,
        ← drop_drop, drop_left]
    rw [hdrop, zeroRam, drop_replicate, isZero, all_replicate]
    simp
  have hbad := regionCrc_tailHole .ieee bareBase 32 (zeroRam 1).length
    ⟨by rw [hlen]; decide, hzero⟩ (by decide) (by rw [hram]; decide) (by rw [hram]; decide)
  refine ⟨_, _, rfl, ?_⟩
  simp only [finishDeferredSnapshot, verifyBase, hbad, error_bind]

end Examples

end Tarit.Snapshot
