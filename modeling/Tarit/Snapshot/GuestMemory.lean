import Tarit.Snapshot.Host
import Mathlib.Data.List.Pairwise

/-!
# Guest RAM and the file ranges mapped under it

RAM is one packed byte image. Mapping a file range privately replaces the bytes of
whole pages by the file's and records the range; the recorded ranges stay disjoint,
sorted by RAM offset, page aligned and inside RAM.
-/
namespace Tarit.Snapshot

open Lib List

/-- A run of packed RAM that is a private mapping of a file. -/
structure FileBackedRange where
  ram_offset : Nat
  len : Nat
  file : File
  file_offset : Nat
  deriving DecidableEq

def FileBackedRange.stop (r : FileBackedRange) : Nat := r.ram_offset + r.len

/-- What is left of one run once `start..stop` is dropped from it. -/
def FileBackedRange.without (r : FileBackedRange) (start stop : Nat) : List FileBackedRange :=
  if r.ram_offset < stop ∧ start < r.stop then
    (if r.ram_offset < start then [{ r with len := start - r.ram_offset }] else []) ++
    (if stop < r.stop then
      [{ r with ram_offset := stop, len := r.stop - stop,
                file_offset := r.file_offset + (stop - r.ram_offset) }] else [])
  else [r]

/-- `FileRanges::forget`: drop `start..start + len` from every run. -/
def forgetRange (runs : List FileBackedRange) (start len : Nat) : List FileBackedRange :=
  runs.flatMap fun r => r.without start (start + len)

/-- `FileRanges::record`: the run takes the place of whatever it covers. -/
def recordRange (runs : List FileBackedRange) (r : FileBackedRange) : List FileBackedRange :=
  let kept := forgetRange runs r.ram_offset r.len
  kept.filter (·.ram_offset < r.ram_offset) ++ r :: kept.filter (r.ram_offset < ·.ram_offset)

/-- Runs in RAM order that do not overlap, on page boundaries, inside `size` bytes. -/
structure RangesOk (size : Nat) (runs : List FileBackedRange) : Prop where
  apart : runs.Pairwise fun a b => a.stop ≤ b.ram_offset
  page : ∀ r ∈ runs, r.ram_offset % 4096 = 0 ∧ r.len % 4096 = 0 ∧ r.file_offset % 4096 = 0
  inside : ∀ r ∈ runs, 0 < r.len ∧ r.stop ≤ size

/-- Runs in RAM order that do not overlap, none of them empty. -/
structure RunsApart (runs : List FileBackedRange) : Prop where
  apart : runs.Pairwise fun a b => a.stop ≤ b.ram_offset
  positive : ∀ r ∈ runs, 0 < r.len

section Ranges

variable {r q : FileBackedRange} {start stop : Nat} {runs : List FileBackedRange}

theorem mem_without : q ∈ r.without start stop ↔
    (¬ (r.ram_offset < stop ∧ start < r.stop) ∧ q = r) ∨
    ((r.ram_offset < stop ∧ start < r.stop) ∧
      (r.ram_offset < start ∧ q = { r with len := start - r.ram_offset } ∨
        stop < r.stop ∧ q = { r with
          ram_offset := stop, len := r.stop - stop
          file_offset := r.file_offset + (stop - r.ram_offset) })) := by
  unfold FileBackedRange.without
  split
  · next hover =>
    rw [mem_append]
    split <;> split <;> simp_all
  · next hover => simp [hover]

theorem without_inside (h : q ∈ r.without start stop) :
    r.ram_offset ≤ q.ram_offset ∧ q.stop ≤ r.stop ∧
      (q.stop ≤ start ∨ stop ≤ q.ram_offset) ∧ (0 < r.len → 0 < q.len) := by
  obtain ⟨hout, rfl⟩ | ⟨hover, ⟨hleft, rfl⟩ | ⟨hright, rfl⟩⟩ := mem_without.mp h
  all_goals
    simp only [FileBackedRange.stop] at *
    omega

theorem without_page (hs : start % 4096 = 0) (he : stop % 4096 = 0)
    (hp : r.ram_offset % 4096 = 0 ∧ r.len % 4096 = 0 ∧ r.file_offset % 4096 = 0)
    (h : q ∈ r.without start stop) :
    q.ram_offset % 4096 = 0 ∧ q.len % 4096 = 0 ∧ q.file_offset % 4096 = 0 := by
  obtain ⟨hout, rfl⟩ | ⟨hover, ⟨hleft, rfl⟩ | ⟨hright, rfl⟩⟩ := mem_without.mp h
  all_goals
    simp only [FileBackedRange.stop] at *
    omega

theorem without_apart (r : FileBackedRange) (hse : start ≤ stop) :
    (r.without start stop).Pairwise fun a b => a.stop ≤ b.ram_offset := by
  unfold FileBackedRange.without
  split
  · split <;> split <;> simp [FileBackedRange.stop]
    omega
  · simp

theorem forgetRange_outside {len : Nat} (h : q ∈ forgetRange runs start len) :
    q.stop ≤ start ∨ start + len ≤ q.ram_offset := by
  obtain ⟨r, hr, hq⟩ := mem_flatMap.mp h
  exact (without_inside hq).2.2.1

theorem RunsApart.forget (h : RunsApart runs) (start len : Nat) :
    RunsApart (forgetRange runs start len) := by
  constructor
  · unfold forgetRange
    rw [pairwise_flatMap]
    refine ⟨fun r _ => without_apart r (Nat.le_add_right _ _), h.apart.imp ?_⟩
    intro a b hab x hx y hy
    have hxa := without_inside hx
    have hyb := without_inside hy
    omega
  · intro q hq
    obtain ⟨r, hr, hq⟩ := mem_flatMap.mp hq
    exact (without_inside hq).2.2.2 (h.positive r hr)

/-- What is left of the other runs does not start where a run that is not empty starts. -/
theorem mem_recordRange (h : RunsApart runs) (hlen : 0 < r.len) :
    q ∈ recordRange runs r ↔ q = r ∨ q ∈ forgetRange runs r.ram_offset r.len := by
  have hne : q ∈ forgetRange runs r.ram_offset r.len →
      q.ram_offset < r.ram_offset ∨ r.ram_offset < q.ram_offset := by
    intro hq
    have hpos := (h.forget r.ram_offset r.len).positive q hq
    have hout := forgetRange_outside hq
    simp only [FileBackedRange.stop] at hout
    omega
  simp only [recordRange, mem_append, mem_cons, mem_filter, decide_eq_true_eq]
  tauto

/-- A recorded range takes the place of what it overlaps. -/
theorem RunsApart.record (h : RunsApart runs) (hlen : 0 < r.len) :
    RunsApart (recordRange runs r) := by
  have hkept := h.forget r.ram_offset r.len
  constructor
  · have hout (q : FileBackedRange) (hq : q ∈ forgetRange runs r.ram_offset r.len) :
        q.stop ≤ r.ram_offset ∨ r.stop ≤ q.ram_offset := forgetRange_outside hq
    unfold recordRange
    rw [pairwise_append, pairwise_cons]
    refine ⟨hkept.apart.filter _, ⟨?_, hkept.apart.filter _⟩, ?_⟩
    · intro q hq
      obtain ⟨hq, hlt⟩ := mem_filter.mp hq
      have hq' := hout q hq
      simp only [FileBackedRange.stop, decide_eq_true_eq] at *
      omega
    · intro a ha b hb
      obtain ⟨ha, halt⟩ := mem_filter.mp ha
      have ha' := hout a ha
      rcases mem_cons.mp hb with rfl | hb
      · simp only [FileBackedRange.stop, decide_eq_true_eq] at *
        omega
      · obtain ⟨hb, hblt⟩ := mem_filter.mp hb
        simp only [FileBackedRange.stop, decide_eq_true_eq] at *
        omega
  · intro q hq
    rcases (mem_recordRange h hlen).mp hq with rfl | hq
    · exact hlen
    · exact hkept.positive q hq

theorem RangesOk.runsApart {size : Nat} (h : RangesOk size runs) : RunsApart runs :=
  ⟨h.apart, fun q hq => (h.inside q hq).1⟩

theorem RangesOk.forget {size len : Nat} (h : RangesOk size runs) (hs : start % 4096 = 0)
    (hl : len % 4096 = 0) : RangesOk size (forgetRange runs start len) := by
  have hforget := h.runsApart.forget start len
  refine ⟨hforget.apart, ?_, fun q hq => ⟨hforget.positive q hq, ?_⟩⟩
  · intro q hq
    obtain ⟨q', hq', hq⟩ := mem_flatMap.mp hq
    exact without_page hs (by omega) (h.page q' hq') hq
  · obtain ⟨q', hq', hq⟩ := mem_flatMap.mp hq
    exact (without_inside hq).2.1.trans (h.inside q' hq').2

theorem RangesOk.record {size : Nat} (h : RangesOk size runs)
    (hp : r.ram_offset % 4096 = 0 ∧ r.len % 4096 = 0 ∧ r.file_offset % 4096 = 0)
    (hi : 0 < r.len ∧ r.stop ≤ size) : RangesOk size (recordRange runs r) := by
  have hforget := h.forget hp.1 hp.2.1
  refine ⟨(h.runsApart.record hi.1).apart, ?_, ?_⟩
  · intro q hq
    rcases (mem_recordRange h.runsApart hi.1).mp hq with rfl | hq
    · exact hp
    · exact hforget.page q hq
  · intro q hq
    rcases (mem_recordRange h.runsApart hi.1).mp hq with rfl | hq
    · exact hi
    · exact hforget.inside q hq

end Ranges

/-! ## What the runs stand for -/

inductive FileOp where
  | record (r : FileBackedRange)
  | forget (start len : Nat)

/-- What the operation does to the byte at `i`: the file and the offset that are under it. -/
def FileOp.atByte (i : Nat) (m : Option (File × Nat)) : FileOp → Option (File × Nat)
  | record r =>
    if r.ram_offset ≤ i ∧ i < r.stop then some (r.file, r.file_offset + (i - r.ram_offset)) else m
  | forget start len => if start ≤ i ∧ i < start + len then none else m

/-- The run has `v` under the byte at `i`. -/
def FileBackedRange.Under (r : FileBackedRange) (i : Nat) (v : File × Nat) : Prop :=
  r.ram_offset ≤ i ∧ i < r.stop ∧ v = (r.file, r.file_offset + (i - r.ram_offset))

def Denotes (runs : List FileBackedRange) (m : Nat → Option (File × Nat)) : Prop :=
  ∀ i v, m i = some v ↔ ∃ r ∈ runs, r.Under i v

section Denotes

variable {r : FileBackedRange} {start len i : Nat} {v : File × Nat} {runs : List FileBackedRange}
  {m : Nat → Option (File × Nat)}

theorem under_without {stop : Nat} :
    (∃ q ∈ r.without start stop, q.Under i v) ↔ r.Under i v ∧ ¬ (start ≤ i ∧ i < stop) := by
  unfold FileBackedRange.Under
  constructor
  · rintro ⟨q, hq, hlo, hhi, rfl⟩
    obtain ⟨hover, rfl⟩ | ⟨hover, ⟨hleft, rfl⟩ | ⟨hright, rfl⟩⟩ := mem_without.mp hq
    all_goals
      simp only [FileBackedRange.stop, Prod.mk.injEq, true_and, and_true] at *
      omega
  · rintro ⟨⟨hlo, hhi, rfl⟩, hout⟩
    simp only [mem_without]
    by_cases hover : r.ram_offset < stop ∧ start < r.stop
    · by_cases hi : i < start
      · exact ⟨_, .inr ⟨hover, .inl ⟨by omega, rfl⟩⟩, hlo,
          by simp only [FileBackedRange.stop]; omega, rfl⟩
      · refine ⟨_, .inr ⟨hover, .inr ⟨by omega, rfl⟩⟩, ?_⟩
        simp only [FileBackedRange.stop, Prod.mk.injEq, true_and] at *
        omega
    · exact ⟨r, .inl ⟨hover, rfl⟩, hlo, hhi, rfl⟩

theorem under_forgetRange : (∃ q ∈ forgetRange runs start len, q.Under i v) ↔
    (∃ r ∈ runs, r.Under i v) ∧ ¬ (start ≤ i ∧ i < start + len) := by
  constructor
  · rintro ⟨q, hq, hunder⟩
    obtain ⟨r, hr, hq⟩ := mem_flatMap.mp hq
    obtain ⟨hr', hout⟩ := under_without.mp ⟨q, hq, hunder⟩
    exact ⟨⟨r, hr, hr'⟩, hout⟩
  · rintro ⟨⟨r, hr, hunder⟩, hout⟩
    obtain ⟨q, hq, hq'⟩ := under_without.mpr ⟨hunder, hout⟩
    exact ⟨q, mem_flatMap.mpr ⟨r, hr, hq⟩, hq'⟩

theorem Denotes.forget (h : Denotes runs m) :
    Denotes (forgetRange runs start len) fun i => (FileOp.forget start len).atByte i (m i) := by
  intro i v
  show (if _ then none else m i) = some v ↔ ∃ q ∈ forgetRange runs start len, q.Under i v
  rw [under_forgetRange, ← h i v]
  split <;> simp_all

theorem Denotes.record (hruns : RunsApart runs) (h : Denotes runs m) (hlen : 0 < r.len) :
    Denotes (recordRange runs r) fun i => (FileOp.record r).atByte i (m i) := by
  intro i v
  have hunder : (∃ q ∈ recordRange runs r, q.Under i v) ↔
      r.Under i v ∨ ∃ q ∈ forgetRange runs r.ram_offset r.len, q.Under i v := by
    simp only [mem_recordRange hruns hlen, or_and_right, exists_or, exists_eq_left]
  show (if _ then some _ else m i) = some v ↔ ∃ q ∈ recordRange runs r, q.Under i v
  rw [hunder, under_forgetRange, ← h i v]
  by_cases hi : r.ram_offset ≤ i ∧ i < r.stop
  · rw [if_pos hi, Option.some.injEq]
    constructor
    · exact fun hv => .inl ⟨hi.1, hi.2, hv.symm⟩
    · rintro (⟨-, -, hv⟩ | ⟨-, hout⟩)
      · exact hv.symm
      · exact absurd hi hout
  · rw [if_neg hi]
    constructor
    · exact fun hv => .inr ⟨hv, hi⟩
    · rintro (⟨hlo, hhi, -⟩ | ⟨hv, -⟩)
      · exact absurd ⟨hlo, hhi⟩ hi
      · exact hv

end Denotes

/-- Packed guest RAM with the ranges that are private file mappings. -/
structure GuestMemory where
  bytes : Bytes
  file_backed : Bool
  file_ranges : List FileBackedRange
  deriving DecidableEq

def GuestMemory.size_bytes (mem : GuestMemory) : Nat := mem.bytes.length

/-- `GuestMemory::new`: fresh anonymous memory reads as zero. -/
def GuestMemory.new (size_bytes : Nat) : Result GuestMemory :=
  if size_bytes = 0 ∨ size_bytes % 4096 ≠ 0 then
    .error (.memory
      s!"memory region creation failed: size must be a non-zero multiple of 4096, got {size_bytes}")
  else .ok { bytes := List.replicate size_bytes 0, file_backed := false, file_ranges := [] }

section Map

variable (host : Host)

/-- `map_file_range_private`: replace whole pages of RAM by a private mapping. -/
def mapFileRangePrivate (mem : GuestMemory) (file : File) (file_offset ram_offset len : Nat) :
    Result GuestMemory := do
  refuse (file_offset % 4096 ≠ 0 ∨ ram_offset % 4096 ≠ 0 ∨ len % 4096 ≠ 0 ∨ len = 0)
    (.memory s!"memory region creation failed: snapshot RAM range is not page aligned: file {file_offset}, ram {ram_offset}, len {len}")
  let _ ← okOr ((checkedAdd ram_offset len).filter (· ≤ mem.size_bytes))
    (.memory s!"out of bounds: addr=0x{hex ram_offset} size={len}")
  -- `off_t` is a signed 64-bit offset.
  refuse (2 ^ 63 ≤ file_offset)
    (.memory "memory region creation failed: snapshot RAM offset overflows off_t")
  let _ ← mapErr (host.mmap file file_offset len)
    (fun e => .memory s!"memory region creation failed: map snapshot RAM: {e}")
  let _ ← mapErr (host.tryClone file)
    (fun e => .memory s!"memory region creation failed: record snapshot RAM mapping: {e}")
  return { bytes := copyAt mem.bytes ram_offset (slice file.bytes file_offset len)
           file_backed := true
           file_ranges := recordRange mem.file_ranges { ram_offset, len, file, file_offset } }

/-- `map_file_private`: the whole RAM from one file offset on. -/
def mapFilePrivate (mem : GuestMemory) (file : File) (offset : Nat) : Result GuestMemory :=
  mapFileRangePrivate host mem file offset 0 mem.size_bytes

/-- `discard_range` of RAM without lazy pages, at the packed offset of its range: the pages read as
zero from now on, and no file is under them any more. -/
def discardRange (mem : GuestMemory) (offset len : Nat) : Result GuestMemory := do
  refuse (len = 0 ∨ offset % 4096 ≠ 0 ∨ len % 4096 ≠ 0 ∨ mem.size_bytes < offset + len)
    (.memory s!"out of bounds: addr=0x{hex offset} size={len}")
  return { mem with
    bytes := copyAt mem.bytes offset (List.replicate len 0)
    file_ranges := if mem.file_backed then forgetRange mem.file_ranges offset len
      else mem.file_ranges }

variable {host} {mem mem' : GuestMemory} {file : File} {file_offset ram_offset len : Nat}
  (h : mapFileRangePrivate host mem file file_offset ram_offset len = .ok mem')

include h in
/-- What a successful mapping leaves behind, and the checks it passed. -/
theorem mapFileRangePrivate_eq_ok :
    (file_offset % 4096 = 0 ∧ ram_offset % 4096 = 0 ∧ len % 4096 = 0 ∧ 0 < len) ∧
      ram_offset + len ≤ mem.size_bytes ∧
      mem' = { bytes := copyAt mem.bytes ram_offset (slice file.bytes file_offset len)
               file_backed := true
               file_ranges :=
                 recordRange mem.file_ranges { ram_offset, len, file, file_offset } } := by
  simp only [mapFileRangePrivate, bind_eq_ok, refuse_eq_ok, okOr_eq_ok, mapErr_eq_ok,
    pure_eq_ok, Except.ok.injEq, Option.filter_eq_some_iff, checkedAdd_eq_some,
    decide_eq_true_eq] at h
  obtain ⟨_, ha, stop, ⟨⟨_, rfl⟩, hs⟩, _, _, _, _, _, _, rfl⟩ := h
  exact ⟨by omega, hs, rfl⟩

theorem mapFileRangePrivate_of_maps (hm : host.Maps)
    (ha : file_offset % 4096 = 0 ∧ ram_offset % 4096 = 0 ∧ len % 4096 = 0 ∧ 0 < len)
    (hr : ram_offset + len ≤ mem.size_bytes) (hsz : mem.size_bytes < u64Size)
    (hf : file_offset + len ≤ file.len) (ho : file_offset < 2 ^ 63) :
    mapFileRangePrivate host mem file file_offset ram_offset len =
      .ok { bytes := copyAt mem.bytes ram_offset (slice file.bytes file_offset len)
            file_backed := true
            file_ranges :=
              recordRange mem.file_ranges { ram_offset, len, file, file_offset } } := by
  have hfilter : (checkedAdd ram_offset len).filter (· ≤ mem.size_bytes) =
      some (ram_offset + len) := by
    rw [checkedAdd_of_lt (by omega)]
    simp [Option.filter, hr]
  unfold mapFileRangePrivate
  rw [refuse_of_not (by omega), hfilter, refuse_of_not (by omega),
    hm.mmap file file_offset len ha.1 ha.2.2.2 hf, hm.tryClone file]
  rfl

theorem mapFilePrivate_fresh (hm : host.Maps) {n offset : Nat} (hn : n % 4096 = 0 ∧ 0 < n)
    (ha : offset % 4096 = 0) (hf : offset + n ≤ file.len) (ho : offset < 2 ^ 63)
    (hu : n < u64Size) :
    ∃ mem, mapFilePrivate host
        { bytes := List.replicate n 0, file_backed := false, file_ranges := [] } file offset =
          .ok mem ∧ mem.bytes = slice file.bytes offset n := by
  have hsize : (List.replicate n (0 : UInt8)).length = n := length_replicate
  simp only [mapFilePrivate, GuestMemory.size_bytes, hsize]
  rw [mapFileRangePrivate_of_maps hm ⟨ha, rfl, hn⟩ (by simp [GuestMemory.size_bytes])
    (by simpa [GuestMemory.size_bytes] using hu) hf ho]
  refine ⟨_, rfl, copyAt_all ?_⟩
  rw [slice_length hf, hsize]

include h in
theorem mapFileRangePrivate_size : mem'.size_bytes = mem.size_bytes := by
  obtain ⟨_, hr, rfl⟩ := mapFileRangePrivate_eq_ok h
  have hlen : (slice file.bytes file_offset len).length ≤ len := length_take_le _ _
  exact copyAt_length (Nat.le_trans (Nat.add_le_add_left hlen _) hr)

include h in
theorem mapFileRangePrivate_ranges (hr : RangesOk mem.size_bytes mem.file_ranges) :
    RangesOk mem'.size_bytes mem'.file_ranges := by
  rw [mapFileRangePrivate_size h]
  obtain ⟨ha, hs, rfl⟩ := mapFileRangePrivate_eq_ok h
  exact hr.record ⟨ha.2.1, ha.2.2.1, ha.1⟩ ⟨ha.2.2.2, hs⟩

theorem discardRange_eq_ok {offset : Nat} (h : discardRange mem offset len = .ok mem') :
    (offset % 4096 = 0 ∧ len % 4096 = 0) ∧ mem'.size_bytes = mem.size_bytes ∧
      mem'.file_ranges = if mem.file_backed then forgetRange mem.file_ranges offset len
        else mem.file_ranges := by
  simp only [discardRange, bind_eq_ok, refuse_eq_ok, pure_eq_ok, Except.ok.injEq] at h
  obtain ⟨_, ha, rfl⟩ := h
  refine ⟨by omega, copyAt_length ?_, rfl⟩
  rw [length_replicate]
  unfold GuestMemory.size_bytes at ha
  omega

end Map

/-- RAM as calls have left it, with the operations on its runs that they came to. Mapping a file
records a run and discarding pages of RAM that is file backed forgets them; whatever else is done to
RAM, by a call that fails as well, leaves the runs alone. -/
inductive Mapped (host : Host) : GuestMemory → List FileOp → Prop where
  | new {size : Nat} {mem : GuestMemory} (h : GuestMemory.new size = .ok mem) : Mapped host mem []
  | map {mem mem' : GuestMemory} {ops : List FileOp} {file : File}
      {file_offset ram_offset len : Nat}
      (hmem : Mapped host mem ops)
      (h : mapFileRangePrivate host mem file file_offset ram_offset len = .ok mem') :
      Mapped host mem' (ops ++ [.record { ram_offset, len, file, file_offset }])
  | discard {mem mem' : GuestMemory} {ops : List FileOp} {offset len : Nat}
      (hmem : Mapped host mem ops) (hbacked : mem.file_backed = true)
      (h : discardRange mem offset len = .ok mem') : Mapped host mem' (ops ++ [.forget offset len])
  | other {mem mem' : GuestMemory} {ops : List FileOp} (hmem : Mapped host mem ops)
      (hsize : mem'.size_bytes = mem.size_bytes) (hranges : mem'.file_ranges = mem.file_ranges) :
      Mapped host mem' ops

/-- Whatever was mapped and discarded, the runs are sorted, disjoint, not empty, on page boundaries
and inside RAM, and stand for what the same operations do to each byte. -/
theorem file_ranges_denote {host : Host} {mem : GuestMemory} {ops : List FileOp}
    (h : Mapped host mem ops) : RangesOk mem.size_bytes mem.file_ranges ∧
      Denotes mem.file_ranges fun i => ops.foldl (FileOp.atByte i) none := by
  induction h with
  | new h =>
    unfold GuestMemory.new at h
    split at h
    · cases h
    · cases h
      exact ⟨⟨.nil, by simp, by simp⟩, fun i v => by simp⟩
  | map hmem h ih =>
    refine ⟨mapFileRangePrivate_ranges h ih.1, ?_⟩
    obtain ⟨ha, _, rfl⟩ := mapFileRangePrivate_eq_ok h
    simp only [foldl_append]
    exact ih.2.record ih.1.runsApart ha.2.2.2
  | discard hmem hbacked h ih =>
    obtain ⟨ha, hsize, hranges⟩ := discardRange_eq_ok h
    rw [if_pos hbacked] at hranges
    rw [hsize, hranges]
    simp only [foldl_append]
    exact ⟨ih.1.forget ha.1 ha.2, ih.2.forget⟩
  | other hmem hsize hranges ih =>
    rw [hsize, hranges]
    exact ih

def twoPages : File := ⟨true, 0, 0, 0, 0, List.replicate 8192 7, none⟩

theorem half_forgotten_denoted :
    ∃ mem, Mapped (Host.ofFiles []) mem [.record ⟨0, 8192, twoPages, 0⟩, .forget 4096 4096] ∧
      mem.file_ranges = [⟨0, 4096, twoPages, 0⟩] ∧ Denotes mem.file_ranges fun i =>
        [FileOp.record ⟨0, 8192, twoPages, 0⟩, .forget 4096 4096].foldl (FileOp.atByte i) none := by
  have hmaps : (Host.ofFiles []).Maps := ⟨fun _ _ _ _ _ _ => rfl, fun _ => rfl⟩
  have hnew : GuestMemory.new 8192 = .ok ⟨List.replicate 8192 0, false, []⟩ := rfl
  have hsize : (⟨List.replicate 8192 0, false, []⟩ : GuestMemory).size_bytes = 8192 :=
    length_replicate
  have hfile : 0 + 8192 ≤ twoPages.len := Nat.le_of_eq length_replicate.symm
  obtain ⟨mem, hmap⟩ : ∃ mem, mapFileRangePrivate (Host.ofFiles [])
    ⟨List.replicate 8192 0, false, []⟩
      twoPages 0 0 8192 = .ok mem :=
    ⟨_, mapFileRangePrivate_of_maps hmaps (by decide) (by rw [hsize]) (by rw [hsize]; decide) hfile
      (by decide)⟩
  obtain ⟨-, -, hmem⟩ := mapFileRangePrivate_eq_ok hmap
  have hbacked : mem.file_backed = true := by rw [hmem]
  obtain ⟨mem', hdiscard⟩ : ∃ mem', discardRange mem 4096 4096 = .ok mem' := by
    unfold discardRange
    rw [refuse_of_not (by rw [mapFileRangePrivate_size hmap, hsize]; decide)]
    exact ⟨_, rfl⟩
  have hdone := ((Mapped.new hnew).map hmap).discard hbacked hdiscard
  refine ⟨mem', hdone, ?_, (file_ranges_denote hdone).2⟩
  rw [(discardRange_eq_ok hdiscard).2.2, if_pos hbacked, hmem]
  rfl

end Tarit.Snapshot
