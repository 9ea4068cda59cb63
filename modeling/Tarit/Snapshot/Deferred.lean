import Tarit.Snapshot.DiffWriter

/-!
# A full snapshot in two halves

While the guest is paused only the pages that must be read from memory are written, and
the rest is queued as copies from files. After the guest resumes the queued bytes are
copied extent by extent, the assembled image is hashed from the file, and the header is
written. The second half does not depend on how the first one split the image: whatever
is written or queued correctly ends as the full image.
-/
namespace Tarit.Snapshot

open Lib

/-- `lseek` with `SEEK_DATA` and `SEEK_HOLE`; `ENXIO` is `none`. -/
structure Lseek where
  seekData : File → Nat → Except String (Option Nat)
  seekHole : File → Nat → Except String Nat

/-- Answers that follow the holes of each file, which the file system keeps in units of
4096 bytes. -/
def Lseek.Faithful (l : Lseek) : Prop :=
  ∀ file, ∃ data hole, Holes 4096 file.bytes data hole ∧
    (∀ offset, l.seekData file offset = .ok (data offset)) ∧
    ∀ offset d, data offset = some d → l.seekHole file d = .ok (hole d)

/-- A queued copy: RAM offset, length, backing file and file offset. -/
structure RamCopy where
  ram : Nat
  len : Nat
  source : File
  source_at : Nat

/-- What the first half leaves for the second. -/
structure DeferredFullSnapshot where
  state_blob : Bytes
  layout : SnapshotWriteLayout
  copies : List RamCopy
  verify_base : Option (File × Nat × Nat × UInt32)

section Finish

variable (l : Lseek)

def seekData (file : File) (offset : Nat) : Result (Option Nat) := do
  refuse (2 ^ 63 ≤ offset) (.snapshot "offset overflow")
  mapErr (l.seekData file offset) .snapshot

def seekHole (file : File) (offset : Nat) : Result Nat := do
  refuse (2 ^ 63 ≤ offset) (.snapshot "offset overflow")
  mapErr (l.seekHole file offset) .snapshot

def CHUNK : Nat := 1024 * 1024

def readExactAt (file : File) (offset len : Nat) : Result Bytes := do
  refuse (file.len < offset + len) (.snapshot "failed to fill whole buffer")
  return slice file.bytes offset len

variable {Hasher : Type} (crc : Crc32 Hasher)

/-- The inner loop of `region_crc`: hash the data from `pos` to `hole`. -/
def hashExtent (file : File) (offset : Nat) : Nat → Nat → Nat → Hasher → Result Hasher
  | 0, _, _, hasher => .ok hasher
  | fuel + 1, pos, hole, hasher =>
    if pos < hole then do
      let n := min (hole - pos) CHUNK
      let buffer ← readExactAt file (offset + pos) n
      hashExtent file offset fuel (pos + n) hole (crc.update hasher buffer)
    else .ok hasher

/-- The outer loop of `region_crc`: a hole, then the data behind it. The fuel is more
than the bytes left, so it lasts whenever each step gets further. -/
def regionCrcLoop (file : File) (offset len : Nat) : Nat → Nat → Hasher → Result Hasher
  | 0, _, _ => .error (.snapshot "no progress")
  | fuel + 1, pos, hasher =>
    if pos < len then do
      let found ← seekData l file (offset + pos)
      let data := match found with
        | some d => min (d - offset) len
        | none => len
      let zeros := data - pos
      refuse (zeros % 4096 ≠ 0) (.snapshot "snapshot hole is not page aligned")
      let hasher := combineZeroPages crc hasher (zeros / 4096)
      if data ≥ len then .ok hasher
      else
        let stop ← seekHole l file (offset + data)
        let hole := min (stop - offset) len
        let hasher ← hashExtent crc file offset (hole - data) data hole hasher
        regionCrcLoop file offset len fuel hole hasher
    else .ok hasher

def regionCrc (file : File) (offset len : Nat) : Result UInt32 := do
  let hasher ← regionCrcLoop l crc file offset len (len + 1) 0 crc.new
  return crc.finalize hasher

/-- Copy the data of one extent to its place behind `base`, a chunk at a time. -/
def copyExtent (base : Nat) (copy : RamCopy) : Nat → Nat → Nat → Bytes → Result Bytes
  | 0, _, _, out => .ok out
  | fuel + 1, pos, hole, out =>
    if pos < hole then do
      let n := min (hole - pos) CHUNK
      let buffer ← readExactAt copy.source pos n
      copyExtent base copy fuel (pos + n) hole
        (writeAt out (base + copy.ram + (pos - copy.source_at)) buffer)
    else .ok out

/-- Copy one queued run: its holes stay holes. -/
def copyRun (base : Nat) (copy : RamCopy) : Nat → Nat → Bytes → Result Bytes
  | 0, _, _ => .error (.snapshot "no progress")
  | fuel + 1, pos, out =>
    let stop := copy.source_at + copy.len
    if pos < stop then do
      let found ← seekData l copy.source pos
      match found.filter (· < stop) with
      | none => .ok out
      | some data =>
        let hole ← seekHole l copy.source data
        let hole := min hole stop
        let out ← copyExtent base copy (hole - data) data hole out
        copyRun base copy fuel hole out
    else .ok out

def copyRuns (base : Nat) (copies : List RamCopy) (out : Bytes) : Result Bytes :=
  copies.foldlM (fun out copy => copyRun l base copy (copy.len + 1) copy.source_at out) out

/-- The check of the base a snapshot was taken against, before its bytes are trusted. -/
def verifyBase : Option (File × Nat × Nat × UInt32) → Result Unit
  | none => .ok ()
  | some (base_file, offset, len, expected) => do
    let actual ← regionCrc l crc base_file offset len
    refuse (actual ≠ expected)
      (.snapshot
        s!"snapshot base memory CRC is {hexCrc actual.toNat}, its header records {hexCrc expected.toNat}")

def finishDeferredSnapshot (file : File) (snapshot : DeferredFullSnapshot) : Result File := do
  verifyBase l crc snapshot.verify_base
  let out ← copyRuns l snapshot.layout.mem_offset snapshot.copies file.bytes
  let mem_crc ← regionCrc l crc { file with bytes := out } snapshot.layout.mem_offset
    snapshot.layout.mem_len
  return snapshot.layout.finish { file with bytes := out } snapshot.state_blob mem_crc.toNat

end Finish

variable {l : Lseek} {Hasher : Type} {crc : Crc32 Hasher} {mem : Bytes}

section Hash

variable {file : File} {offset len : Nat}

theorem seekData_of_lt {d : Option Nat} (ho : offset < 2 ^ 63)
    (h : l.seekData file offset = .ok d) : seekData l file offset = .ok d := by
  rw [seekData, refuse_of_not (by omega), ok_bind, h]
  rfl

theorem seekHole_of_lt {d : Nat} (ho : offset < 2 ^ 63) (h : l.seekHole file offset = .ok d) :
    seekHole l file offset = .ok d := by
  rw [seekHole, refuse_of_not (by omega), ok_bind, h]
  rfl

theorem readExactAt_of_le (h : offset + len ≤ file.len) :
    readExactAt file offset len = .ok (window file.bytes offset len) := by
  rw [readExactAt, refuse_of_not (by omega), ok_bind, window_eq_slice h]
  rfl

theorem hashExtent_fed (offset fuel pos : Nat) {hole : Nat} {hasher : Hasher} {a : Bytes}
    (hf : hole - pos ≤ fuel) (hle : pos ≤ hole) (hfit : offset + hole ≤ file.len)
    (hfed : crc.Fed hasher a) :
    ∃ out, hashExtent crc file offset fuel pos hole hasher = .ok out ∧
      crc.Fed out (a ++ window file.bytes (offset + pos) (hole - pos)) := by
  induction fuel generalizing pos hasher a with
  | zero =>
    have hz : hole - pos = 0 := by omega
    exact ⟨hasher, rfl, by simpa [hz, window] using hfed⟩
  | succ fuel ih =>
    rw [hashExtent]
    by_cases hlt : pos < hole
    swap
    · have hz : hole - pos = 0 := by omega
      rw [if_neg hlt]
      exact ⟨hasher, rfl, by simpa [hz, window] using hfed⟩
    have hpos : 0 < CHUNK := by decide
    rw [if_pos hlt]
    dsimp only
    generalize hn : min (hole - pos) CHUNK = n
    rw [readExactAt_of_le (by omega), ok_bind]
    obtain ⟨out, hout, hfed'⟩ := ih (pos + n) (by omega) (by omega)
      (crc.update_fed hfed (window file.bytes (offset + pos) n))
    refine ⟨out, hout, ?_⟩
    rw [List.append_assoc, ← add_assoc, ← window_add] at hfed'
    rwa [show n + (hole - (pos + n)) = hole - pos by omega] at hfed'

/-- From a page boundary, the hole and the data behind it keep to page boundaries. -/
theorem regionCrcLoop_fed (hl : l.Faithful) (fuel pos : Nat) {hasher : Hasher}
    (hf : len - pos < fuel) (hle : pos ≤ len)
    (hpage : offset % 4096 = 0 ∧ len % 4096 = 0 ∧ pos % 4096 = 0)
    (hend : file.len % 4096 = 0 ∨ offset + len ≤ file.len) (ho : offset + len < 2 ^ 63)
    (hfed : crc.Fed hasher (window file.bytes offset pos)) :
    ∃ out, regionCrcLoop l crc file offset len fuel pos hasher = .ok out ∧
      crc.Fed out (window file.bytes offset len) := by
  obtain ⟨data, hole, hholes, hdata, hhole⟩ := hl file
  induction fuel generalizing pos hasher with
  | zero => omega
  | succ fuel ih =>
    rw [regionCrcLoop]
    by_cases hlt : pos < len
    swap
    · obtain rfl : pos = len := by omega
      rw [if_neg hlt]
      exact ⟨hasher, rfl, hfed⟩
    rw [if_pos hlt, seekData_of_lt (by omega) (hdata _), ok_bind]
    have hzero : ∀ n, pos ≤ n → n ≤ len → (n - pos) % 4096 = 0 →
        (∀ i, offset + pos ≤ i → i < offset + n → peek file.bytes i = 0) →
        crc.Fed (combineZeroPages crc hasher ((n - pos) / 4096)) (window file.bytes offset n) := by
      intro n hpn _ hmod hz
      have hwin : window file.bytes (offset + pos) (n - pos) = List.replicate (n - pos) 0 :=
        window_zero fun i hi => hz _ (by omega) (by omega)
      have hfed' := combineZeroPages_fed ((n - pos) / 4096) hfed
      rw [Nat.div_mul_cancel (Nat.dvd_of_mod_eq_zero hmod), ← hwin, ← window_add] at hfed'
      rwa [show pos + (n - pos) = n by omega] at hfed'
    cases hd : data (offset + pos) with
    | none =>
      have hz := hholes.data_none _ hd
      dsimp only
      rw [refuse_of_not (by omega), ok_bind, if_pos (le_refl _)]
      exact ⟨_, rfl, hzero len hle (le_refl _) (by omega) (fun i h1 _ => hz i h1)⟩
    | some d =>
      obtain ⟨hlo, hin, hal, hz⟩ := hholes.data_some _ d hd
      obtain ⟨hnext, hstop, hbound⟩ := hholes.hole_of_data _ d hd
      dsimp only
      by_cases hpast : len ≤ d - offset
      · rw [Nat.min_eq_right hpast, refuse_of_not (by omega), ok_bind, if_pos (le_refl _)]
        exact ⟨_, rfl, hzero len hle (le_refl _) (by omega) (fun i h1 h2 => hz i h1 (by omega))⟩
      rw [Nat.min_eq_left (by omega), refuse_of_not (by omega), ok_bind, if_neg (by omega),
        show offset + (d - offset) = d by omega,
        seekHole_of_lt (by omega) (hhole _ d hd), ok_bind]
      have hfed' := hzero (d - offset) (by omega) (by omega) (by omega)
        (fun i h1 h2 => hz i h1 (by omega))
      generalize hm : min (hole d - offset) len = m
      obtain ⟨mid, hmid, hfedm⟩ := hashExtent_fed offset (m - (d - offset)) (d - offset)
        (le_refl _) (by omega) (show offset + m ≤ file.len by unfold File.len; omega) hfed'
      rw [hmid, ok_bind]
      rw [← window_add, show d - offset + (m - (d - offset)) = m by omega] at hfedm
      unfold File.len at hend
      exact ih m (by omega) (by omega) ⟨hpage.1, hpage.2.1, by omega⟩ hfedm

/-- A region of whole pages is hashed as it reads, its holes included. -/
theorem regionCrc_of_pages (crc : Crc32 Hasher) (file : File) (hl : l.Faithful)
    (hpage : offset % 4096 = 0 ∧ len % 4096 = 0)
    (hend : file.len % 4096 = 0 ∨ offset + len ≤ file.len) (ho : offset + len < 2 ^ 63) :
    regionCrc l crc file offset len = .ok (crc.hash (window file.bytes offset len)) := by
  obtain ⟨out, hout, hfed⟩ := regionCrcLoop_fed hl (len + 1) 0 (by omega) (Nat.zero_le _)
    ⟨hpage.1, hpage.2, rfl⟩ hend ho (by simpa [window] using crc.new_fed)
  rw [regionCrc, hout, ok_bind, crc.finalize_fed hfed]
  rfl

end Hash

section Copy

variable {base : Nat}

/-- A copy that puts what RAM holds: whole pages, inside RAM and inside its file. -/
structure RamCopy.Ok (mem : Bytes) (copy : RamCopy) : Prop where
  page : copy.ram % 4096 = 0 ∧ copy.len % 4096 = 0 ∧ copy.source_at % 4096 = 0
  ram : copy.ram + copy.len ≤ mem.length
  file : copy.source_at + copy.len ≤ copy.source.len
  off_t : copy.source.len < 2 ^ 63
  agree : ∀ j < copy.len, peek copy.source.bytes (copy.source_at + j) = peek mem (copy.ram + j)

def RamCopy.Covers (copy : RamCopy) (i : Nat) : Prop := copy.ram ≤ i ∧ i < copy.ram + copy.len

theorem copyExtent_fills {copy : RamCopy} (hc : copy.Ok mem) (fuel pos : Nat) {hole : Nat}
    (out : Bytes) (hbase : base % 4096 = 0) (hf : hole - pos ≤ fuel) (hle : pos ≤ hole)
    (hlo : copy.source_at ≤ pos) (hhi : hole ≤ copy.source_at + copy.len)
    (hpage : pos % 4096 = 0 ∧ hole % 4096 = 0) (hout : out.length % 4096 = 0) :
    ∃ out', copyExtent base copy fuel pos hole out = .ok out' ∧ Fills base mem out out' ∧
      out'.length % 4096 = 0 ∧
      ∀ j, pos ≤ copy.source_at + j → copy.source_at + j < hole →
        peek out' (base + (copy.ram + j)) = peek mem (copy.ram + j) := by
  induction fuel generalizing pos out with
  | zero => exact ⟨out, rfl, .refl _ _ _, hout, fun j _ _ => by omega⟩
  | succ fuel ih =>
    rw [copyExtent]
    by_cases hlt : pos < hole
    swap
    · rw [if_neg hlt]
      exact ⟨out, rfl, .refl _ _ _, hout, fun j _ _ => by omega⟩
    have hchunk : 0 < CHUNK ∧ CHUNK % 4096 = 0 := by decide
    have hfile := hc.file
    have hram := hc.ram
    have hal := hc.page
    rw [if_pos hlt]
    dsimp only
    generalize hn : min (hole - pos) CHUNK = n
    rw [readExactAt_of_le (by omega), ok_bind]
    have hwin : ∀ j < (window copy.source.bytes pos n).length,
        peek (window copy.source.bytes pos n) j =
          peek mem (copy.ram + (pos - copy.source_at) + j) := by
      intro j hj
      rw [window_length] at hj
      have hagree := hc.agree (pos - copy.source_at + j) (by omega)
      rw [peek_window, if_pos hj, add_assoc copy.ram, ← hagree]
      congr 1
      omega
    have hfill : Fills base mem out (writeAt out (base + (copy.ram + (pos - copy.source_at)))
        (window copy.source.bytes pos n)) :=
      fills_writeAt (by rw [window_length]; omega) hwin
    have hlen := writeAt_length out (base + (copy.ram + (pos - copy.source_at)))
      (window copy.source.bytes pos n) (by rw [window_length]; omega)
    rw [window_length] at hlen
    rw [add_assoc base]
    obtain ⟨out', hok, hfill', hlen', hput⟩ := ih (pos + n)
      (writeAt out (base + (copy.ram + (pos - copy.source_at))) (window copy.source.bytes pos n))
      (by omega) (by omega) (by omega) ⟨by omega, hpage.2⟩ (by rw [hlen]; omega)
    refine ⟨out', hok, hfill.trans hfill', hlen', ?_⟩
    intro j hj hjh
    by_cases hnow : copy.source_at + j < pos + n
    · apply hfill'.keeps
      have hj' := hwin (copy.source_at + j - pos) (by rw [window_length]; omega)
      rw [peek_writeAt, window_length, if_pos (by omega)]
      rw [show base + (copy.ram + j) - (base + (copy.ram + (pos - copy.source_at))) =
        copy.source_at + j - pos by omega, hj']
      congr 1
      omega
    · exact hput j (by omega) hjh

theorem copyRun_fills (hl : l.Faithful) {copy : RamCopy} (hc : copy.Ok mem) (fuel pos : Nat)
    {out : Bytes} (hbase : base % 4096 = 0)
    (hf : copy.source_at + copy.len - pos < fuel) (hlo : copy.source_at ≤ pos)
    (hhi : pos ≤ copy.source_at + copy.len) (hpage : pos % 4096 = 0)
    (hout : out.length % 4096 = 0) :
    ∃ out', copyRun l base copy fuel pos out = .ok out' ∧ Fills base mem out out' ∧
      out'.length % 4096 = 0 ∧
      ∀ j < copy.len, pos ≤ copy.source_at + j →
        peek mem (copy.ram + j) = 0 ∨
          peek out' (base + (copy.ram + j)) = peek mem (copy.ram + j) := by
  obtain ⟨data, hole, hholes, hdata, hhole⟩ := hl copy.source
  have hfile := hc.file
  have hal := hc.page
  have hofft := hc.off_t
  induction fuel generalizing pos out with
  | zero => omega
  | succ fuel ih =>
    rw [copyRun]
    by_cases hlt : pos < copy.source_at + copy.len
    swap
    · rw [if_neg hlt]
      exact ⟨out, rfl, .refl _ _ _, hout, fun j hj hjp => by omega⟩
    rw [if_pos hlt, seekData_of_lt (by omega) (hdata _), ok_bind]
    -- What `SEEK_DATA` skips is zero in the file, and so in RAM.
    have hskip : ∀ stop, (∀ i, pos ≤ i → i < stop → peek copy.source.bytes i = 0) →
        ∀ j < copy.len, pos ≤ copy.source_at + j → copy.source_at + j < stop →
          peek mem (copy.ram + j) = 0 := by
      intro stop hz j hj hjp hjs
      rw [← hc.agree j hj]
      exact hz _ hjp hjs
    cases hfilter : (data pos).filter (fun x => decide (x < copy.source_at + copy.len)) with
    | none =>
      refine ⟨out, rfl, .refl _ _ _, hout, fun j hj hjp => .inl (hskip _ (fun i h1 h2 => ?_)
        j hj hjp (Nat.add_lt_add_left hj _))⟩
      cases hd : data pos with
      | none => exact hholes.data_none _ hd i h1
      | some d =>
        rw [hd, Option.filter_some_eq_none, decide_eq_true_eq] at hfilter
        exact (hholes.data_some _ d hd).2.2.2 i h1 (by omega)
    | some d =>
      obtain ⟨hd, hpast⟩ := Option.filter_eq_some_iff.mp hfilter
      rw [decide_eq_true_eq] at hpast
      obtain ⟨hdlo, hdin, hdal, hz⟩ := hholes.data_some _ d hd
      obtain ⟨hnext, hstop, hbound⟩ := hholes.hole_of_data _ d hd
      dsimp only
      rw [seekHole_of_lt (by omega) (hhole _ d hd), ok_bind]
      generalize hm : min (hole d) (copy.source_at + copy.len) = m
      have hmpage : m % 4096 = 0 := by
        unfold File.len at hfile
        omega
      obtain ⟨mid, hmid, hfill, hlen, hput⟩ := copyExtent_fills hc (m - d) d out hbase (le_refl _)
        (by omega) (by omega) (by omega) ⟨by omega, hmpage⟩ hout
      rw [hmid, ok_bind]
      obtain ⟨out', hok, hfill', hlen', hput'⟩ := ih m (by omega) (by omega) (by omega) hmpage hlen
      refine ⟨out', hok, hfill.trans hfill', hlen', ?_⟩
      intro j hj hjp
      by_cases hbefore : copy.source_at + j < d
      · exact .inl (hskip d hz j hj hjp hbefore)
      by_cases hinside : copy.source_at + j < m
      · exact .inr (hfill'.keeps (hput j (by omega) hinside))
      · exact hput' j hj (by omega)

/-- After the copies, every byte they cover is in the output or zero. -/
theorem copyRuns_fills (hl : l.Faithful) {copies : List RamCopy} (hc : ∀ c ∈ copies, c.Ok mem)
    {out : Bytes} (hbase : base % 4096 = 0) (hout : out.length % 4096 = 0) :
    ∃ out', copyRuns l base copies out = .ok out' ∧ Fills base mem out out' ∧
      out'.length % 4096 = 0 ∧
      ∀ c ∈ copies, ∀ i, c.Covers i → peek mem i = 0 ∨ peek out' (base + i) = peek mem i := by
  unfold copyRuns
  induction copies generalizing out with
  | nil => exact ⟨out, rfl, .refl _ _ _, hout, by simp⟩
  | cons c copies ih =>
    have hok := hc c (by simp)
    have hal := hok.page
    obtain ⟨mid, hmid, hfill, hlen, hput⟩ := copyRun_fills hl hok (c.len + 1) c.source_at hbase
      (by omega) (le_refl _) (by omega) hal.2.2 hout
    obtain ⟨out', hrest, hfill', hlen', hput'⟩ := ih (fun d hd => hc d (by simp [hd])) hlen
    refine ⟨out', ?_, hfill.trans hfill', hlen', ?_⟩
    · rw [List.foldlM_cons, hmid, ok_bind, hrest]
    · refine List.forall_mem_cons.mpr ⟨fun i hi => ?_, hput'⟩
      obtain ⟨hlo, hhi⟩ := hi
      obtain ⟨j, rfl⟩ := Nat.exists_eq_add_of_le hlo
      exact (hput j (by omega) (by omega)).imp_right hfill'.keeps

end Copy

section Whole

variable {state_blob : Bytes}

/-- A first half done right: each byte of RAM is in place in the file, or reads as zero
there and is zero in RAM or covered by a queued copy. -/
structure DeferredOk (l : Lseek) (crc : Crc32 Hasher) (state_blob mem : Bytes) (file : File)
    (snapshot : DeferredFullSnapshot) : Prop where
  state : snapshot.state_blob = state_blob
  layout : LayoutOf crc state_blob mem.length false snapshot.layout
  page : snapshot.layout.mem_offset % 4096 = 0 ∧ mem.length % 4096 = 0
  off_t : snapshot.layout.mem_offset + mem.length < 2 ^ 63
  length : file.bytes.length % 4096 = 0
  copies : ∀ c ∈ snapshot.copies, c.Ok mem
  bytes : ∀ i < mem.length, peek file.bytes (snapshot.layout.mem_offset + i) = peek mem i ∨
    (peek file.bytes (snapshot.layout.mem_offset + i) = 0 ∧ ∃ c ∈ snapshot.copies, c.Covers i)
  verify : verifyBase l crc snapshot.verify_base = .ok ()

theorem finishDeferredSnapshot_bytes (hl : l.Faithful) {file : File}
    {snapshot : DeferredFullSnapshot} (h : DeferredOk l crc state_blob mem file snapshot) :
    ∃ f, finishDeferredSnapshot l crc file snapshot = .ok f ∧
      f.bytes = fullImage crc snapshot.layout state_blob mem := by
  obtain ⟨out, hout, hfill, hlen, hput⟩ := copyRuns_fills hl h.copies h.page.1 h.length
  have hall : ∀ i < mem.length, peek out (snapshot.layout.mem_offset + i) = peek mem i := by
    intro i hi
    rcases h.bytes i hi with hin | ⟨hz, c, hc, hcov⟩
    · exact hfill.keeps hin
    rcases hput c hc i hcov with hmem | hin
    · apply hfill.keeps
      rw [hz, hmem]
    · exact hin
  have hwin : window out snapshot.layout.mem_offset mem.length = mem := by
    apply eq_of_peek (window_length _ _ _)
    intro i hi
    rw [window_length] at hi
    rw [peek_window, if_pos hi, hall i hi]
  have hcrc := regionCrc_of_pages crc { file with bytes := out } hl h.page (.inl hlen) h.off_t
  rw [finishDeferredSnapshot, h.verify, ok_bind, hout, ok_bind, h.layout.mem_len, hcrc, ok_bind,
    h.state]
  refine ⟨_, rfl, ?_⟩
  rw [finish_bytes h.layout hall, hwin]
  rfl

end Whole

end Tarit.Snapshot
