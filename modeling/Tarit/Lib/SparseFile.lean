import Tarit.Lib.Bytes

/-!
# Files with holes

A file is its bytes; past its end it reads as zero once it is grown. `writeAt` and
`setLen` are positioned writes and truncation, and both are described by `peek`, the
byte at an offset. `Holes` is what a host may answer about where a file has data: the
bytes it skips are zero.
-/
namespace Tarit.Lib

open List

/-- The byte at `i`, zero past the end. -/
def peek (f : Bytes) (i : Nat) : UInt8 := f.getD i 0

/-- `write_all_at`: the file grows, zero filled, up to the end of the write. -/
def writeAt (f : Bytes) (off : Nat) (data : Bytes) : Bytes :=
  if data.length = 0 then f
  else copyAt (f ++ replicate (off + data.length - f.length) 0) off data

def setLen (f : Bytes) (n : Nat) : Bytes := f.take n ++ replicate (n - f.length) 0

def window (f : Bytes) (off len : Nat) : Bytes := (range len).map fun i => peek f (off + i)

variable {f : Bytes} {i n : Nat}

theorem peek_eq_getElem? : peek f i = f[i]?.getD 0 := by
  rw [peek, getD_eq_getElem?_getD]

variable {f : Bytes} {off : Nat}

theorem peek_of_ge {i : Nat} (h : f.length ≤ i) : peek f i = 0 := by
  rw [peek_eq_getElem?, getElem?_eq_none h]
  rfl

theorem eq_of_peek {a b : Bytes} (hl : a.length = b.length)
    (h : ∀ i < a.length, peek a i = peek b i) : a = b := by
  apply ext_getElem hl
  intro i ha hb
  have hi := h i ha
  rw [peek_eq_getElem?, peek_eq_getElem?, getElem?_eq_getElem ha,
    getElem?_eq_getElem hb] at hi
  exact hi

theorem peek_append (a b : Bytes) :
    peek (a ++ b) i = if i < a.length then peek a i else peek b (i - a.length) := by
  simp only [peek_eq_getElem?]
  split
  · rename_i h
    rw [getElem?_append_left h]
  · rename_i h
    rw [getElem?_append_right (by omega)]

theorem peek_replicate_zero : peek (replicate n 0) i = 0 := by
  rw [peek_eq_getElem?, getElem?_replicate]
  split <;> rfl

theorem peek_slice (f : Bytes) (start len i : Nat) :
    peek (slice f start len) i = if i < len then peek f (start + i) else 0 := by
  rw [peek_eq_getElem?, getElem?_slice]
  split
  · rw [peek_eq_getElem?]
  · rfl

theorem peek_copyAt {data : Bytes} (h : off + data.length ≤ f.length) :
    peek (copyAt f off data) i =
      if off ≤ i ∧ i < off + data.length then peek data (i - off) else peek f i := by
  rw [peek_eq_getElem?, getElem?_copyAt h]
  split <;> rw [peek_eq_getElem?]

theorem peek_grow : peek (f ++ replicate n 0) i = peek f i := by
  rw [peek_append, peek_replicate_zero]
  split
  · rfl
  · rename_i h
    rw [peek_of_ge (by omega)]

theorem peek_writeAt (data : Bytes) :
    peek (writeAt f off data) i =
      if off ≤ i ∧ i < off + data.length then peek data (i - off) else peek f i := by
  unfold writeAt
  split
  · rename_i h
    rw [if_neg (by omega)]
  · rw [peek_copyAt (by simp; omega), peek_grow]

theorem writeAt_length (f : Bytes) (off : Nat) (data : Bytes) (h : 0 < data.length) :
    (writeAt f off data).length = max f.length (off + data.length) := by
  unfold writeAt
  rw [if_neg (by omega), copyAt_length (by simp; omega)]
  simp
  omega

theorem setLen_length : (setLen f n).length = n := by
  simp [setLen]
  omega

theorem peek_setLen : peek (setLen f n) i = if i < n then peek f i else 0 := by
  split
  · rename_i h
    rw [setLen, peek_append, length_take, peek_replicate_zero]
    split
    · rw [peek_eq_getElem?, getElem?_take_of_lt (by omega), ← peek_eq_getElem?]
    · rw [peek_of_ge (by omega)]
  · rename_i h
    exact peek_of_ge (by rw [setLen_length]; omega)

@[simp] theorem window_length (f : Bytes) (off len : Nat) : (window f off len).length = len := by
  simp [window]

theorem peek_window (len : Nat) :
    peek (window f off len) i = if i < len then peek f (off + i) else 0 := by
  rw [peek_eq_getElem?, window, getElem?_map]
  by_cases h : i < len
  · rw [getElem?_range h, if_pos h]
    rfl
  · rw [getElem?_eq_none (by simpa using h), if_neg h]
    rfl

theorem window_add (m : Nat) : window f off (m + n) = window f off m ++ window f (off + m) n := by
  simp [window, range_add, Nat.add_assoc]

theorem window_eq_slice {len : Nat} (h : off + len ≤ f.length) :
    window f off len = slice f off len := by
  apply eq_of_peek
  · rw [window_length, slice_length h]
  · intro i hi
    rw [peek_window, peek_slice]

theorem window_zero {len : Nat} (h : ∀ i < len, peek f (off + i) = 0) :
    window f off len = replicate len 0 := by
  apply eq_of_peek
  · simp
  · intro i hi
    rw [window_length] at hi
    rw [peek_window, if_pos hi, h i hi, peek_replicate_zero]

/-- Faithful answers about the holes of `f`, in units of `page`: `data off` is the next
offset from `off` on that may hold data, `hole d` the end of the data found at `d`. What
`data` skips is zero. -/
structure Holes (page : Nat) (f : Bytes) (data : Nat → Option Nat) (hole : Nat → Nat) : Prop where
  data_none : ∀ off, data off = none → ∀ i, off ≤ i → peek f i = 0
  data_some : ∀ off d, data off = some d →
    off ≤ d ∧ d < f.length ∧ (d = off ∨ d % page = 0) ∧ ∀ i, off ≤ i → i < d → peek f i = 0
  hole_of_data : ∀ off d, data off = some d →
    d < hole d ∧ hole d ≤ f.length ∧ (hole d % page = 0 ∨ hole d = f.length)

section Fill

variable {base : Nat} {mem out out' out'' : Bytes}

/-- `out'` is `out` with some elements of `mem` put in their place behind `base`. -/
def Fills (base : Nat) (mem out out' : Bytes) : Prop :=
  ∀ i, peek out' i = peek out i ∨
    (base ≤ i ∧ i < base + mem.length ∧ peek out' i = peek mem (i - base))

theorem Fills.refl (base : Nat) (mem out : Bytes) : Fills base mem out out := fun _ => .inl rfl

theorem Fills.trans (h : Fills base mem out out') (h' : Fills base mem out' out'') :
    Fills base mem out out'' := by
  intro i
  rcases h' i with heq | hput
  · rcases h i with heq' | ⟨hlo, hhi, hput⟩
    · exact .inl (heq.trans heq')
    · exact .inr ⟨hlo, hhi, heq.trans hput⟩
  · exact .inr hput

theorem Fills.keeps (h : Fills base mem out out') {i : Nat}
    (hi : peek out (base + i) = peek mem i) : peek out' (base + i) = peek mem i := by
  rcases h (base + i) with heq | ⟨_, _, hput⟩
  · exact heq.trans hi
  · rw [hput, Nat.add_sub_cancel_left]

theorem fills_writeAt {pos : Nat} {data : Bytes} (hfit : pos + data.length ≤ mem.length)
    (h : ∀ j < data.length, peek data j = peek mem (pos + j)) :
    Fills base mem out (writeAt out (base + pos) data) := by
  intro i
  rw [peek_writeAt]
  split
  · rename_i hin
    refine .inr ⟨by omega, by omega, ?_⟩
    rw [h _ (by omega)]
    congr 1
    omega
  · exact .inl rfl

end Fill

section RunWriter

/-! A writer that walks `data` piece by piece, skips some pieces and writes each maximal
run of the others in one go when the run ends. -/

variable (offset : Nat) (data : Bytes)

/-- Write the pending run, if any, up to `stop`. -/
def flushRun (out : Bytes) (run : Option Nat) (stop : Nat) : Bytes :=
  match run with
  | some first => writeAt out (offset + first) (slice data first (stop - first))
  | none => out

/-- One piece at `start`: a skipped piece ends the pending run, another one joins it. -/
def placePiece (skip : Bool) (start : Nat) (s : Bytes × Option Nat) : Bytes × Option Nat :=
  if skip then (flushRun offset data s.1 s.2 start, none) else (s.1, some (s.2.getD start))

/-- After `start` elements: the file `base` holds the kept ones up to the pending run. -/
structure RunInv (base : Bytes) (keep : Nat → Bool) (start : Nat) (s : Bytes × Option Nat) :
    Prop where
  run_le : ∀ first, s.2 = some first → first ≤ start ∧ ∀ i, first ≤ i → i < start → keep i = true
  out : ∀ i, peek s.1 i =
    if offset ≤ i ∧ i < offset + s.2.getD start ∧ keep (i - offset) = true
    then peek data (i - offset) else peek base i

variable {offset data}

theorem RunInv.init (base : Bytes) (keep : Nat → Bool) :
    RunInv offset data base keep 0 (base, none) := by
  refine ⟨by simp, fun i => ?_⟩
  rw [if_neg]
  simp
  omega

variable {start : Nat} {s : Bytes × Option Nat} {base : Bytes}

/-- Once the pending run is written, the file holds exactly the kept elements. -/
theorem RunInv.flush {keep : Nat → Bool} (h : RunInv offset data base keep start s)
    (hd : start ≤ data.length) (i : Nat) :
    peek (flushRun offset data s.1 s.2 start) i =
      if offset ≤ i ∧ i < offset + start ∧ keep (i - offset) = true
      then peek data (i - offset) else peek base i := by
  obtain ⟨out, run⟩ := s
  cases run with
  | none => exact h.out i
  | some first =>
    obtain ⟨hle, hkeep⟩ := h.run_le first rfl
    have hlen : (slice data first (start - first)).length = start - first := slice_length (by omega)
    have hout := h.out i
    simp only [Option.getD_some] at hout
    simp only [flushRun, peek_writeAt, hlen, peek_slice, hout]
    by_cases hmid : offset + first ≤ i ∧ i < offset + first + (start - first)
    · have hk := hkeep (i - offset) (by omega) (by omega)
      rw [if_pos hmid, if_pos (by omega), if_pos ⟨by omega, by omega, hk⟩]
      congr 1
      omega
    · rw [if_neg hmid]
      by_cases hlo : i < offset + first
      · have hiff : (offset ≤ i ∧ i < offset + first ∧ keep (i - offset) = true) ↔
            (offset ≤ i ∧ i < offset + start ∧ keep (i - offset) = true) := by
          constructor <;> rintro ⟨h1, h2, h3⟩ <;> exact ⟨h1, by omega, h3⟩
        simp only [hiff]
      · rw [if_neg (by omega), if_neg (by omega)]

/-- One piece, written or left as a hole, keeps the invariant. -/
theorem RunInv.place {keep : Nat → Bool} {n : Nat} {skip : Bool}
    (h : RunInv offset data base keep start s) (hd : start ≤ data.length)
    (hk : ∀ i, start ≤ i → i < start + n → keep i = !skip) :
    RunInv offset data base keep (start + n) (placePiece offset data skip start s) := by
  cases skip with
  | true =>
    refine ⟨by simp [placePiece], fun i => ?_⟩
    have hflush := h.flush hd i
    simp only [placePiece, if_true, Option.getD_none] at hflush ⊢
    rw [hflush]
    by_cases hnew : offset ≤ i ∧ offset + start ≤ i ∧ i < offset + (start + n)
    · have hskip := hk (i - offset) (by omega) (by omega)
      rw [if_neg (by omega), if_neg (by simp [hskip])]
    · have hiff : (offset ≤ i ∧ i < offset + start ∧ keep (i - offset) = true) ↔
          (offset ≤ i ∧ i < offset + (start + n) ∧ keep (i - offset) = true) := by
        constructor <;> rintro ⟨h1, h2, h3⟩ <;> exact ⟨h1, by omega, h3⟩
      simp only [hiff]
  | false =>
    refine ⟨?_, fun i => ?_⟩
    · intro first hf
      have hf' : s.2.getD start = first := by simpa [placePiece] using hf
      cases hrun : s.2 with
      | none =>
        rw [hrun, Option.getD_none] at hf'
        exact ⟨by omega, fun i h1 h2 => hk i (by omega) h2⟩
      | some first' =>
        obtain ⟨hle, hkeep⟩ := h.run_le first' hrun
        rw [hrun, Option.getD_some] at hf'
        refine ⟨by omega, fun i h1 h2 => ?_⟩
        by_cases hi : i < start
        · exact hkeep i (by omega) hi
        · exact hk i (by omega) h2
    · have hout := h.out i
      exact hout

/-- Runs that start and end on multiples of `page` keep the file's length one. -/
theorem flushRun_dvd {page : Nat} {out : Bytes} {run : Option Nat} {stop : Nat}
    (ho : page ∣ offset) (hout : page ∣ out.length) (hs : page ∣ stop)
    (hd : stop ≤ data.length) : page ∣ (flushRun offset data out run stop).length := by
  cases run with
  | none => exact hout
  | some first =>
    unfold flushRun
    dsimp only
    by_cases hle : stop ≤ first
    · have hnil : slice data first (stop - first) = [] := by
        rw [Nat.sub_eq_zero_of_le hle]
        simp [slice]
      rw [hnil, writeAt, if_pos length_nil]
      exact hout
    · have hlen : (slice data first (stop - first)).length = stop - first := slice_length (by omega)
      rw [writeAt_length _ _ _ (by omega), hlen,
        show offset + first + (stop - first) = offset + stop by omega]
      rcases Nat.le_total out.length (offset + stop) with h | h
      · rw [Nat.max_eq_right h]
        exact Nat.dvd_add ho hs
      · rw [Nat.max_eq_left h]
        exact hout

theorem placePiece_dvd {page : Nat} (skip : Bool) (ho : page ∣ offset) (hout : page ∣ s.1.length)
    (hs : page ∣ start) (hd : start ≤ data.length) :
    page ∣ (placePiece offset data skip start s).1.length := by
  cases skip with
  | true => exact flushRun_dvd ho hout hs hd
  | false => exact hout

end RunWriter

end Tarit.Lib
