import Tarit.Live.DirtyLog

/-!
# Copying RAM that is being written

Bytes are read and written one at a time, so every write of the guest or a device can
fall between two of them: a page may be torn, and a page found zero may be written before
the scan goes on. What survives is `Lags`: every staged byte that is not late is the byte
in RAM, or its page is recorded.
-/
namespace Tarit.Live

open Lib Snapshot Option

def load (offset : Nat) : Thread UInt8 := Prog.perform (Op.load offset)

def put (offset : Nat) (byte : UInt8) : Thread (Except String Unit) :=
  Prog.perform (Op.put offset byte)

/-- `write_all_at` of `n` bytes of the source from `start` on, to file offset `off`. -/
def writeAllAt (source : Nat → Thread UInt8) : (start off n : Nat) → ExceptT String Thread Unit
  | _, _, 0 => pure ()
  | start, off, n + 1 => do
    let byte ← source start
    ExceptT.mk (put off byte)
    writeAllAt source (start + 1) (off + 1) n

/-- Whether `n` bytes of the source are all zero. The scan stops at the first that is not. -/
def isZero (source : Nat → Thread UInt8) : (start n : Nat) → Thread Bool
  | _, 0 => pure true
  | start, n + 1 => do
    let byte ← source start
    if byte = 0 then isZero source (start + 1) n else pure false

/-- The loop of `write_nonzero_pages`. -/
def nonzeroPages (source : Nat → Thread UInt8) (len off start : Nat) (run : Option Nat)
    (written : Nat) : ExceptT String Thread Nat :=
  if _h : start < len then do
    let stop := min (start + PAGE_SIZE) len
    if ← isZero source start (stop - start) then
      match run with
      | some first => do
        writeAllAt source first (off + first) (start - first)
        nonzeroPages source len off stop none (written + (start - first))
      | none => nonzeroPages source len off stop none written
    else nonzeroPages source len off stop (some (run.getD start)) written
  else
    match run with
    | some first => do
      writeAllAt source first (off + first) (len - first)
      pure (written + (len - first))
    | none => pure written
termination_by len - start
decreasing_by all_goals simp only [PAGE_SIZE]; omega

def writeNonzeroPages (source : Nat → Thread UInt8) (len off : Nat) : ExceptT String Thread Nat :=
  nonzeroPages source len off 0 none 0

def copyPageRun (L : Layout) (start_pfn end_pfn : Nat) : Fallible Nat :=
  if end_pfn < start_pfn then throw (.memory "dirty page run is reversed")
  else
    let pages := end_pfn - start_pfn
    match checkedMul start_pfn PAGE_SIZE, checkedMul pages PAGE_SIZE with
    | none, _ => throw (.memory "dirty page offset overflow")
    | some _, none => throw (.memory "dirty page run length overflow")
    | some gpa, some len =>
      match checkedAdd gpa len with
      | none => throw (.memory "dirty page run end overflow")
      | some stop =>
        if L.size_bytes < stop then
          throw (.memory ("dirty page run 0x" ++ hex gpa ++ "..0x" ++ hex stop ++
            " exceeds guest RAM"))
        else do
          orFail (writeAllAt load gpa gpa len).run fun error =>
            .snapshot ("write staged RAM at 0x" ++ hex gpa ++ ": " ++ error)
          pure pages

/-- The loop of `copy_dirty_pages` over the sorted pages; `run` is the pending run. -/
def copyRuns (L : Layout) : List Nat → (run : Option (Nat × Nat)) → (copied : Nat) → Fallible Nat
  | [], none, copied => pure copied
  | [], some (start, run_end), copied => do
    let pages ← copyPageRun L start run_end
    pure (copied + pages)
  | pfn :: pfns, none, copied => copyRuns L pfns (some (pfn, pfn + 1)) copied
  | pfn :: pfns, some (start, run_end), copied =>
    if pfn = run_end then copyRuns L pfns (some (start, run_end + 1)) copied
    else do
      let pages ← copyPageRun L start run_end
      copyRuns L pfns (some (pfn, pfn + 1)) (copied + pages)

def copyDirtyPages (L : Layout) (dirty : DirtyBitmap) : Fallible Nat :=
  copyRuns L (dirty.filter (· < L.size_bytes / PAGE_SIZE)).sort none 0

/-! ## What copying keeps -/

section Lags

variable {L : Layout} {K : Machine → Prop} {late late' : Nat → Prop} {m m' : Machine}
  {source : Nat → Thread UInt8} {len off : Nat}

/-- An assertion that the environment keeps, and storing a byte that was seen keeps. -/
structure Carried (L : Layout) (K : Machine → Prop) : Prop where
  stable : (world L).Stable K
  logging : ∀ m, K m → m.logging = true
  put : ∀ m i v, K m → (tracking L).Sees m i v → K { m with stage := Function.update m.stage i v }

/-- The staged image is behind RAM by the late bytes and the recorded pages. -/
def Lags (L : Layout) (K : Machine → Prop) (late : Nat → Prop) (m : Machine) : Prop :=
  K m ∧ (tracking L).Behind m m.stage late

variable {P : Machine → Prop}

theorem stable_sees (hP : (world L).Stable P) (hlog : ∀ m, P m → m.logging = true) (i : Nat)
    (v : UInt8) : (world L).Stable fun m => P m ∧ (tracking L).Sees m i v :=
  fun m _ h henv => ⟨hP h.1 henv, h.2.honest (Env.honest henv (hlog m h.1))⟩

theorem Carried.lags (hK : Carried L K) (late : Nat → Prop) : (world L).Stable (Lags L K late) := by
  intro m m' h henv
  refine ⟨hK.stable h.1 henv, ?_⟩
  rw [(Env.frame henv).stage]
  exact h.2.honest (Env.honest henv (hK.logging m h.1))

theorem Lags.mono (h : Lags L K late m) (hl : ∀ i, late i → late' i) : Lags L K late' m :=
  ⟨h.1, h.2.mono hl⟩

theorem Lags.settle {S : Nat → Prop} (h : Lags L K late m)
    (hS : ∀ i, S i → (tracking L).Sees m i (m.stage i)) :
    Lags L K (fun i => late i ∧ ¬ S i) m := by
  refine ⟨h.1, fun i => ?_⟩
  by_cases hi : S i
  · exact .inr (hS i hi)
  · exact (h.2 i).imp (fun hl => ⟨hl, hi⟩) id

/-- A source whose byte `j` is seen at offset `off + j`, whatever else is carried along. -/
def Supplies (L : Layout) (K : Machine → Prop) (source : Nat → Thread UInt8) (len off : Nat) :
    Prop :=
  ∀ P, (world L).Stable P → (∀ m, P m → K m) → ∀ j < len,
    (world L).Triple P (source j) fun v m => P m ∧ (tracking L).Sees m (off + j) v

theorem triple_load (hP : (world L).Stable P) (hlog : ∀ m, P m → m.logging = true) (i : Nat) :
    (world L).Triple P (load i) fun v m => P m ∧ (tracking L).Sees m i v := by
  refine .perform hP ?_ fun v => stable_sees hP hlog i v
  rintro m v _ hm ⟨rfl, rfl⟩
  exact ⟨hm, .inl rfl⟩

theorem supplies_load (hK : ∀ m, K m → m.logging = true) (len base : Nat) :
    Supplies L K (fun j => load (base + j)) len base := by
  intro P hP hPK j _
  exact triple_load hP (fun m hm => hK m (hPK m hm)) _

theorem yields_put (hK : Carried L K) (i : Nat) (v : UInt8) :
    (world L).Yields (fun m => Lags L K late m ∧ (tracking L).Sees m i v)
      (ExceptT.mk (Live.put i v)) fun _ => Lags L K fun j => late j ∧ j ≠ i := by
  refine .perform (o := .put i v) (fun r => r)
    (stable_sees (hK.lags late) (fun m hm => hK.logging m hm.1) i v) (fun _ => hK.lags _) ?_
  rintro m _ u m' ⟨hm, hv⟩ hexec rfl
  obtain rfl : m' = _ := hexec
  exact ⟨hK.put m i v hm.1 hv, hm.2.put hv⟩

theorem yields_writeAllAt (hK : Carried L K) (hsrc : Supplies L K source len off)
    (late : Nat → Prop) (start n : Nat) (hn : start + n ≤ len) :
    (world L).Yields (Lags L K late) (writeAllAt source start (off + start) n) fun _ =>
      Lags L K fun i => late i ∧ ¬ (off + start ≤ i ∧ i < off + start + n) := by
  induction n generalizing late start with
  | zero => exact .pure (hK.lags _) fun m h => h.mono fun i hl => ⟨hl, by omega⟩
  | succ n ih =>
    refine .after (hsrc _ (hK.lags late) (fun m h => h.1) start (by omega)) fun v => ?_
    refine .bind (yields_put hK _ _) fun _ => (ih _ (start + 1) (by omega)).post fun _ m h => ?_
    exact h.mono fun i hl => ⟨hl.1.1, by have := hl.1.2; have := hl.2; omega⟩

theorem triple_isZero (hP : (world L).Stable P) (hPK : ∀ m, P m → K m)
    (hK : ∀ m, K m → m.logging = true) (hsrc : Supplies L K source len off) (start n : Nat)
    (hn : start + n ≤ len) :
    (world L).Triple P (isZero source start n) fun zero m => P m ∧
      (zero = true → ∀ j, start ≤ j → j < start + n → (tracking L).Sees m (off + j) 0) := by
  induction n generalizing start P with
  | zero => exact .pure hP fun m h => ⟨h, fun _ j _ _ => by omega⟩
  | succ n ih =>
    have hlog : ∀ m, P m → m.logging = true := fun m hm => hK m (hPK m hm)
    refine .bind (hsrc P hP hPK start (by omega)) fun v => ?_
    have hstable := stable_sees hP hlog (off + start) v
    by_cases hv : v = 0
    · rw [if_pos hv]
      subst hv
      refine (ih hstable (fun m h => hPK m h.1) (start + 1) (by omega)).post
        fun zero m h => ⟨h.1.1, fun hz j hlo hhi => ?_⟩
      by_cases hj : j = start
      · rw [hj]
        exact h.1.2
      · exact h.2 hz j (by omega) (by omega)
    · rw [if_neg hv]
      exact .pure hstable fun m h => ⟨h.1, by simp⟩

/-- Every staged byte is zero or was seen: a hole may stand for a zero page. -/
def Ready (L : Layout) (m : Machine) : Prop :=
  ∀ i, m.stage i = 0 ∨ (tracking L).Sees m i (m.stage i)

theorem settle_zero (hready : ∀ m, K m → Ready L m) {start stop : Nat} (h : Lags L K late m)
    (hz : ∀ j, start ≤ j → j < start + (stop - start) → (tracking L).Sees m (off + j) 0) :
    Lags L K (fun i => late i ∧ ¬ (off + start ≤ i ∧ i < off + stop)) m := by
  refine h.settle fun i hi => ?_
  have hseen := hz (i - off) (by omega) (by omega)
  rw [Nat.add_sub_cancel' (by omega)] at hseen
  rcases hready m h.1 i with h0 | hs
  · rwa [h0]
  · exact hs

/-- The pages skipped are zero in the file as in the guest. -/
theorem yields_nonzeroPages (hK : Carried L K) (hready : ∀ m, K m → Ready L m)
    (hsrc : Supplies L K source len off) (start : Nat) (run : Option Nat) (written : Nat)
    (hstart : start ≤ len) (hrun : run.getD start ≤ start) :
    (world L).Yields
      (Lags L K fun i => late i ∧ ¬ (off ≤ i ∧ i < off + run.getD start))
      (nonzeroPages source len off start run written)
      fun _ => Lags L K fun i => late i ∧ ¬ (off ≤ i ∧ i < off + len) := by
  have hlog : ∀ m, K m → m.logging = true := hK.logging
  induction hd : len - start using Nat.strong_induction_on generalizing start run written with
  | _ d ih =>
  rw [nonzeroPages.eq_def]
  by_cases hlt : start < len
  · rw [dif_pos hlt]
    have hstop : start < min (start + PAGE_SIZE) len ∧ min (start + PAGE_SIZE) len ≤ len := by
      simp only [PAGE_SIZE]
      omega
    generalize min (start + PAGE_SIZE) len = stop at hstop
    have hzero := triple_isZero (hK.lags fun i => late i ∧ ¬ (off ≤ i ∧ i < off + run.getD start))
      (fun m h => h.1) hlog hsrc start (stop - start) (by omega)
    refine .after hzero fun zero => ?_
    match zero, run with
    | true, some first =>
      simp only [getD_some] at hrun
      refine .bind ((yields_writeAllAt hK hsrc
        (fun i => late i ∧ ¬ (off ≤ i ∧ i < off + first) ∧ ¬ (off + start ≤ i ∧ i < off + stop))
        first (start - first) (by omega)).pre fun m h => ?_) fun _ => ?_
      · exact (settle_zero hready h.1 (h.2 rfl)).mono fun i hl => by
          exact ⟨hl.1.1, hl.1.2, hl.2⟩
      · refine (ih (len - stop) (by omega) stop none _ hstop.2 (by simp) rfl).pre
          fun m h => h.mono fun i hl => ⟨hl.1.1, ?_⟩
        have hbefore := hl.1.2
        have hwritten := hl.2
        simp only [getD_none]
        omega
    | true, none =>
      refine (ih (len - stop) (by omega) stop none _ hstop.2 (by simp) rfl).pre fun m h =>
        (settle_zero hready h.1 (h.2 rfl)).mono fun i hl => ⟨hl.1.1, ?_⟩
      have hbefore := hl.1.2
      simp only [getD_none] at hbefore ⊢
      omega
    | false, run =>
      exact (ih (len - stop) (by omega) stop (some (run.getD start)) _
        hstop.2 (by simp only [getD_some]; omega) rfl).pre fun m h => h.1
  · rw [dif_neg hlt]
    obtain rfl : start = len := by omega
    match run with
    | some first =>
      simp only [getD_some] at hrun
      refine .bind (yields_writeAllAt hK hsrc _ first (start - first)
        (by omega)) fun _ => .pure (hK.lags _) fun m h => h.mono fun i hl => ?_
      refine ⟨hl.1.1, ?_⟩
      have hbefore := hl.1.2
      simp only [getD_some] at hbefore
      omega
    | none => exact .pure (hK.lags _) fun m h => h

theorem yields_writeNonzeroPages (hK : Carried L K) (hready : ∀ m, K m → Ready L m)
    (hsrc : Supplies L K source len off) :
    (world L).Yields (Lags L K late) (writeNonzeroPages source len off)
      fun _ => Lags L K fun i => late i ∧ ¬ (off ≤ i ∧ i < off + len) :=
  (yields_nonzeroPages hK hready hsrc 0 none 0 (Nat.zero_le _) (le_refl _)).pre fun _ h =>
    h.mono fun i hl => ⟨hl, by simp only [getD_none]; omega⟩

/-! ## Dirty pages -/

theorem supplies_ram (hK : ∀ m, K m → m.logging = true) (len : Nat) : Supplies L K load len 0 := by
  have h := supplies_load (L := L) hK len 0
  simpa only [zero_add] using h

/-- After a run is copied, its pages lag no longer. -/
theorem yields_copyPageRun (hK : Carried L K) (start_pfn end_pfn : Nat) :
    (world L).Yields (Lags L K late) (copyPageRun L start_pfn end_pfn) fun _ =>
      Lags L K fun i => late i ∧ ¬ (start_pfn ≤ i / PAGE_SIZE ∧ i / PAGE_SIZE < end_pfn) := by
  unfold copyPageRun
  split
  · exact .throw _
  rename_i hle
  dsimp only
  split
  · exact .throw _
  · exact .throw _
  rename_i gpa len hgpa hlen
  split
  · exact .throw _
  rename_i stop hstop
  split
  · exact .throw _
  have hwrite := yields_writeAllAt hK (supplies_ram hK.logging (gpa + len)) late gpa len
    (le_refl _)
  rw [zero_add] at hwrite
  refine .bind (yields_orFail hwrite) fun _ =>
    .pure (hK.lags _) fun m h => h.mono fun i hl => ⟨hl.1, fun hpage => hl.2 ?_⟩
  obtain ⟨_, rfl⟩ := checkedMul_eq_some.mp hgpa
  obtain ⟨_, rfl⟩ := checkedMul_eq_some.mp hlen
  have hpos : 0 < PAGE_SIZE := by decide
  rw [← add_mul, Nat.add_sub_cancel' (by omega)]
  exact ⟨(Nat.le_div_iff_mul_le hpos).mp hpage.1, (Nat.div_lt_iff_lt_mul hpos).mp hpage.2⟩

def InRun (run : Option (Nat × Nat)) (p : Nat) : Prop :=
  ∃ start stop, run = some (start, stop) ∧ start ≤ p ∧ p < stop

/-- After a round, none of the pages it was given lags. -/
theorem yields_copyRuns (hK : Carried L K) (pfns : List Nat) (run : Option (Nat × Nat))
    (copied : Nat) (hrun : ∀ start stop, run = some (start, stop) → start ≤ stop) :
    (world L).Yields (Lags L K late) (copyRuns L pfns run copied) fun _ =>
      Lags L K fun i => late i ∧ i / PAGE_SIZE ∉ pfns ∧ ¬ InRun run (i / PAGE_SIZE) := by
  induction pfns generalizing run copied late with
  | nil =>
    match run with
    | none =>
      exact .pure (hK.lags _) fun m h => h.mono fun i hl => ⟨hl, by simp, by simp [InRun]⟩
    | some (start, stop) =>
      refine .bind (yields_copyPageRun hK start stop) fun _ =>
        .pure (hK.lags _) fun m h => h.mono fun i hl => ⟨hl.1, by simp, ?_⟩
      rintro ⟨_, _, hrun, hin⟩
      cases hrun
      exact hl.2 hin
  | cons pfn pfns ih =>
    have hone : ∀ start stop, some (pfn, pfn + 1) = some (start, stop) → start ≤ stop := by
      rintro start stop ⟨⟩
      exact Nat.le_succ _
    match run with
    | none =>
      refine (ih (some (pfn, pfn + 1)) copied hone).post fun _ m h =>
        h.mono fun i hl => ⟨hl.1, ?_, by simp [InRun]⟩
      rw [List.mem_cons]
      rintro (hp | hp)
      · exact hl.2.2 ⟨_, _, rfl, by omega, by omega⟩
      · exact hl.2.1 hp
    | some (start, stop) =>
      have hle := hrun start stop rfl
      rw [copyRuns]
      split
      · next hp =>
        have hjoin : ∀ a b, some (start, stop + 1) = some (a, b) → a ≤ b := by
          rintro a b ⟨⟩
          exact Nat.le_succ_of_le hle
        refine (ih (some (start, stop + 1)) copied hjoin).post fun _ m h =>
          h.mono fun i hl => ⟨hl.1, ?_, ?_⟩
        · rw [List.mem_cons]
          rintro (hi | hi)
          · exact hl.2.2 ⟨_, _, rfl, by omega, by omega⟩
          · exact hl.2.1 hi
        · rintro ⟨_, _, hrun, hin⟩
          cases hrun
          exact hl.2.2 ⟨_, _, rfl, by omega, by omega⟩
      · refine .bind (yields_copyPageRun hK start stop) fun pages => ?_
        refine (ih (some (pfn, pfn + 1)) (copied + pages) hone).post fun _ m h =>
          h.mono fun i hl => ⟨hl.1.1, ?_, ?_⟩
        · rw [List.mem_cons]
          rintro (hi | hi)
          · exact hl.2.2 ⟨_, _, rfl, by omega, by omega⟩
          · exact hl.2.1 hi
        · rintro ⟨_, _, hrun, hin⟩
          cases hrun
          exact hl.1.2 hin

/-- After the copy no dirty page inside RAM is late. -/
theorem yields_copyDirtyPages (hK : Carried L K) (dirty : DirtyBitmap) :
    (world L).Yields (Lags L K fun i => late i ∨ i / PAGE_SIZE ∈ dirty) (copyDirtyPages L dirty)
      fun _ => Lags L K fun i => late i ∨ L.pages ≤ i / PAGE_SIZE := by
  refine (yields_copyRuns hK _ none 0 (by simp)).post fun _ m h => h.mono fun i hl => ?_
  rcases hl.1 with hlate | hdirty
  · exact .inl hlate
  right
  have hout := hl.2.1
  simp only [Finset.mem_sort, Finset.mem_filter, hdirty, true_and] at hout
  exact Nat.le_of_not_lt hout

end Lags

end Tarit.Live
