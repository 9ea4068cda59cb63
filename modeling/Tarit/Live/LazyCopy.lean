import Tarit.Live.Copy
import Tarit.Lib.SparseFile

/-!
# The bulk copy of lazily restored RAM

Pages the guest has not touched are taken from the restore snapshot, cloned or read; the
others are read from memory. The page map is read once, page by page, while the guest
runs. A page it calls untouched read as the snapshot's bytes (as zero, if discarded) at
that moment; if the page reads differently later, the write is recorded.
-/
namespace Tarit.Live

open Lib Snapshot Prog List

def CLONE_RUN_BYTES : Nat := 32 * 2 ^ 20

/-- The restore snapshot behind missing pages, and the chunk it is read in. -/
structure LazySource where
  chunk : Nat
  pos : 0 < chunk
  whole : chunk % PAGE_SIZE = 0

def readUntouched (offset len : Nat) : Thread (Except String Bytes) :=
  perform (Op.readUntouched offset len)

def cloneUntouched (offset len : Nat) : Thread (Except String CloneOutcome) :=
  perform (Op.cloneUntouched offset len)

def pagemapEntries : (n page : Nat) → Thread (List Bool)
  | 0, _ => pure []
  | n + 1, page => do
    let populated ← (perform (Op.pagemapEntry page) : Thread Bool)
    let rest ← pagemapEntries n (page + 1)
    pure (populated :: rest)

def populatedPages (L : Layout) : Thread (Option (List Bool)) := do
  if ← (perform Op.openPagemap : Thread Bool) then
    let entries ← pagemapEntries L.pages 0
    pure (some entries)
  else pure none

def pageFlags (populated : List Bool) (start stop : Nat) : List Bool :=
  slice populated (start / PAGE_SIZE) (stop / PAGE_SIZE - start / PAGE_SIZE)

section Bulk

variable (L : Layout) (lazy : LazySource) (populated : List Bool)

/-- The end of the run of untouched chunks that starts at `start`. -/
def cloneEnd (start run_end : Nat) : Nat :=
  if _h : run_end < L.size_bytes ∧ run_end - start < CLONE_RUN_BYTES ∧
      (pageFlags populated run_end (min (run_end + lazy.chunk) L.size_bytes)).all (!·) then
    cloneEnd start (min (run_end + lazy.chunk) L.size_bytes)
  else run_end
termination_by L.size_bytes - run_end
decreasing_by have := lazy.pos; omega

def readRam : (offset n : Nat) → Thread Bytes
  | _, 0 => pure []
  | offset, n + 1 => do
    let byte ← load offset
    let rest ← readRam (offset + 1) n
    pure (byte :: rest)

def copyTouched (start : Nat) : List Bool → (index : Nat) → Bytes → Thread Bytes
  | [], _, bytes => pure bytes
  | touched :: pages, index, bytes =>
    if touched then do
      let page ← readRam (start + index * PAGE_SIZE) PAGE_SIZE
      copyTouched start pages (index + 1) (copyAt bytes (index * PAGE_SIZE) page)
    else copyTouched start pages (index + 1) bytes

def bulkError (error : String) : VmmError := .snapshot ("write bulk staged RAM: " ++ error)

/-- One chunk that was not cloned. -/
def copyChunk (start : Nat) : Fallible Nat :=
  let stop := min (start + lazy.chunk) L.size_bytes
  let pages := pageFlags populated start stop
  if pages.all (fun touched => touched) then
    orFail (writeNonzeroPages (fun j => load (start + j)) (stop - start) start).run bulkError
  else do
    let bytes ← orFail (readUntouched start (stop - start)) fun error =>
      .snapshot ("read restored RAM: " ++ error)
    let bytes ← copyTouched start pages 0 bytes
    orFail (writeNonzeroPages (fun j => pure (peek bytes j)) (stop - start) start).run bulkError

/-- The loop of `write_lazy_restored_pages`: the bytes written and the time spent cloning. -/
def lazyPages (start : Nat) (cloning : Bool) (written cloning_time : Nat) : Fallible (Nat × Nat) :=
  if _h : start < L.size_bytes then
    let stop := min (start + lazy.chunk) L.size_bytes
    let run_end := if cloning then cloneEnd L lazy populated start start else start
    if _hrun : start < run_end then do
      let clone_started ← now
      let shared ← orFail (cloneUntouched start (run_end - start)) fun error =>
        .snapshot ("clone restored RAM: " ++ error)
      let clone_ended ← now
      let cloning_time := cloning_time + (clone_ended - clone_started)
      match shared with
      | .Cloned => lazyPages run_end cloning written cloning_time
      | .NotThisRange => do
        let n ← copyChunk L lazy populated start
        lazyPages stop cloning (written + n) cloning_time
      | .Unsupported => do
        let n ← copyChunk L lazy populated start
        lazyPages stop false (written + n) cloning_time
    else do
      let n ← copyChunk L lazy populated start
      lazyPages stop cloning (written + n) cloning_time
  else pure (written, cloning_time)
termination_by L.size_bytes - start
decreasing_by all_goals have := lazy.pos; omega

def writeLazyRestoredPages : Fallible (Nat × Nat) := do
  match ← populatedPages L with
  | none => throw (.snapshot "read the guest page map")
  | some populated => lazyPages L lazy populated 0 true 0 0

end Bulk

/-! ## Untouched pages -/

section Untouched

variable {L : Layout} {lazy : LazySource} {populated : List Bool} {m m' : Machine}
  {late : Nat → Prop}

/-- Every byte of a page the map calls untouched reads as its origin, or is recorded. -/
def Untouched (L : Layout) (populated : List Bool) (m : Machine) : Prop :=
  ∀ i, populated[i / PAGE_SIZE]? = some false → (tracking L).Sees m i (m.origin i)

structure Bulk (L : Layout) (populated : List Bool) (m : Machine) : Prop where
  logging : m.logging = true
  ready : Ready L m
  untouched : Untouched L populated m

theorem Env.origin (h : Env L m m') (i : Nat) :
    m'.origin i = m.origin i ∨ Recorded L m' (i / PAGE_SIZE) := by
  cases h with
  | guestWrite j v hj hrun =>
    left
    simp only [Machine.guestWrite, Machine.logged]
    split <;> rfl
  | discard w p hrun =>
    by_cases hp : i / PAGE_SIZE = p
    · right
      rw [hp]
      exact recorded_owes (m := m) w
    · left
      simp [Machine.origin, Machine.discard, Machine.owes, hp]
  | _ => exact .inl rfl

variable {i start : Nat} {P : Machine → Prop} {bytes : Bytes}

theorem sees_origin (h : Env L m m') (hlog : m.logging = true)
    (hs : (tracking L).Sees m i (m.origin i)) : (tracking L).Sees m' i (m'.origin i) := by
  rcases h.origin i with ho | hr
  · rw [ho]
    exact hs.honest (h.honest hlog)
  · exact .inr hr

theorem Ready.env (h : Env L m m') (hlog : m.logging = true) (hr : Ready L m) : Ready L m' := by
  intro i
  rw [(Env.frame h).stage]
  exact (hr i).imp id fun hs => hs.honest (h.honest hlog)

theorem carried_bulk (L : Layout) (populated : List Bool) : Carried L (Bulk L populated) where
  stable m m' h henv := by
    refine ⟨?_, h.ready.env henv h.logging, fun i hi =>
      sees_origin henv h.logging (h.untouched i hi)⟩
    rw [(Env.frame henv).logging]
    exact h.logging
  logging m h := h.logging
  put m i v h hv := by
    refine ⟨h.logging, fun j => ?_, h.untouched⟩
    by_cases hj : j = i
    · subst hj
      right
      simp only [Function.update_self]
      exact hv
    · simp only [Function.update_of_ne hj]
      exact h.ready j

theorem triple_pagemapEntries (hP : (world L).Stable P) (hlog : ∀ m, P m → m.logging = true)
    (n page : Nat) :
    (world L).Triple P (pagemapEntries n page) fun entries m => P m ∧ entries.length = n ∧
      ∀ i, page ≤ i / PAGE_SIZE → entries[i / PAGE_SIZE - page]? = some false →
        (tracking L).Sees m i (m.origin i) := by
  induction n generalizing page P with
  | zero => exact .pure hP fun m h => ⟨h, rfl, by simp⟩
  | succ n ih =>
    have hentry : ∀ populated : Bool, (world L).Stable fun m => P m ∧
        ∀ i, i / PAGE_SIZE = page → populated = false → (tracking L).Sees m i (m.origin i) :=
      fun populated m m' h henv =>
        ⟨hP h.1 henv, fun i hi hf => sees_origin henv (hlog m h.1) (h.2 i hi hf)⟩
    refine .bind (.perform hP ?_ hentry) fun populated => ?_
    · rintro m populated _ hm ⟨rfl, rfl⟩
      refine ⟨hm, fun i hi hf => .inl ?_⟩
      simp [tracking, Machine.view, hi, hf]
    · refine .map ((ih (hentry populated) (fun m h => hlog m h.1) (page + 1)).post
        fun rest m h => ⟨h.1.1, by simp [h.2.1], fun i hi hf => ?_⟩)
      by_cases hp : i / PAGE_SIZE = page
      · rw [hp, Nat.sub_self, getElem?_cons_zero, Option.some.injEq] at hf
        exact h.1.2 i hp hf
      · refine h.2.2 i (by omega) ?_
        rwa [show i / PAGE_SIZE - page = (i / PAGE_SIZE - (page + 1)) + 1 by omega,
          getElem?_cons_succ] at hf

theorem getElem?_pageFlags (populated : List Bool) {stop j : Nat} (hstart : start % PAGE_SIZE = 0)
    (hstop : stop % PAGE_SIZE = 0) (hj : start + j < stop) :
    (pageFlags populated start stop)[j / PAGE_SIZE]? = populated[(start + j) / PAGE_SIZE]? := by
  unfold pageFlags PAGE_SIZE at *
  rw [getElem?_slice, if_pos (by omega), show (start + j) / 4096 = start / 4096 + j / 4096 by omega]

theorem flag_of_lt (hlen : populated.length = L.pages) (hi : i < L.size_bytes) :
    ∃ touched, populated[i / PAGE_SIZE]? = some touched := by
  have hsize := L.whole
  have hlt : i / PAGE_SIZE < populated.length := by
    rw [hlen]
    unfold Layout.pages PAGE_SIZE at *
    omega
  exact ⟨_, getElem?_eq_getElem hlt⟩

theorem cloneEnd_untouched {run_end : Nat} (hpage : run_end % PAGE_SIZE = 0)
    (hlen : populated.length = L.pages) (hle : run_end ≤ L.size_bytes)
    (hun : ∀ i, start ≤ i → i < run_end → populated[i / PAGE_SIZE]? = some false) :
    cloneEnd L lazy populated start run_end % PAGE_SIZE = 0 ∧
      cloneEnd L lazy populated start run_end ≤ L.size_bytes ∧
      ∀ i, start ≤ i → i < cloneEnd L lazy populated start run_end →
        populated[i / PAGE_SIZE]? = some false := by
  fun_induction cloneEnd L lazy populated start run_end with
  | case1 run_end hmore ih =>
    have hsize := L.whole
    have hchunk := lazy.whole
    generalize hstop : min (run_end + lazy.chunk) L.size_bytes = stop at *
    have hstop' : stop % PAGE_SIZE = 0 ∧ stop ≤ L.size_bytes := by
      unfold PAGE_SIZE at *
      omega
    refine ih hstop'.1 hstop'.2 fun i hlo hhi => ?_
    by_cases hi : i < run_end
    · exact hun i hlo hi
    obtain ⟨touched, htouched⟩ := flag_of_lt hlen (lt_of_lt_of_le hhi hstop'.2)
    have hflag := getElem?_pageFlags populated hpage hstop'.1 (j := i - run_end) (by omega)
    rw [Nat.add_sub_cancel' (by omega), htouched] at hflag
    have hclear := all_eq_true.mp hmore.2.2 touched (mem_of_getElem? hflag)
    rw [htouched]
    simpa using hclear
  | case2 run_end hstop => exact ⟨hpage, hle, hun⟩

/-! ## Buffers -/

/-- The buffer's bytes were seen where they are to be stored. -/
def Buffered (L : Layout) (start : Nat) (bytes : Bytes) (S : Nat → Prop) (m : Machine) : Prop :=
  ∀ j < bytes.length, S j → (tracking L).Sees m (start + j) (peek bytes j)

theorem Buffered.env {bytes : Bytes} {S : Nat → Prop} (henv : Env L m m')
    (hlog : m.logging = true) (h : Buffered L start bytes S m) : Buffered L start bytes S m' :=
  fun j hj hS => (h j hj hS).honest (henv.honest hlog)

theorem triple_readRam (hP : (world L).Stable P) (hlog : ∀ m, P m → m.logging = true)
    (offset n : Nat) :
    (world L).Triple P (readRam offset n) fun bytes m => P m ∧ bytes.length = n ∧
      Buffered L offset bytes (fun _ => True) m := by
  induction n generalizing offset P with
  | zero => exact .pure hP fun m h => ⟨h, rfl, fun j hj => by simp at hj⟩
  | succ n ih =>
    have hbyte := fun v => stable_sees hP hlog offset v
    refine .bind (triple_load hP hlog offset) fun v => ?_
    refine .map ((ih (hbyte v) (fun m h => hlog m h.1) (offset + 1)).post
      fun rest m h => ⟨h.1.1, by simp [h.2.1], fun j hj _ => ?_⟩)
    cases j with
    | zero => exact h.1.2
    | succ j =>
      have hrest := h.2.2 j (by simpa using hj) trivial
      rwa [Nat.add_right_comm, add_assoc] at hrest

/-- Page `q` of the buffer is past the loop at `index`, or untouched. -/
def Settled (index : Nat) (pages : List Bool) (q : Nat) : Prop :=
  q < index ∨ pages[q - index]? = some false

theorem Settled.cons {index q : Nat} {pages : List Bool} {touched : Bool}
    (h : Settled (index + 1) pages q) (ht : q = index → touched = false) :
    Settled index (touched :: pages) q := by
  by_cases hlow : q < index
  · exact .inl hlow
  right
  by_cases hq : q = index
  · rw [ht hq, hq, Nat.sub_self, getElem?_cons_zero]
  rcases h with h | h
  · omega
  · rwa [show q - index = (q - (index + 1)) + 1 by omega, getElem?_cons_succ]

/-- Overwriting the touched pages leaves a buffer that was seen everywhere. -/
theorem triple_copyTouched (hP : (world L).Stable P) (hlog : ∀ m, P m → m.logging = true)
    (start : Nat) (pages : List Bool) (index : Nat) (bytes : Bytes)
    (hlen : bytes.length = (index + pages.length) * PAGE_SIZE) :
    (world L).Triple
      (fun m => P m ∧ Buffered L start bytes (fun j => Settled index pages (j / PAGE_SIZE)) m)
      (copyTouched start pages index bytes)
      fun out m => P m ∧ out.length = bytes.length ∧ Buffered L start out (fun _ => True) m := by
  have hstable : ∀ (bytes : Bytes) (S : Nat → Prop),
      (world L).Stable fun m => P m ∧ Buffered L start bytes S m :=
    fun bytes S m m' h henv => ⟨hP h.1 henv, h.2.env henv (hlog m h.1)⟩
  have hpos : 0 < PAGE_SIZE := by decide
  induction pages generalizing index bytes with
  | nil =>
    refine .pure (hstable _ _) fun m h => ⟨h.1, rfl, fun j hj _ => h.2 j hj (.inl ?_)⟩
    rw [hlen, length_nil, add_zero] at hj
    exact (Nat.div_lt_iff_lt_mul hpos).mpr hj
  | cons touched pages ih =>
    have hnext : (index + 1 + pages.length) * PAGE_SIZE = bytes.length := by
      rw [hlen, length_cons]
      congr 1
      omega
    rw [copyTouched]
    split
    swap
    · next huntouched =>
      refine (ih (index + 1) bytes hnext.symm).pre fun m h => ⟨h.1, fun j hj hS => ?_⟩
      exact h.2 j hj (hS.cons fun _ => by simpa using huntouched)
    refine .bind (triple_readRam (hstable _ _) (fun m h => hlog m h.1)
      (start + index * PAGE_SIZE) PAGE_SIZE) fun page => ?_
    refine .assume (fun m h => h.2.1) fun hpage => ?_
    have hfits : index * PAGE_SIZE + page.length ≤ bytes.length := by
      rw [hpage, ← hnext, ← Nat.succ_mul]
      exact Nat.mul_le_mul_right _ (by omega)
    have hcopy := copyAt_length hfits
    refine .conseq (ih (index + 1) (copyAt bytes (index * PAGE_SIZE) page)
      (by rw [hcopy, hnext])) (fun m h => ⟨h.1.1, fun j hj hS => ?_⟩) fun out m h =>
        ⟨h.1, by rw [h.2.1, hcopy], h.2.2⟩
    rw [peek_copyAt hfits]
    split
    · next hin =>
      have hseen := h.2.2 (j - index * PAGE_SIZE) (by omega) trivial
      rwa [add_assoc, Nat.add_sub_cancel' hin.1] at hseen
    · next hout =>
      have hother : j / PAGE_SIZE ≠ index := by
        unfold PAGE_SIZE at *
        omega
      exact h.1.2 j (by rwa [hcopy] at hj) (hS.cons fun hq => absurd hq hother)

theorem Carried.buffered {K : Machine → Prop} (hK : Carried L K) :
    Carried L fun m => K m ∧ Buffered L start bytes (fun _ => True) m where
  stable m _ h henv := ⟨hK.stable h.1 henv, h.2.env henv (hK.logging m h.1)⟩
  logging m h := hK.logging m h.1
  put m i v h hv := ⟨hK.put m i v h.1 hv, h.2⟩

theorem supplies_buffer {K : Machine → Prop} (len : Nat) (hlen : bytes.length = len) :
    Supplies L (fun m => K m ∧ Buffered L start bytes (fun _ => True) m)
      (fun j => pure (peek bytes j)) len start := by
  intro P hP hPK j hj
  refine .pure hP fun m hm => ⟨hm, ?_⟩
  exact (hPK m hm).2 j (by omega) trivial

/-! ## The whole bulk copy -/

/-- What is read of the restore snapshot was seen where the page map calls the page untouched. -/
theorem yields_readUntouched {late : Nat → Prop} {stop : Nat} (hpage : start % PAGE_SIZE = 0)
    (hstop : stop % PAGE_SIZE = 0) :
    (world L).Yields (Lags L (Bulk L populated) late)
      (ExceptT.mk (readUntouched start (stop - start))) fun bytes m =>
        bytes.length = stop - start ∧ Lags L (Bulk L populated) late m ∧ Buffered L start bytes
          (fun j => Settled 0 (pageFlags populated start stop) (j / PAGE_SIZE)) m := by
  have hK := carried_bulk L populated
  refine .perform (o := .readUntouched start (stop - start)) (fun r => r) (hK.lags _) ?_ ?_
  · intro bytes m m' h henv
    exact ⟨h.1, hK.lags _ h.2.1 henv, h.2.2.env henv h.2.1.1.logging⟩
  · rintro m _ bytes m' hm hexec rfl
    obtain ⟨rfl, rfl⟩ := hexec
    refine ⟨by simp, hm, fun j hj hS => ?_⟩
    have hj' : j < stop - start := by simpa using hj
    have hun : populated[(start + j) / PAGE_SIZE]? = some false := by
      rw [← getElem?_pageFlags populated hpage hstop (by omega)]
      exact hS.resolve_left (Nat.not_lt_zero _)
    have hpeek : peek ((range (stop - start)).map fun j => m'.origin (start + j)) j =
        m'.origin (start + j) := by
      rw [peek_eq_getElem?, getElem?_map, getElem?_range hj']
      rfl
    rw [hpeek]
    exact hm.1.untouched _ hun

theorem yields_copyChunk (lazy : LazySource) (hlen : populated.length = L.pages)
    (hpage : start % PAGE_SIZE = 0) (hlt : start < L.size_bytes) :
    (world L).Yields (Lags L (Bulk L populated) (start ≤ ·)) (copyChunk L lazy populated start)
      fun _ => Lags L (Bulk L populated) (min (start + lazy.chunk) L.size_bytes ≤ ·) := by
  have hK := carried_bulk L populated
  have hsize := L.whole
  have hchunk := lazy.whole
  have hpos := lazy.pos
  unfold copyChunk
  generalize hstop : min (start + lazy.chunk) L.size_bytes = stop
  have hstop' : stop % PAGE_SIZE = 0 ∧ stop ≤ L.size_bytes ∧ start < stop := by
    unfold PAGE_SIZE at *
    omega
  have hlate : ∀ i, start ≤ i ∧ ¬ (start ≤ i ∧ i < start + (stop - start)) → stop ≤ i := by
    intro i hi
    omega
  dsimp only
  split
  · exact (yields_orFail (yields_writeNonzeroPages hK (fun m h => h.ready)
      (supplies_load (fun m h => h.logging) (stop - start) start))).post fun _ m h => h.mono hlate
  have hflags : (pageFlags populated start stop).length * PAGE_SIZE = stop - start := by
    rw [pageFlags, slice_length]
    · unfold PAGE_SIZE at *
      omega
    · rw [hlen]
      unfold Layout.pages PAGE_SIZE at *
      omega
  refine .bind (yields_orFail (yields_readUntouched hpage hstop'.1)) fun bytes =>
    .of_and fun hb => ?_
  refine .after (triple_copyTouched (hK.lags _) (fun m h => h.1.logging)
    start _ 0 bytes (by rw [hb, zero_add, hflags])) fun out => ?_
  refine .assume (φ := out.length = stop - start) (fun m h => by rw [h.2.1, hb]) fun hout => ?_
  refine (yields_orFail (yields_writeNonzeroPages hK.buffered (fun m h => h.1.ready)
    (supplies_buffer (stop - start) hout))).conseq
      (fun m h => ⟨⟨h.1.1, h.2.2⟩, h.1.2⟩) fun _ m h => ?_
  exact .mono ⟨h.1.1, h.2⟩ hlate

theorem sees_cloned (hb : Bulk L populated m) (hun : populated[i / PAGE_SIZE]? = some false)
    (hd : i / PAGE_SIZE ∉ m.discarded) : (tracking L).Sees m i (m.image i) := by
  have h := hb.untouched i hun
  rwa [Machine.origin, if_neg hd] at h

theorem Lags.cloned {offset len : Nat} (h : Lags L (Bulk L populated) late m)
    (hun : ∀ i, offset ≤ i → i < offset + len → populated[i / PAGE_SIZE]? = some false)
    (hc : ClonedInto m m' offset len) : Lags L (Bulk L populated) late m' := by
  obtain ⟨stage, rfl, hstage⟩ := hc
  have hseen : ∀ i, stage i = m.stage i ∨ (tracking L).Sees m i (stage i) := by
    intro i
    rcases hstage i with he | ⟨hlo, hhi, hd, he⟩
    · exact .inl he
    right
    rw [he]
    exact sees_cloned h.1 (hun i hlo hhi) hd
  refine ⟨⟨h.1.logging, fun i => ?_, h.1.untouched⟩, fun i => ?_⟩
  · rcases hseen i with he | hs
    · have hr := h.1.ready i
      rw [← he] at hr
      exact hr
    · exact .inr hs
  · rcases hseen i with he | hs
    · have hl := h.2 i
      rw [← he] at hl
      exact hl
    · exact .inr hs

theorem yields_cloneUntouched {run_end : Nat} (hle : start ≤ run_end)
    (hun : ∀ i, start ≤ i → i < run_end → populated[i / PAGE_SIZE]? = some false) :
    (world L).Yields (Lags L (Bulk L populated) (start ≤ ·))
      (ExceptT.mk (cloneUntouched start (run_end - start))) fun outcome =>
        Lags L (Bulk L populated) fun i => start ≤ i ∧ (outcome = .Cloned → run_end ≤ i) := by
  have hK := carried_bulk L populated
  have hun' : ∀ i, start ≤ i → i < start + (run_end - start) →
      populated[i / PAGE_SIZE]? = some false := fun i hlo hhi => hun i hlo (by omega)
  refine .perform (o := .cloneUntouched start (run_end - start)) (fun r => r)
    (hK.lags _) (fun _ => hK.lags _) ?_
  rintro m _ outcome m' hm hexec rfl
  match outcome with
  | .Cloned =>
    obtain ⟨hinto, hall⟩ := hexec
    have hl := hm.cloned hun' hinto
    obtain ⟨stage, rfl, _⟩ := hinto
    refine (hl.settle (S := fun i => start ≤ i ∧ i < run_end) fun i hi => ?_).mono
      fun i hi => ⟨hi.1, fun _ => by omega⟩
    obtain ⟨hd, hbyte⟩ := hall i hi.1 (by omega)
    have himage := sees_cloned hm.1 (hun i hi.1 hi.2) hd
    rcases hbyte with he | ⟨hzero, _⟩
    · rw [he]
      exact himage
    · rcases hl.1.ready i with h0 | hs
      · rw [h0, ← hzero]
        exact himage
      · exact hs
  | .NotThisRange | .Unsupported => exact (hm.cloned hun' hexec).mono fun i hi => ⟨hi, by simp⟩

/-- The lazy bulk copy leaves behind only what is dirty afterwards. -/
theorem yields_lazyPages (hlen : populated.length = L.pages) (start : Nat) (cloning : Bool)
    (written cloning_time : Nat) (hpage : start % PAGE_SIZE = 0) (hle : start ≤ L.size_bytes) :
    (world L).Yields (Lags L (Bulk L populated) (start ≤ ·))
      (lazyPages L lazy populated start cloning written cloning_time)
      fun _ => Lags L (Bulk L populated) (L.size_bytes ≤ ·) := by
  have hK := carried_bulk L populated
  have hsize := L.whole
  have hchunk := lazy.whole
  have hpos := lazy.pos
  induction hd : L.size_bytes - start using Nat.strong_induction_on
    generalizing start cloning written cloning_time with
  | _ d ih =>
  rw [lazyPages]
  split
  swap
  · exact .pure (hK.lags _) fun m h => h.mono fun i hi => by omega
  rename_i hlt
  generalize hstop : min (start + lazy.chunk) L.size_bytes = stop
  have hstop' : stop % PAGE_SIZE = 0 ∧ stop ≤ L.size_bytes ∧ start < stop := by
    unfold PAGE_SIZE at *
    omega
  have hnext : ∀ (cloning' : Bool) (t : Nat),
      (world L).Yields (Lags L (Bulk L populated) (start ≤ ·))
      (do let n ← copyChunk L lazy populated start
          lazyPages L lazy populated stop cloning' (written + n) t)
      fun _ => Lags L (Bulk L populated) (L.size_bytes ≤ ·) := by
    intro cloning' t
    refine .bind (yields_copyChunk lazy hlen hpage hlt) fun n => ?_
    rw [hstop]
    exact ih (L.size_bytes - stop) (by omega) stop cloning' _ t hstop'.1 hstop'.2.1 rfl
  have hrun : ∀ run_end, (if cloning then cloneEnd L lazy populated start start else start) =
      run_end → run_end % PAGE_SIZE = 0 ∧ run_end ≤ L.size_bytes ∧
        ∀ i, start ≤ i → i < run_end → populated[i / PAGE_SIZE]? = some false := by
    rintro run_end rfl
    split
    · exact cloneEnd_untouched hpage hlen hle fun i hlo hhi => by omega
    · exact ⟨hpage, hle, fun i hlo hhi => by omega⟩
  generalize hend : (if cloning then cloneEnd L lazy populated start start else start) = run_end
  obtain ⟨hpage', hle', hun⟩ := hrun run_end hend
  dsimp only
  split
  swap
  · exact hnext cloning _
  rename_i hclone
  refine .after (triple_now (hK.lags _)) fun _ =>
    .bind (yields_orFail (yields_cloneUntouched (le_of_lt hclone) hun)) fun outcome =>
    .after (triple_now (hK.lags _)) fun _ => ?_
  match outcome with
  | .Cloned =>
    exact (ih (L.size_bytes - run_end) (by omega) run_end cloning written
      _ hpage' hle' rfl).pre fun m h => h.mono fun i hi => hi.2 rfl
  | .NotThisRange => exact (hnext cloning _).pre fun m h => h.mono fun i hi => hi.1
  | .Unsupported => exact (hnext false _).pre fun m h => h.mono fun i hi => hi.1

/-- The bulk copy of lazily restored RAM leaves no byte of RAM late. -/
theorem yields_writeLazyRestoredPages (hP : (world L).Stable P)
    (hready : ∀ m, P m → m.logging = true ∧ Ready L m) :
    (world L).Yields P (writeLazyRestoredPages L lazy) fun _ m =>
      m.logging = true ∧ (tracking L).Behind m m.stage (L.size_bytes ≤ ·) := by
  have hmap : (world L).Triple P (populatedPages L) fun r m => P m ∧ ∀ entries, r = some entries →
      entries.length = L.pages ∧ Untouched L entries m := by
    refine .bind (.perform hP ?_ fun _ => hP) fun opened => ?_
    · intro m opened m' hm hexec
      obtain rfl : m' = m := hexec
      exact hm
    · split
      · refine .map ((triple_pagemapEntries hP (fun m h => (hready m h).1) L.pages 0).post
          fun entries m h => ⟨h.1, ?_⟩)
        rintro _ ⟨⟩
        exact ⟨h.2.1, fun i hi => h.2.2 i (Nat.zero_le _) hi⟩
      · exact .pure hP fun m h => ⟨h, by simp⟩
  refine .after hmap fun r => ?_
  match r with
  | none => exact .throw _
  | some populated =>
    refine .assume (fun m h => (h.2 populated rfl).1) fun hlen => ?_
    refine .conseq (yields_lazyPages hlen 0 true 0 0 rfl (Nat.zero_le _)) (fun m h => ?_)
      fun _ m h => ⟨h.1.logging, h.2⟩
    exact ⟨⟨(hready m h.1).1, (hready m h.1).2, (h.2 populated rfl).2⟩,
      fun i => .inl (Nat.zero_le i)⟩

end Untouched

end Tarit.Live
