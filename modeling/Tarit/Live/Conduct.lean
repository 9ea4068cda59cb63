import Tarit.Live.Snapshot

/-!
# What the copies of a live snapshot perform

A copy reads RAM and writes the staging file, and performs no call that touches anything else.
If its calls succeed none of its own checks refuses.
-/
namespace Tarit.Live

open Lib Snapshot Prog
open Prog (Succeeds)

/-- The call touches the staging file at most. -/
def Inert : Op → Prop
  | .setLen _ | .openPagemap | .pagemapEntry _ | .load _ | .readUntouched _ _
  | .cloneUntouched _ _ | .put _ _ | .syncData | .now | .captureState => True
  | _ => False

/-- The call has not failed. -/
def Granted : (o : Op) → Res o → Prop
  | .setLen _, .error _ | .pauseAll, .error _ | .resumeVcpus, .error _ | .quiesceIo _, .error _
  | .enableDirtyLogging, .error _ | .getDirtyLog _, .error _ | .openPagemap, false
  | .readUntouched _ _, .error _ | .cloneUntouched _ _, .error _ | .put _ _, .error _
  | .syncData, .error _ | .captureState, .error _ => False
  | _, _ => True

section Rules

variable {ε α : Type} {S : Op → Prop} {b : Prop}

theorem succeeds_call {o : Op} (ho : S o) (answer : Res o → Except ε α)
    (h : ∀ r e, answer r = .error e → ¬ Granted o r) :
    Succeeds S Granted b (ExceptT.mk (.step o fun r => .done (answer r))) := by
  refine ⟨ho, fun r hr => ?_⟩
  cases he : answer r with
  | ok a => exact ⟨a, rfl⟩
  | error e => exact absurd hr.2 (h r e he)

theorem succeeds_orFail {call : Thread (Except String α)} {e : String → VmmError}
    (h : Succeeds S Granted b (ExceptT.mk call)) : Succeeds S Granted b (orFail call e) := by
  refine .after h fun r => ?_
  match r with
  | .ok a => exact .pure a
  | .error message => exact .throw fun ⟨_, _, h⟩ => nomatch h

end Rules

section Copies

variable {L : Layout} {b : Prop} {source : Nat → Thread UInt8}

/-- The copy performs calls that touch the staging file at most; if `b` holds and they succeed
it gives a value. -/
abbrev Copies (b : Prop) {ε α : Type} (p : ExceptT ε Thread α) : Prop := Succeeds Inert Granted b p

theorem copies_sync (e : String → VmmError) : Copies b (orFail syncData e) :=
  succeeds_orFail
    (succeeds_call (o := .syncData) trivial (fun r => r) (by rintro _ _ rfl; exact id))

theorem copies_setLen (len : Nat) (e : String → VmmError) :
    Copies b (orFail (perform (Op.setLen len) : Thread (Except String Unit)) e) :=
  succeeds_orFail (succeeds_call (o := .setLen len) trivial (fun r => r)
    (by rintro _ _ rfl; exact id))

theorem copies_captureState : Copies b (ExceptT.mk captureState) :=
  succeeds_call (o := .captureState) trivial (fun r => r) (by rintro _ _ rfl; exact id)

theorem copies_writeAllAt (hs : ∀ i, (source i).Uses Inert) (start off n : Nat) :
    Copies b (writeAllAt source start off n) := by
  induction n generalizing start off with
  | zero => exact .pure ()
  | succ n ih =>
    refine .skip (hs start) fun byte => .bind ?_ fun _ => ih _ _
    exact succeeds_call (o := .put off byte) trivial (fun r => r) (by rintro _ _ rfl; exact id)

theorem uses_isZero (hs : ∀ i, (source i).Uses Inert) (start n : Nat) :
    (isZero source start n).Uses Inert := by
  induction n generalizing start with
  | zero => trivial
  | succ n ih =>
    refine uses_bind (hs start) fun byte => ?_
    split
    · exact ih _
    · trivial

theorem copies_writeNonzeroPages (hs : ∀ i, (source i).Uses Inert) (len off : Nat) :
    Copies b (writeNonzeroPages source len off) := by
  suffices h : ∀ d start run written, len - start = d →
      Copies b (nonzeroPages source len off start run written) from h _ 0 none 0 rfl
  intro d
  induction d using Nat.strong_induction_on with
  | _ d ih =>
  intro start run written hd
  rw [nonzeroPages.eq_def]
  split
  swap
  · split
    · exact .bind (copies_writeAllAt hs _ _ _) fun _ => .pure _
    · exact .pure _
  rename_i hlt
  have hnext : ∀ run written, Copies b (nonzeroPages source len off (min (start + PAGE_SIZE) len)
      run written) :=
    fun run written => ih _ (by simp only [PAGE_SIZE]; omega) _ run written rfl
  refine .skip (uses_isZero hs _ _) fun zero => ?_
  split
  · split
    · exact .bind (copies_writeAllAt hs _ _ _) fun _ => hnext _ _
    · exact hnext _ _
  · exact hnext _ _

theorem uses_load (i : Nat) : (load i).Uses Inert := uses_perform trivial

theorem copies_copyPageRun (start_pfn end_pfn : Nat) :
    Copies (start_pfn ≤ end_pfn ∧ end_pfn ≤ L.pages) (copyPageRun L start_pfn end_pfn) := by
  have hfits := L.fits
  have hend : end_pfn ≤ L.pages → end_pfn * PAGE_SIZE ≤ L.size_bytes := fun hin =>
    le_trans (Nat.mul_le_mul_right _ hin) (Nat.div_mul_le_self _ _)
  have hsum : start_pfn ≤ end_pfn →
      start_pfn * PAGE_SIZE + (end_pfn - start_pfn) * PAGE_SIZE = end_pfn * PAGE_SIZE := by
    intro hle
    rw [← Nat.add_mul, Nat.add_sub_cancel' hle]
  unfold copyPageRun
  dsimp only
  split
  · exact .throw (by omega)
  split
  · next h => exact .throw fun ⟨_, _⟩ => nomatch h.symm.trans (checkedMul_of_lt (by omega))
  · next h => exact .throw fun ⟨_, _⟩ => nomatch h.symm.trans (checkedMul_of_lt (by omega))
  rename_i hgpa hlen
  obtain ⟨_, rfl⟩ := checkedMul_eq_some.mp hgpa
  obtain ⟨_, rfl⟩ := checkedMul_eq_some.mp hlen
  split
  · next h => exact .throw fun ⟨_, _⟩ => nomatch h.symm.trans (checkedAdd_of_lt (by omega))
  rename_i h
  obtain ⟨_, rfl⟩ := checkedAdd_eq_some.mp h
  split
  · exact .throw (by omega)
  · exact .bind (succeeds_orFail (copies_writeAllAt uses_load _ _ _)) fun _ => .pure _

/-- The runs gathered so far are inside RAM. -/
def RunInside (L : Layout) (run : Option (Nat × Nat)) : Prop :=
  ∀ start stop, run = some (start, stop) → start ≤ stop ∧ stop ≤ L.pages

/-- Copying dirty pages of the guest succeeds if the calls do. -/
theorem copies_copyRuns (pfns : List Nat) (run : Option (Nat × Nat)) (copied : Nat) :
    Copies ((∀ p ∈ pfns, p < L.pages) ∧ RunInside L run) (copyRuns L pfns run copied) := by
  induction pfns generalizing run copied with
  | nil =>
    match run with
    | none => exact .pure _
    | some (start, stop) =>
      exact .bind ((copies_copyPageRun _ _).mono fun h => h.2 start stop rfl) fun _ => .pure _
  | cons pfn pfns ih =>
    have hone : (∀ p ∈ pfn :: pfns, p < L.pages) →
        (∀ p ∈ pfns, p < L.pages) ∧ RunInside L (some (pfn, pfn + 1)) := by
      intro h
      refine ⟨fun p hp => h p (.tail _ hp), ?_⟩
      rintro start stop ⟨⟩
      exact ⟨Nat.le_succ _, h pfn (.head _)⟩
    match run with
    | none => exact (ih _ _).mono fun h => hone h.1
    | some (start, stop) =>
      rw [copyRuns]
      split
      · next hp =>
        refine (ih _ _).mono fun h => ⟨(hone h.1).1, ?_⟩
        rintro a c ⟨⟩
        exact ⟨Nat.le_succ_of_le (h.2 start stop rfl).1, hp ▸ h.1 pfn (.head _)⟩
      · exact .bind ((copies_copyPageRun _ _).mono fun h => h.2 start stop rfl) fun _ =>
          (ih _ _).mono fun h => hone h.1

theorem copies_copyDirtyPages (dirty : DirtyBitmap) : Copies b (copyDirtyPages L dirty) := by
  refine (copies_copyRuns _ none 0).mono fun _ => ⟨fun p hp => ?_, nofun⟩
  simp only [Finset.mem_sort, Finset.mem_filter] at hp
  exact hp.2

theorem copies_copyRound (dirty : DirtyBitmap) : Copies b (copyRound L dirty) := by
  refine .bind (copies_copyDirtyPages dirty) fun copied => ?_
  split
  · exact .bind (copies_sync _) fun _ => .pure _
  · exact .pure _

/-! ## The lazily restored bulk copy -/

theorem uses_readRam (offset n : Nat) : (readRam offset n).Uses Inert := by
  induction n generalizing offset with
  | zero => trivial
  | succ n ih =>
    exact uses_bind (uses_load _) fun _ => uses_bind (ih _) fun _ => trivial

theorem uses_copyTouched (start : Nat) (pages : List Bool) (index : Nat) (bytes : Bytes) :
    (copyTouched start pages index bytes).Uses Inert := by
  induction pages generalizing index bytes with
  | nil => trivial
  | cons touched pages ih =>
    rw [copyTouched]
    split
    · exact uses_bind (uses_readRam _ _) fun _ => ih _ _
    · exact ih _ _

theorem copies_copyChunk (lazy : LazySource) (populated : List Bool) (start : Nat) :
    Copies b (copyChunk L lazy populated start) := by
  unfold copyChunk
  dsimp only
  split
  · exact succeeds_orFail (copies_writeNonzeroPages (fun j => uses_load _) _ _)
  refine .bind (succeeds_orFail ?_) fun bytes => .skip (uses_copyTouched _ _ _ _) fun bytes => ?_
  · exact succeeds_call (o := .readUntouched _ _) trivial (fun r => r) (by rintro _ _ rfl; exact id)
  · exact succeeds_orFail (copies_writeNonzeroPages (fun j => uses_pure _ _) _ _)

theorem copies_lazyPages (lazy : LazySource) (populated : List Bool) (start : Nat) (cloning : Bool)
    (written cloning_time : Nat) :
    Copies b (lazyPages L lazy populated start cloning written cloning_time) := by
  have hpos := lazy.pos
  induction hd : L.size_bytes - start using Nat.strong_induction_on
    generalizing start cloning written cloning_time with
  | _ d ih =>
  rw [lazyPages]
  split
  swap
  · exact .pure _
  rename_i hlt
  have hnext : ∀ cloning t, Copies b (do
      let n ← copyChunk L lazy populated start
      lazyPages L lazy populated (min (start + lazy.chunk) L.size_bytes) cloning (written + n) t) :=
    fun cloning t => .bind (copies_copyChunk lazy populated start) fun n =>
      ih _ (by omega) _ _ _ _ rfl
  generalize (if cloning then cloneEnd L lazy populated start start else start) = run_end
  dsimp only
  split
  · next hrun =>
    refine .skip (uses_perform trivial) fun _ => .bind (succeeds_orFail ?_) fun shared =>
      .skip (uses_perform trivial) fun _ => ?_
    · exact succeeds_call (o := .cloneUntouched _ _) trivial (fun r => r)
        (by rintro _ _ rfl; exact id)
    · cases shared with
      | Cloned => exact ih _ (by omega) _ _ _ _ rfl
      | NotThisRange | Unsupported => exact hnext _ _
  · exact hnext _ _

theorem uses_pagemapEntries (n page : Nat) : (pagemapEntries n page).Uses Inert := by
  induction n generalizing page with
  | zero => trivial
  | succ n ih =>
    exact uses_bind (uses_perform trivial) fun _ => uses_bind (ih _) fun _ => trivial

theorem copies_bulkCopy (lazy : Option LazySource) : Copies b (bulkCopy L lazy) := by
  match lazy with
  | none =>
    exact .bind (succeeds_orFail (copies_writeNonzeroPages uses_load _ _)) fun _ => .pure _
  | some lazy =>
    have hmap : (populatedPages L).Behaves Inert Granted
        (fun r => ∃ entries, r = some entries) b := by
      refine behaves_bind ⟨trivial, fun _ hr => hr.2⟩ fun opened => ?_
      cases opened with
      | false => exact fun h => h.2.elim
      | true =>
        refine behaves_bind (behaves_of_uses (uses_pagemapEntries _ _)) fun entries => ?_
        exact fun _ => ⟨entries, rfl⟩
    refine .after hmap fun populated => ?_
    match populated with
    | none => exact .throw fun ⟨_, _, h⟩ => nomatch h
    | some populated => exact copies_lazyPages lazy populated 0 true 0 0

end Copies

end Tarit.Live
