import Tarit.Live.LazyCopy

/-!
# The live snapshot

`live_snapshot` copies all of RAM while the guest runs, copies what was written
meanwhile in rounds, and stops the guest for the rest. Whatever the guest, the devices
and the balloon do between its steps, and however the rounds end, the staged image of a
snapshot that returns is guest RAM as the final stop found it.
-/
namespace Tarit.Live

open Lib Snapshot Prog

/-! ## Convergence -/

structure PrecopyParams where
  mem_bytes : Nat
  dirty_rate_bps : Nat
  copy_bandwidth_bps : Nat
  target_downtime_us : Nat
  max_rounds : Nat

inductive RoundDecision where
  | Continue (round dirty_bytes : Nat)
  | FinalStop (round dirty_bytes : Nat)
  | Diverging (round : Nat)
  deriving DecidableEq

/-- Another background round, or the final stop. -/
def decide (params : PrecopyParams) (round dirty_bytes : Nat) : RoundDecision :=
  if params.copy_bandwidth_bps ≤ params.dirty_rate_bps ∧ 2 ≤ round then .Diverging round
  else if params.max_rounds ≤ round then .FinalStop round dirty_bytes
  else if dirty_bytes * 1000000 / max params.copy_bandwidth_bps 1 ≤ params.target_downtime_us then
    .FinalStop round dirty_bytes
  else .Continue round dirty_bytes

inductive LiveSnapshotTermination where
  | Converged
  | Diverging
  | Timeout
  | MaxRounds
  deriving DecidableEq

structure LiveSnapshotConfig where
  target_downtime_us : Nat
  max_rounds : Nat
  timeout_secs : Nat

def BANDWIDTH_SAMPLE_MIN_BYTES : Nat := 2 ^ 20

def DEFAULT_COPY_BANDWIDTH_BPS : Nat := 500000000

def NANOS_PER_SEC : Nat := 1000000000

/-- The floating-point computations of the loop. Nothing is assumed about them. -/
structure Rates where
  /-- `bytes as f64 / secs` where it is finite and at least one. Times are nanoseconds. -/
  bytesPerSecond : (bytes elapsed : Nat) → Option Nat
  /-- `Duration::from_secs_f64(bytes as f64 / bandwidth as f64)`. -/
  projectedCopy : (bytes bandwidth : Nat) → Nat

def bandwidthSample (rates : Rates) (bytes elapsed : Nat) : Option Nat :=
  if bytes < BANDWIDTH_SAMPLE_MIN_BYTES then none
  else if elapsed = 0 then none
  else rates.bytesPerSecond bytes elapsed

def dirtyRateSample (rates : Rates) (bytes elapsed : Nat) : Nat :=
  if elapsed = 0 then u64Size - 1 else (rates.bytesPerSecond bytes elapsed).getD 1

/-! ## The host calls -/

def syncData : Thread (Except String Unit) := perform Op.syncData

def consume (dirty : DirtyBitmap) : Thread Unit := perform (Op.consume dirty)

def pauseAll : Fallible Unit := ExceptT.mk (perform Op.pauseAll)

def resumeVcpus : Thread (Result Unit) := perform Op.resumeVcpus

def quiesceIo (pause : Bool) : Thread (Result Unit) := perform (Op.quiesceIo pause)

def captureState : Thread (Result Bytes) := perform Op.captureState

def VmmError.display : VmmError → String
  | .invalidConfig message => "invalid configuration: " ++ message
  | .memory message => "memory error: " ++ message
  | .snapshot message => "snapshot error: " ++ message
  | .device message => "device error: " ++ message
  | .ioQuiescence message _ _ => "device error: " ++ message

def VmmError.vcpusMayResumeAfterIoError : VmmError → Bool
  | .ioQuiescence _ vcpus_may_resume _ => vcpus_may_resume
  | _ => true

/-! ## The rounds -/

structure Precopy where
  rounds : Nat
  final_decision : RoundDecision
  termination : LiveSnapshotTermination
  pending_final_dirty : DirtyBitmap
  total_pages_copied : Nat
  copy_bandwidth_bps : Nat
  last_read : Nat

section Live

variable (L : Layout) (config : LiveSnapshotConfig) (rates : Rates)

/-- Both dirty sources: KVM's log, then the host tracker. -/
def readBothDirty : Fallible DirtyBitmap := do
  let dirty ← readDirty L
  let host ← drainHostDirty
  pure (dirty ∪ host)

/-- Copy what a round read, and write it back if it copied anything. -/
def copyRound (dirty : DirtyBitmap) : Fallible Nat := do
  let copied ← copyDirtyPages L dirty
  if 0 < copied then
    orFail syncData fun error => .snapshot ("sync pre-copy staged RAM: " ++ error)
  pure copied

/-- Rounds `round ..= config.max_rounds.max(2)`, `n` of them. -/
def precopyRounds (start : Nat) : (n round : Nat) → Precopy → Fallible Precopy
  | 0, _, st => pure st
  | n + 1, round, st => do
    let t ← now
    if config.timeout_secs * NANOS_PER_SEC < t - start then
      pure { st with termination := .Timeout, rounds := round }
    else
      let dirty ← readBothDirty L
      let read_at ← now
      consume dirty
      let dirty_bytes := dirty.card * PAGE_SIZE
      let projected_copy := rates.projectedCopy dirty_bytes (max st.copy_bandwidth_bps 1)
      let t ← now
      if config.timeout_secs * NANOS_PER_SEC ≤ t - start + projected_copy then
        -- The log no longer has these pages: the final stop copies them.
        pure { st with
          pending_final_dirty := st.pending_final_dirty ∪ dirty
          final_decision := .FinalStop round dirty_bytes
          termination := .Timeout
          rounds := round }
      else
        let copy_start ← now
        let copied ← copyRound L dirty
        let copy_end ← now
        let bandwidth := (bandwidthSample rates (copied * PAGE_SIZE) (copy_end - copy_start)).getD
          st.copy_bandwidth_bps
        let params : PrecopyParams := {
          mem_bytes := L.size_bytes
          dirty_rate_bps := dirtyRateSample rates dirty_bytes (read_at - st.last_read)
          copy_bandwidth_bps := max bandwidth 1
          target_downtime_us := config.target_downtime_us
          max_rounds := config.max_rounds }
        let decision := decide params round dirty_bytes
        let st := { st with
          rounds := round
          final_decision := decision
          total_pages_copied := st.total_pages_copied + copied
          copy_bandwidth_bps := bandwidth
          last_read := read_at }
        match decision with
        | .Continue _ _ =>
          if round < max config.max_rounds 2 then precopyRounds start n (round + 1) st
          else pure { st with termination := .MaxRounds }
        | .FinalStop _ _ => pure { st with termination := .Converged }
        | .Diverging _ => pure { st with termination := .Diverging }

/-! ## The final stop -/

/-- What the blackout captures: the state blob, the residual pages, the pages copied. -/
def captureFinal (st : Precopy) : Fallible (Bytes × Nat × Nat) := do
  let dirty ← readBothDirty L
  let final_dirty := dirty ∪ st.pending_final_dirty
  consume final_dirty
  let copied ← copyDirtyPages L final_dirty
  let state_blob ← ExceptT.mk captureState
  pure (state_blob, final_dirty.card, copied)

/-- Release I/O first, then the vCPUs. -/
def finishFinalStop {α : Type} (capture : Result α) : Fallible α := do
  match ← outcome (quiesceIo false) with
  | .error io_error =>
    throw (match capture with
      | .ok _ => io_error
      | .error capture_error => .snapshot (VmmError.display capture_error ++
          "; failed to resume I/O workers: " ++ VmmError.display io_error))
  | .ok () =>
    match capture, ← outcome resumeVcpus with
    | .ok value, .ok () => pure value
    | .error error, .ok () => throw error
    | .ok _, .error error => throw error
    | .error capture_error, .error resume_error =>
      throw (.snapshot (VmmError.display capture_error ++ "; failed to resume vCPUs: " ++
        VmmError.display resume_error))

def finalStop (st : Precopy) : Fallible (Bytes × Nat × Nat) := do
  pauseAll
  match ← outcome (quiesceIo true) with
  | .error error =>
    if VmmError.vcpusMayResumeAfterIoError error then
      match ← outcome resumeVcpus with
      | .ok () => throw error
      | .error resume_error => throw (.snapshot (VmmError.display error ++
          "; failed to resume vCPUs after I/O quiescence failure: " ++
            VmmError.display resume_error))
    else throw error
  | .ok () =>
    let capture ← outcome (captureFinal L st).run
    finishFinalStop capture

/-! ## The whole snapshot -/

structure LiveSnapshotOutput where
  rounds : Nat
  pages_copied : Nat
  final_dirty_pages : Nat
  final_decision : RoundDecision
  termination : LiveSnapshotTermination
  mem_bytes : Nat
  state_blob : Bytes
  consumed_dirty : DirtyBitmap

def enableAndRead : Fallible DirtyBitmap := do
  orFail (perform Op.enableDirtyLogging : Thread (Except String Unit)) fun e =>
    .memory ("enable dirty logging: " ++ e)
  readDirty L

/-- Dirty logging is enabled and the baseline read with the vCPUs paused. -/
def baseline : Fallible Unit := do
  pauseAll
  match ← outcome (enableAndRead L).run with
  | .error e =>
    ExceptT.mk resumeVcpus
    throw e
  | .ok dirty =>
    consume dirty
    let host ← drainHostDirty
    consume host
    ExceptT.mk resumeVcpus

/-- All of RAM, while the guest runs. -/
def bulkCopy (lazy : Option LazySource) : Fallible (Nat × Nat) :=
  match lazy with
  | some lazy => writeLazyRestoredPages L lazy
  | none => do
    let written ← orFail (writeNonzeroPages load L.size_bytes 0).run bulkError
    pure (written, 0)

/-- `live_snapshot` up to its rounds: when it started, when it read the baseline, the bytes
of the bulk copy and how long copying them took. -/
def bulkRound (lazy : Option LazySource) : Fallible (Nat × Nat × Nat × Nat) := do
  let start ← now
  if L.size_bytes = 0 then throw (.memory "guest memory is empty")
  else
    orFail (perform (Op.setLen L.size_bytes) : Thread (Except String Unit)) fun error =>
      .snapshot ("size staged RAM image: " ++ error)
    (perform Op.newGuard : Thread Unit)
    baseline L
    let last_read ← now
    let bulk_start ← now
    let (bulk_written, cloning_time) ← bulkCopy L lazy
    orFail syncData fun error => .snapshot ("sync bulk staged RAM: " ++ error)
    let bulk_end ← now
    pure (start, last_read, bulk_written, bulk_end - bulk_start - cloning_time)

/-- `live_snapshot` up to its final stop. -/
def precopy (lazy : Option LazySource) : Fallible Precopy := do
  let (start, last_read, bulk_written, bulk_elapsed) ← bulkRound L lazy
  precopyRounds L config rates start (max config.max_rounds 2 - 1) 2 {
    rounds := 1
    final_decision := .Continue 1 L.size_bytes
    termination := .MaxRounds
    pending_final_dirty := ∅
    total_pages_copied := bulk_written / PAGE_SIZE
    copy_bandwidth_bps :=
      (bandwidthSample rates bulk_written bulk_elapsed).getD DEFAULT_COPY_BANDWIDTH_BPS
    last_read := last_read }

/-- The rest of `live_snapshot`, from the final stop on. -/
def finish (st : Precopy) : Fallible LiveSnapshotOutput := do
  let (state_blob, final_dirty_pages, copied) ← finalStop L st
  orFail syncData fun error => .snapshot ("sync final staged RAM: " ++ error)
  let consumed_dirty ← (perform Op.disarm : Thread DirtyBitmap)
  pure {
    rounds := st.rounds
    pages_copied := st.total_pages_copied + copied
    final_dirty_pages := final_dirty_pages
    final_decision := st.final_decision
    termination := st.termination
    mem_bytes := L.size_bytes
    state_blob := state_blob
    consumed_dirty := consumed_dirty }

/-- `live_snapshot` up to the guard of the consumed pages. -/
def liveBody (lazy : Option LazySource) : Fallible LiveSnapshotOutput := do
  let st ← precopy L config rates lazy
  finish L st

/-- A snapshot that fails puts every page it consumed back into the host tracker. -/
def liveSnapshot (lazy : Option LazySource) : Fallible LiveSnapshotOutput := do
  match ← outcome (liveBody L config rates lazy).run with
  | .ok output => pure output
  | .error e =>
    let consumed ← (perform Op.disarm : Thread DirtyBitmap)
    replayConsumedDirty consumed
    throw e

end Live

/-! ## What the host calls keep -/

variable {L : Layout} {K P : Machine → Prop} {late : Nat → Prop}

theorem yields_now (hP : (world L).Stable P) :
    (world L).Yields P (ExceptT.lift now : Fallible Nat) fun _ => P :=
  .lift (triple_now hP)

theorem yields_sync (hP : (world L).Stable P) (e : String → VmmError) :
    (world L).Yields P (orFail syncData e) fun _ => P := by
  have hcall : (world L).Yields P (.mk syncData) fun _ => P := by
    refine .perform (o := .syncData) (fun r => r) hP (fun _ => hP) ?_
    intro m _ u m' hm hexec _
    obtain rfl : m' = m := hexec
    exact hm
  exact yields_orFail hcall

theorem yields_consume (hP : (world L).Stable P)
    (hput : ∀ m dirty, P m → P { m with consumed := dirty }) (dirty : DirtyBitmap) :
    (world L).Yields P (ExceptT.lift (consume dirty) : Fallible Unit) fun _ => P := by
  refine .lift (.perform hP ?_ fun _ => hP)
  intro m _ m' hm hexec
  obtain rfl : m' = _ := hexec
  exact hput m _ hm

theorem Lags.consume (hK : ∀ m dirty, K m → K { m with consumed := dirty }) (m : Machine)
    (dirty : DirtyBitmap) (h : Lags L K late m) : Lags L K late { m with consumed := dirty } :=
  ⟨hK m dirty h.1, h.2⟩

/-- An assertion that emptying the trackers keeps. -/
structure Drainable (K : Machine → Prop) : Prop where
  log : ∀ m slot, K m → K { m with log := Function.update m.log slot ∅ }
  host : ∀ m, K m → K { m with host := ∅ }

theorem yields_readBothDirty (hK : Carried L K) (hdrain : Drainable K) (late : Nat → Prop) :
    (world L).Yields (Lags L K late) (readBothDirty L) fun dirty =>
      Lags L K fun i => late i ∨ i / PAGE_SIZE ∈ dirty := by
  have hread : (world L).Yields (Lags L K late) (readDirty L) fun dirty =>
      Lags L K fun i => late i ∨ i / PAGE_SIZE ∈ dirty := by
    refine (yields_readDirty
      (Φ := fun _ dirty => Lags L K fun i => late i ∨ i / PAGE_SIZE ∈ dirty)
      (fun _ _ => hK.lags _) ?_).pre fun m h => h.mono fun i hi => .inl hi
    intro slot dirty packed words m m' hstart hm hexec
    have hc := hm.2.collect (collects_getDirtyLog dirty hstart hexec)
    obtain ⟨_, rfl⟩ := hexec
    refine ⟨hdrain.log m slot hm.1, hc.mono fun i hi => ?_⟩
    rcases hi with (hi | hi) | hi
    · exact .inl hi
    · exact .inr (subset_markWords hi)
    · exact .inr hi
  refine .bind hread fun dirty => ?_
  have hhost : (world L).Triple (Lags L K fun i => late i ∨ i / PAGE_SIZE ∈ dirty) drainHostDirty
      fun host => Lags L K fun i => (late i ∨ i / PAGE_SIZE ∈ dirty) ∨ i / PAGE_SIZE ∈ host := by
    refine .perform (hK.lags _) ?_ fun _ => hK.lags _
    intro m host m' hm hexec
    have hc := hm.2.collect (collects_drainHostDirty hexec)
    obtain ⟨_, rfl⟩ := hexec
    exact ⟨hdrain.host m hm.1, hc⟩
  refine .after hhost fun host => .pure (hK.lags _) fun m h => h.mono fun i hi => ?_
  rw [Finset.mem_union, ← or_assoc]
  exact hi

/-! ## Baseline, bulk copy and rounds -/

def Logging (m : Machine) : Prop := m.logging = true

theorem carried_logging (L : Layout) : Carried L Logging where
  stable m m' h henv := by
    unfold Logging
    rw [(Env.frame henv).logging]
    exact h
  logging m h := h
  put m i v h hv := h

theorem drainable_logging : Drainable Logging := ⟨fun _ _ h => h, fun _ h => h⟩

def Hole (m : Machine) : Prop := ∀ i, m.stage i = 0

theorem stable_hole (L : Layout) : (world L).Stable Hole := by
  intro m m' h henv i
  rw [(Env.frame henv).stage]
  exact h i

theorem stable_fresh (L : Layout) : (world L).Stable fun m => Logging m ∧ Hole m :=
  (carried_logging L).stable.and (stable_hole L)

theorem Hole.ready {m : Machine} (h : Hole m) : Ready L m := fun i => .inl (h i)

theorem yields_pauseAll {P Q : Machine → Prop} (hP : (world L).Stable P) (hQ : (world L).Stable Q)
    (h : ∀ m, P m → (∀ n, m.unmarked (.vcpu n) = ∅) → Q { m with vcpusParked := true }) :
    (world L).Yields P pauseAll fun _ => Q := by
  refine .perform (o := .pauseAll) (fun r => r) hP (fun _ => hQ) ?_
  rintro m _ u m' hm hexec rfl
  obtain ⟨hmarks, rfl⟩ := hexec
  exact h m hm hmarks

theorem yields_enableAndRead :
    (world L).Yields Hole (enableAndRead L) fun _ m => Logging m ∧ Hole m := by
  have hcall : (world L).Yields Hole
      (.mk (perform Op.enableDirtyLogging : Thread (Except String Unit)))
      fun _ m => Logging m ∧ Hole m := by
    refine .perform (o := .enableDirtyLogging) (fun r => r) (stable_hole L)
      (fun _ => stable_fresh L) ?_
    rintro m _ u m' hm hexec rfl
    obtain rfl : m' = _ := hexec
    exact ⟨rfl, hm⟩
  refine .bind (yields_orFail hcall) fun _ => ?_
  refine yields_readDirty (fun _ _ => stable_fresh L) ?_
  intro slot dirty packed words m m' _ hm hexec
  obtain ⟨_, rfl⟩ := hexec
  exact hm

theorem yields_baseline : (world L).Yields Hole (baseline L) fun _ m => Logging m ∧ Hole m := by
  have hfresh := stable_fresh L
  refine .bind (yields_pauseAll (stable_hole L) (stable_hole L) fun m h _ => h) fun _ => ?_
  refine .caught yields_enableAndRead (fun dirty => ?_) fun e => .bind (.any _) fun _ => .throw _
  have hdrain : (world L).Triple (fun m => Logging m ∧ Hole m) drainHostDirty
      fun _ m => Logging m ∧ Hole m := by
    refine .perform hfresh ?_ fun _ => hfresh
    intro m host m' hm hexec
    obtain ⟨_, rfl⟩ := hexec
    exact hm
  refine .bind (yields_consume hfresh (fun m d h => h) dirty) fun _ => .after hdrain fun host => ?_
  refine .bind (yields_consume hfresh (fun m d h => h) host) fun _ => ?_
  refine .perform (o := .resumeVcpus) (fun r => r) hfresh (fun _ => hfresh) ?_
  rintro m _ u m' hm hexec rfl
  obtain rfl : m' = _ := hexec
  exact hm

theorem yields_bulkCopy (lazy : Option LazySource) :
    (world L).Yields (fun m => Logging m ∧ Hole m) (bulkCopy L lazy) fun _ =>
      Lags L Logging (L.size_bytes ≤ ·) := by
  match lazy with
  | some lazy =>
    exact (yields_writeLazyRestoredPages (stable_fresh L)
      fun m h => ⟨h.1, h.2.ready⟩).post fun _ m h => ⟨h.1, h.2⟩
  | none =>
    have hK := carried_bulk L []
    have hcopy : (world L).Yields (Lags L (Bulk L []) fun _ => True) _ _ :=
      yields_writeNonzeroPages hK (fun m h => h.ready)
        (supplies_ram (fun m h => h.logging) L.size_bytes)
    refine .bind ((yields_orFail hcopy).pre fun m h => ?_) fun written =>
      .pure (hK.lags _) fun m h => ?_
    · exact ⟨⟨h.1, h.2.ready, by simp [Untouched]⟩, fun i => .inl trivial⟩
    · exact ⟨h.1.logging, h.2.mono fun i hi => by omega⟩

theorem le_page_iff {i : Nat} : L.pages ≤ i / PAGE_SIZE ↔ L.size_bytes ≤ i := by
  have hsize := L.whole
  unfold Layout.pages PAGE_SIZE at *
  omega

/-- The late bytes between two rounds: those of the pages kept for the final stop. -/
def Kept (L : Layout) (pending : DirtyBitmap) (i : Nat) : Prop :=
  L.size_bytes ≤ i ∨ i / PAGE_SIZE ∈ pending

theorem yields_copyRound (dirty pending : DirtyBitmap) :
    (world L).Yields (Lags L Logging fun i => Kept L pending i ∨ i / PAGE_SIZE ∈ dirty)
      (copyRound L dirty) fun _ => Lags L Logging (Kept L pending) := by
  have hK := carried_logging L
  have hlags := hK.lags (Kept L pending)
  have hcopy : (world L).Yields (Lags L Logging fun i => Kept L pending i ∨ i / PAGE_SIZE ∈ dirty)
      (copyDirtyPages L dirty) fun _ => Lags L Logging (Kept L pending) := by
    refine (yields_copyDirtyPages hK dirty).post fun _ m h => h.mono fun i hi => ?_
    rcases hi with hi | hi
    · exact hi
    · exact .inl (le_page_iff.mp hi)
  refine .bind hcopy fun copied => ?_
  · split
    · exact .bind (yields_sync hlags _) fun _ => .pure hlags fun _ h => h
    · exact .pure hlags fun _ h => h

/-- Every way the rounds can end leaves only the pending pages late. -/
theorem yields_precopyRounds (config : LiveSnapshotConfig) (rates : Rates) (start n round : Nat)
    (st : Precopy) {pending : DirtyBitmap} (hst : st.pending_final_dirty = pending) :
    (world L).Yields (Lags L Logging (Kept L pending))
      (precopyRounds L config rates start n round st)
      fun st' => Lags L Logging (Kept L st'.pending_final_dirty) := by
  have hK := carried_logging L
  have hkeep : ∀ st' : Precopy, st'.pending_final_dirty = pending →
      (world L).Yields (Lags L Logging (Kept L pending)) (pure st' : Fallible Precopy)
        fun st' => Lags L Logging (Kept L st'.pending_final_dirty) := by
    rintro st' rfl
    exact .pure (hK.lags _) fun _ h => h
  induction n generalizing round st with
  | zero => exact hkeep st hst
  | succ n ih =>
    refine .bind (yields_now (hK.lags _)) fun t => ?_
    split
    · exact hkeep _ hst
    refine .bind (yields_readBothDirty hK drainable_logging _) fun dirty => ?_
    refine .bind (yields_now (hK.lags _)) fun read_at => ?_
    refine .bind (yields_consume (hK.lags _)
      (fun m d h => h.consume (fun _ _ h => h) m d) dirty) fun _ => ?_
    refine .bind (yields_now (hK.lags _)) fun t' => ?_
    split
    · refine .pure (hK.lags _) fun m h => h.mono fun i hi => ?_
      rcases hi with (hi | hi) | hi
      · exact .inl hi
      · exact .inr (Finset.mem_union_left _ (hst ▸ hi))
      · exact .inr (Finset.mem_union_right _ hi)
    · refine .bind (yields_now (hK.lags _)) fun copy_start => ?_
      refine .bind (yields_copyRound dirty pending) fun copied => ?_
      refine .bind (yields_now (hK.lags _)) fun copy_end => ?_
      dsimp only
      split
      · split
        · exact ih _ _ hst
        · exact hkeep _ hst
      · exact hkeep _ hst
      · exact hkeep _ hst

/-! ## The final stop -/

/-- The vCPUs are parked with nothing left to mark. -/
def Paused (m : Machine) : Prop := m.vcpusParked = true ∧ ∀ n, m.unmarked (.vcpu n) = ∅

theorem stable_paused (L : Layout) : (world L).Stable Paused := by
  intro m m' h henv
  refine ⟨?_, fun n => Env.unmarked_parked henv h.1 (h.2 n)⟩
  rw [(Env.frame henv).vcpusParked]
  exact h.1

/-- Every writer is parked, and RAM is what the stop found. -/
structure Still (m : Machine) : Prop where
  logging : m.logging = true
  vcpus : m.vcpusParked = true
  io : m.ioParked = true
  marked : ∀ w, m.unmarked w = ∅
  cut : m.cut = some m.view

theorem Still.env {m m' : Machine} (h : Still m) (henv : Env L m m') : ∃ p, m' = m.fault p :=
  Env.of_parked henv h.vcpus h.io

theorem carried_still (L : Layout) : Carried L Still where
  stable m m' h henv := by
    obtain ⟨p, rfl⟩ := h.env henv
    exact { h with cut := by rw [Machine.view_fault]; exact h.cut }
  logging m h := h.logging
  put m i v h hv := { h with }

theorem drainable_still : Drainable Still :=
  ⟨fun _ _ h => { h with }, fun _ h => { h with }⟩

/-- A parked machine with empty trackers. -/
def Quiet (L : Layout) (m : Machine) : Prop := Still m ∧ ∀ p < L.pages, ¬ Recorded L m p

theorem carried_quiet (L : Layout) : Carried L (Quiet L) where
  stable m m' h henv := by
    refine ⟨(carried_still L).stable h.1 henv, ?_⟩
    obtain ⟨p, rfl⟩ := h.1.env henv
    exact h.2
  logging m h := h.1.logging
  put m i v h hv := ⟨(carried_still L).put m i v h.1 hv, h.2⟩

theorem yields_quiet : (world L).Yields Still (readBothDirty L) fun _ => Quiet L := by
  have hstill := (carried_still L).stable
  have hlogs : ∀ slot, (world L).Stable fun m => Still m ∧ ∀ s < slot, m.log s = ∅ := by
    intro slot m m' h henv
    refine ⟨hstill h.1 henv, ?_⟩
    obtain ⟨p, rfl⟩ := h.1.env henv
    exact h.2
  have hread : (world L).Yields Still (readDirty L) fun _ m =>
      Still m ∧ ∀ s < L.regions.length, m.log s = ∅ := by
    refine (yields_readDirty
      (fun slot _ => hlogs slot) ?_).pre
      fun m h => ⟨h, by simp⟩
    intro slot dirty packed words m m' _ hm hexec
    obtain ⟨_, rfl⟩ := hexec
    refine ⟨drainable_still.log m slot hm.1, fun s hs => ?_⟩
    by_cases hslot : s = slot
    · simp [hslot]
    · simpa [Function.update_of_ne hslot] using hm.2 s (by omega)
  refine .bind hread fun dirty => ?_
  have hdrain : (world L).Triple (fun m => Still m ∧ ∀ s < L.regions.length, m.log s = ∅)
      drainHostDirty fun _ => Quiet L := by
    refine .perform (hlogs _) ?_ fun _ => (carried_quiet L).stable
    intro m host m' hm hexec
    obtain ⟨_, rfl⟩ := hexec
    refine ⟨drainable_still.host m hm.1, fun p hp hr => ?_⟩
    rcases hr with hr | ⟨w, hr⟩ | hr
    · simp at hr
    · simp [hm.1.marked w] at hr
    · simp [hm.2 _ (L.slotBit_lt hp)] at hr
  exact .after hdrain fun host => .pure (carried_quiet L).stable fun _ h => h

/-- The staged image is guest RAM as the final stop found it. -/
def Staged (L : Layout) (m : Machine) : Prop :=
  ∃ ram, m.cut = some ram ∧ ∀ i < L.size_bytes, m.stage i = ram i

theorem stable_staged (L : Layout) : (world L).Stable (Staged L) := by
  rintro m m' ⟨ram, hcut, hstage⟩ henv
  refine ⟨ram, ?_, ?_⟩
  · rw [(Env.frame henv).cut]
    exact hcut
  · rw [(Env.frame henv).stage]
    exact hstage

theorem Lags.staged {m : Machine} (h : Lags L (Quiet L) (L.size_bytes ≤ ·) m) : Staged L m := by
  refine ⟨m.view, h.1.1.cut, fun i hi => ?_⟩
  have hpage : i / PAGE_SIZE < L.pages := by
    have hle := (le_page_iff (L := L) (i := i)).mp
    omega
  exact (h.2.exact (by omega) (h.1.2 _ hpage)).symm

theorem yields_captureFinal (st : Precopy) :
    (world L).Yields (Lags L Still (Kept L st.pending_final_dirty)) (captureFinal L st)
      fun _ => Staged L := by
  have hK := carried_quiet L
  have hread := World.Yields.and
    (yields_readBothDirty (carried_still L) drainable_still (Kept L st.pending_final_dirty))
    (yields_quiet)
  refine .bind (hread.pre fun m h => ⟨h, h.1⟩) fun dirty => ?_
  have hstable := hK.lags fun i => L.size_bytes ≤ i ∨ i / PAGE_SIZE ∈ dirty ∪ st.pending_final_dirty
  have hconsume := yields_consume hstable (fun m d h => h.consume
    (fun m d h => ⟨{ h.1 with }, h.2⟩) m d)
    (dirty ∪ st.pending_final_dirty)
  refine .bind (hconsume.pre fun m h => ?_) fun _ => ?_
  · refine ⟨h.2, h.1.2.mono fun i hi => ?_⟩
    rcases hi with (hi | hi) | hi
    · exact .inl hi
    · exact .inr (Finset.mem_union_right _ hi)
    · exact .inr (Finset.mem_union_left _ hi)
  · refine .bind ((yields_copyDirtyPages hK _).post
      fun _ m h => (h.mono fun i hi => hi.elim id le_page_iff.mp).staged) fun copied => ?_
    have hstate : (world L).Yields (Staged L) (.mk captureState) fun _ => Staged L := by
      refine .perform (o := .captureState) (fun r => r) (stable_staged L)
        (fun _ => stable_staged L) ?_
      intro m _ blob m' hm hexec _
      obtain rfl : m' = m := hexec
      exact hm
    exact .bind hstate fun blob => .pure (stable_staged L) fun _ h => h

theorem yields_finishFinalStop {α : Type} (capture : Result α) :
    (world L).Yields (fun m => ∀ a, capture = .ok a → Staged L m) (finishFinalStop capture)
      fun _ => Staged L := by
  have hstable : (world L).Stable fun m => ∀ a, capture = .ok a → Staged L m :=
    fun m m' h henv a ha => stable_staged L (h a ha) henv
  have hresume : ∀ o, (o = Op.quiesceIo false ∨ o = .resumeVcpus) → (world L).Triple
      (fun m => ∀ a, capture = .ok a → Staged L m) (perform o)
      fun _ m => ∀ a, capture = .ok a → Staged L m := by
    intro o ho
    refine .perform hstable ?_ fun _ => hstable
    rcases ho with rfl | rfl <;>
    · intro m r m' hm hexec a ha
      match r with
      | .ok _ =>
        obtain rfl : m' = _ := hexec
        exact hm a ha
      | .error _ =>
        obtain ⟨parked, rfl⟩ := hexec
        exact hm a ha
  refine .after (hresume _ (.inl rfl)) fun r => ?_
  match r with
  | .error _ => exact .throw _
  | .ok () =>
    refine .after (hresume _ (.inr rfl)) fun resumed => ?_
    match capture, resumed with
    | .ok value, .ok () => exact .pure hstable fun m h => h value rfl
    | .error _, .ok () | .ok _, .error _ | .error _, .error _ => exact .throw _

theorem yields_finalStop (st : Precopy) :
    (world L).Yields (Lags L Logging (Kept L st.pending_final_dirty)) (finalStop L st)
      fun _ => Staged L := by
  have hlags := (carried_logging L).lags (Kept L st.pending_final_dirty)
  have hpaused := hlags.and (stable_paused L)
  refine .bind (yields_pauseAll hlags hpaused fun m h hmarks => ⟨h, rfl, hmarks⟩) fun _ => ?_
  have hstill := (carried_still L).lags (Kept L st.pending_final_dirty)
  have hio : (world L).Triple
      (fun m => Lags L Logging (Kept L st.pending_final_dirty) m ∧ Paused m) (quiesceIo true)
      fun r m => ∀ u, r = .ok u → Lags L Still (Kept L st.pending_final_dirty) m := by
    refine .perform hpaused ?_ fun r m m' h henv u hr => hstill (h u hr) henv
    rintro m _ m' ⟨hm, hvcpus⟩ hexec u rfl
    obtain ⟨hmarks, rfl⟩ := hexec
    refine ⟨⟨hm.1, hvcpus.1, rfl, fun w => ?_, rfl⟩, hm.2⟩
    cases w with
    | vcpu n => exact hvcpus.2 n
    | worker n => exact hmarks n
  refine .after hio fun r => ?_
  match r with
  | .error error =>
    dsimp only
    split
    · refine .after (fun _ _ _ _ _ => trivial) fun resumed => ?_
      match resumed with
      | .ok () | .error _ => exact .throw _
    · exact .throw _
  | .ok () =>
    refine .caught ((yields_captureFinal st).pre fun m h => h () rfl)
      (fun captured => ?_) fun e => ?_
    · exact (yields_finishFinalStop _).pre fun m h _ _ => h
    · exact (yields_finishFinalStop _).pre nofun

theorem yields_bulkRound (lazy : Option LazySource) :
    (world L).Yields Hole (bulkRound L lazy) fun _ => Lags L Logging (L.size_bytes ≤ ·) := by
  have hhole := stable_hole L
  have hfresh := stable_fresh L
  have hlags := (carried_logging L).lags (L.size_bytes ≤ ·)
  refine .bind (yields_now hhole) fun start => ?_
  split
  · exact .throw _
  have hsized : (world L).Yields Hole
      (.mk (perform (Op.setLen L.size_bytes) : Thread (Except String Unit)))
      fun _ => Hole := by
    refine .perform (o := .setLen L.size_bytes) (fun r => r) hhole (fun _ => hhole) ?_
    rintro m _ u m' hm hexec rfl i
    obtain rfl : m' = _ := hexec
    simp [hm i]
  have hguard : (world L).Triple Hole (perform Op.newGuard : Thread Unit) fun _ => Hole := by
    refine .perform hhole ?_ fun _ => hhole
    intro m _ m' hm hexec
    obtain rfl : m' = _ := hexec
    exact hm
  refine .bind (yields_orFail hsized) fun _ => ?_
  refine .after hguard fun _ => ?_
  refine .bind yields_baseline fun _ => ?_
  refine .bind (yields_now hfresh) fun last_read => ?_
  refine .bind (yields_now hfresh) fun bulk_start => ?_
  refine .bind (yields_bulkCopy lazy) fun written => ?_
  refine .bind (yields_sync hlags _) fun _ => ?_
  refine .bind (yields_now hlags) fun bulk_end => ?_
  exact .pure hlags fun _ h => h

/-- Before the final stop only the pages kept for it, and the recorded ones, are late. -/
theorem yields_precopy (config : LiveSnapshotConfig) (rates : Rates) (lazy : Option LazySource) :
    (world L).Yields Hole (precopy L config rates lazy)
      fun st => Lags L Logging (Kept L st.pending_final_dirty) := by
  refine .bind (yields_bulkRound lazy) fun bulk => ?_
  exact (yields_precopyRounds config rates bulk.1 _ 2 _ rfl).pre
    fun m h => h.mono fun i hi => .inl hi

theorem yields_finish (st : Precopy) :
    (world L).Yields (Lags L Logging (Kept L st.pending_final_dirty)) (finish L st)
      fun _ => Staged L := by
  have hstaged := stable_staged L
  have hdisarm : (world L).Triple (Staged L) (perform Op.disarm : Thread DirtyBitmap)
      fun _ => Staged L := by
    refine .perform hstaged ?_ fun _ => hstaged
    intro m _ m' hm hexec
    obtain ⟨_, rfl⟩ := hexec
    exact hm
  refine .bind (yields_finalStop st) fun captured => ?_
  refine .bind (yields_sync hstaged _) fun _ => ?_
  refine .after hdisarm fun consumed => ?_
  exact .pure hstaged fun _ h => h

end Tarit.Live
