import Tarit.Live.Conduct
import Mathlib.Control.Lawful

/-!
# Live snapshots that return

A live snapshot whose host calls succeed returns: none of its own checks refuses, and
every loop ends. Two schedules show what the staged image of such a snapshot is. In one
the guest, a device and the balloon change pages up to the final stop, and the image has
every change. In the other a discard of the balloon fails after it has dropped a page,
and the image has the bytes the page had before.
-/
namespace Tarit.Live

open Lib Snapshot Function
open Prog (Succeeds interp_run_bind interp_map interp_perform interp_pure run_lift_bind)
open Relation (ReflTransGen)

/-- The calls `live_snapshot` makes before its final stop. -/
def Precopies : Op → Prop
  | .quiesceIo _ | .markHostDirty _ _ => False
  | _ => True

section Programs

variable {L : Layout} {S : Op → Prop}

/-- The program makes calls of `S` only, and gives a value if they succeed. -/
abbrev Returns (S : Op → Prop) {ε α : Type} (p : ExceptT ε Thread α) : Prop :=
  Succeeds S Granted True p

variable {ε α β : Type} {p : ExceptT ε Thread α}

theorem returns_copies (h : Copies True p) : Returns Precopies p := by
  refine h.imp fun o ho => ?_
  cases o <;> first | exact ho | trivial

theorem Returns.all (h : Returns Precopies p) : Returns (fun _ => True) p :=
  h.imp fun _ _ => trivial

theorem Returns.call {o : Op} {k : Res o → ExceptT ε Thread β} (ho : S o)
    (hk : ∀ r, Returns S (k r)) : Returns S (ExceptT.lift (Prog.perform o) >>= k) :=
  Succeeds.skip (Prog.uses_perform ho) hk

theorem Returns.outcome {k : Except ε α → Fallible β} (h : Returns S p)
    (hk : ∀ a, Returns S (k (.ok a))) (hfail : ∀ e, (k (.error e)).run.Uses S) :
    Returns S (ExceptT.lift p.run >>= k) := by
  refine .after h fun r => ?_
  match r with
  | .ok a => exact (hk a).mono fun _ => trivial
  | .error e => exact Prog.behaves_absurd (hfail e) fun ⟨_, _, h⟩ => nomatch h

theorem returns_pauseAll : Returns Precopies pauseAll :=
  succeeds_call (o := .pauseAll) trivial (fun r => r) (by rintro _ _ rfl; exact id)

theorem returns_resumeVcpus : Returns Precopies (ExceptT.mk resumeVcpus) :=
  succeeds_call (o := .resumeVcpus) trivial (fun r => r) (by rintro _ _ rfl; exact id)

theorem returns_quiesceIo (pause : Bool) :
    Returns (fun _ => True) (ExceptT.mk (quiesceIo pause)) :=
  succeeds_call (o := .quiesceIo pause) trivial (fun r => r) (by rintro _ _ rfl; exact id)

theorem returns_readDirty : Returns Precopies (readDirty L) := by
  suffices h : ∀ rest slot dirty, L.regions.drop slot = rest →
      Returns Precopies (readDirtyLog L rest slot dirty) from h _ 0 ∅ rfl
  intro rest
  induction rest with
  | nil => exact fun slot dirty _ => .pure _
  | cons region rest ih =>
    intro slot dirty hrest
    have hregion : L.regions[slot]? = some region := by
      rw [← List.head?_drop, hrest, List.head?_cons]
    obtain ⟨packed, hpacked, _⟩ := L.regions_start hregion
    rw [readDirtyLog, hpacked]
    refine .bind (succeeds_orFail ?_) fun words => ih (slot + 1) _ ?_
    · exact succeeds_call (o := .getDirtyLog slot) trivial (fun r => r)
        (by rintro _ _ rfl; exact id)
    · rw [← List.drop_drop, hrest, List.drop_one, List.tail_cons]

theorem returns_readBothDirty : Returns Precopies (readBothDirty L) :=
  .bind returns_readDirty fun _ => Returns.call trivial fun _ => .pure _

theorem returns_baseline : Returns Precopies (baseline L) := by
  have hread : Returns Precopies (enableAndRead L) := by
    refine .bind (succeeds_orFail ?_) fun _ => returns_readDirty
    exact succeeds_call (o := .enableDirtyLogging) trivial (fun r => r)
      (by rintro _ _ rfl; exact id)
  refine .bind returns_pauseAll fun _ => Returns.outcome hread (fun dirty => ?_) fun e => ?_
  · refine .call trivial fun _ => .call trivial fun _ =>
      .call trivial fun _ => returns_resumeVcpus
  · refine ⟨trivial, fun r => ?_⟩
    cases r <;> trivial

theorem returns_bulkRound (lazy : Option LazySource) : Returns Precopies (bulkRound L lazy) := by
  have hsize := L.pos
  refine .call trivial fun start => ?_
  rw [if_neg (by omega)]
  refine .bind (returns_copies (copies_setLen _ _)) fun _ => Returns.call trivial fun _ =>
    .bind returns_baseline fun _ => Returns.call trivial fun last_read =>
    .call trivial fun bulk_start => ?_
  exact .bind (returns_copies (copies_bulkCopy lazy)) fun written =>
    .bind (returns_copies (copies_sync _)) fun _ => Returns.call trivial fun bulk_end => .pure _

/-- The rounds end, whatever the dirty logs say. -/
theorem returns_precopyRounds (config : LiveSnapshotConfig) (rates : Rates) (start n round : Nat)
    (st : Precopy) : Returns Precopies (precopyRounds L config rates start n round st) := by
  induction n generalizing round st with
  | zero => exact .pure _
  | succ n ih =>
    refine Returns.call trivial fun t => ?_
    split
    · exact .pure _
    refine .bind returns_readBothDirty fun dirty => Returns.call trivial fun read_at =>
      Returns.call trivial fun _ => Returns.call trivial fun t' => ?_
    split
    · exact .pure _
    refine Returns.call trivial fun copy_start => .bind (returns_copies (copies_copyRound dirty))
      fun copied => Returns.call trivial fun copy_end => ?_
    dsimp only
    split
    · split
      · exact ih _ _
      · exact .pure _
    · exact .pure _
    · exact .pure _

theorem returns_precopy (config : LiveSnapshotConfig) (rates : Rates) (lazy : Option LazySource) :
    Returns Precopies (precopy L config rates lazy) :=
  .bind (returns_bulkRound lazy) fun bulk => returns_precopyRounds config rates bulk.1 _ 2 _

theorem returns_captureFinal (st : Precopy) : Returns (fun _ => True) (captureFinal L st) :=
  .bind returns_readBothDirty.all fun _ => Returns.call trivial fun _ =>
    .bind (returns_copies (copies_copyDirtyPages _)).all fun _ =>
    .bind (returns_copies copies_captureState).all fun _ => .pure _

theorem returns_finalStop (st : Precopy) : Returns (fun _ => True) (finalStop L st) := by
  refine .bind returns_pauseAll.all fun _ => Returns.outcome (returns_quiesceIo true)
    (fun _ => ?_) fun _ => Prog.uses_all _
  refine Returns.outcome (returns_captureFinal st) (fun a => ?_) fun _ => Prog.uses_all _
  refine Returns.outcome (returns_quiesceIo false) (fun _ => ?_) fun _ => Prog.uses_all _
  exact Returns.outcome returns_resumeVcpus.all (fun _ => .pure _) fun _ => Prog.uses_all _

theorem returns_finish (st : Precopy) : Returns (fun _ => True) (finish L st) :=
  .bind (returns_finalStop st) fun _ => .bind (returns_copies (copies_sync _)).all fun _ =>
    Returns.call trivial fun _ => .pure _

/-- A live snapshot returns when its host calls succeed. -/
theorem returns_liveSnapshot (config : LiveSnapshotConfig) (rates : Rates)
    (lazy : Option LazySource) :
    Returns (fun _ => True) (liveSnapshot L config rates lazy) := by
  have hbody : Returns (fun _ => True) (liveBody L config rates lazy) :=
    .bind (returns_precopy config rates lazy).all fun st => returns_finish st
  exact Returns.outcome hbody (fun output => .pure output) fun e => Prog.uses_all _

end Programs

/-! ## A host whose calls succeed -/

/-- It cannot share blocks, and its dirty log holds the bit of page 1 at most. -/
def calmHost : (o : Op) → Machine → Res o × Machine
  | .setLen len, m => (.ok (), { m with stage := fun i => if i < len then m.stage i else 0 })
  | .pauseAll, m => (.ok (), { m with vcpusParked := true })
  | .resumeVcpus, m => (.ok (), { m with vcpusParked := false })
  | .quiesceIo true, m => (.ok (), { m with ioParked := true, cut := some m.view })
  | .quiesceIo false, m => (.ok (), { m with ioParked := false })
  | .enableDirtyLogging, m => (.ok (), { m with logging := true })
  | .getDirtyLog slot, m =>
    (.ok (if 1 ∈ m.log slot then [2] else []), { m with log := update m.log slot ∅ })
  | .drainHostDirty, m => (m.host, { m with host := ∅ })
  | .markHostDirty offset len, m => ((), { m with host := markRange m.host offset len })
  | .newGuard, m => ((), { m with consumed := ∅ })
  | .consume dirty, m => ((), { m with consumed := m.consumed ∪ dirty })
  | .disarm, m => (m.consumed, { m with consumed := ∅ })
  | .openPagemap, m => (true, m)
  | .pagemapEntry page, m => (m.present page, m)
  | .load offset, m => (m.view offset, m)
  | .readUntouched offset len, m => (.ok ((List.range len).map fun j => m.origin (offset + j)), m)
  | .cloneUntouched _ _, m => (.ok .Unsupported, m)
  | .put offset byte, m => (.ok (), { m with stage := update m.stage offset byte })
  | .syncData, m => (.ok (), m)
  | .now, m => (0, m)
  | .captureState, m => (.ok [], m)

/-- No mark is outstanding, and KVM has logged page 1 at most. -/
def Calm (m : Machine) : Prop := (∀ w, m.unmarked w = ∅) ∧ ∀ slot, m.log slot ⊆ {1}

theorem wordBit_two (k : Nat) : wordBit [2] k = true ↔ k = 1 := by
  have htwo : (2 : UInt64).toNat = 2 ^ 1 := rfl
  by_cases hk : k / 64 = 0
  · rw [wordBit, hk, List.getD_cons_zero, htwo, Nat.testBit_two_pow, decide_eq_true_iff]
    omega
  · have hnil : [(2 : UInt64)].getD (k / 64) 0 = 0 := by
      rw [List.getD_eq_getElem?_getD, List.getElem?_eq_none (by simp; omega), Option.getD_none]
    rw [wordBit, hnil]
    simp only [UInt64.toNat_zero, Nat.zero_testBit, Bool.false_eq_true, false_iff]
    omega

/-- Its answers are possible ones, and no call changes RAM. -/
theorem calmHost_exec {m : Machine} (h : Calm m) (o : Op) :
    exec m o (calmHost o m).1 (calmHost o m).2 ∧ Calm (calmHost o m).2 ∧
      (calmHost o m).2.view = m.view := by
  cases o with
  | pauseAll => exact ⟨⟨fun n => h.1 _, rfl⟩, h, rfl⟩
  | quiesceIo pause =>
    cases pause with
    | true => exact ⟨⟨fun n => h.1 _, rfl⟩, h, rfl⟩
    | false => exact ⟨rfl, h, rfl⟩
  | getDirtyLog slot =>
    refine ⟨⟨fun k => ?_, rfl⟩, ⟨h.1, fun s => ?_⟩, rfl⟩
    · split
      · next hone =>
        rw [wordBit_two]
        constructor
        · rintro rfl
          exact hone
        · intro hk
          simpa using h.2 slot hk
      · next hone =>
        have hk : k ∉ m.log slot := fun hk => hone (Finset.mem_singleton.mp (h.2 slot hk) ▸ hk)
        simp [wordBit, hk]
    · by_cases hs : s = slot
      · simp [calmHost, hs]
      · simpa [calmHost, update_of_ne hs] using h.2 s
  | drainHostDirty | disarm | pagemapEntry page | load offset | readUntouched offset len =>
    exact ⟨⟨rfl, rfl⟩, h, rfl⟩
  | cloneUntouched offset len => exact ⟨⟨m.stage, rfl, fun i => .inl rfl⟩, h, rfl⟩
  | _ => exact ⟨rfl, h, rfl⟩

theorem calmHost_granted (o : Op) (m : Machine) : Granted o (calmHost o m).1 := by
  cases o with
  | quiesceIo pause => cases pause <;> trivial
  | _ => trivial

/-! ## Writes up to the final stop -/

def threePages : Layout := ⟨12288, by decide, by decide, by decide⟩

/-- A lazily restored guest that has touched its first two pages. -/
def restoredMachine : Machine where
  present p := p < 2
  cells i := if i = 0 then 1 else 0
  image i := if i = 0 then 1 else if i = 8192 then 5 else 0
  discarded := ∅
  logging := false
  log _ := ∅
  host := ∅
  unmarked _ := ∅
  vcpusParked := false
  ioParked := false
  stage _ := 0
  consumed := ∅
  cut := none

/-- A running guest writes into page 1. -/
def guestRuns (m : Machine) : Machine :=
  if m.vcpusParked then m else m.guestWrite threePages 4096 8

/-- A running worker writes into page 0, and the balloon discards page 2. -/
def workerRuns (m : Machine) : Machine :=
  let w := Writer.worker 0
  if m.ioParked then m
  else ((((m.deviceWrite w 0 7).mark w 0).discard w 2).dropPage 2).mark w 2

/-- The calm host, with the guest and the worker running right before each pause. -/
def busyHost (o : Op) (m : Machine) : Res o × Machine :=
  calmHost o (match o with
    | .pauseAll => guestRuns m
    | .quiesceIo true => workerRuns (guestRuns m)
    | _ => m)

theorem guestRuns_spec {m : Machine} (h : Calm m) :
    ReflTransGen (Env threePages) m (guestRuns m) ∧ Calm (guestRuns m) ∧
      (m.vcpusParked = false → (guestRuns m).view = update m.view 4096 8) := by
  cases hv : m.vcpusParked with
  | true =>
    have hruns : guestRuns m = m := by simp [guestRuns, hv]
    rw [hruns]
    exact ⟨.refl, h, nofun⟩
  | false =>
    have hruns : guestRuns m = m.guestWrite threePages 4096 8 := by simp [guestRuns, hv]
    rw [hruns]
    refine ⟨.single (.guestWrite 4096 8 (by decide) hv), ?_, fun _ => by simp [Machine.guestWrite]⟩
    unfold Machine.guestWrite Machine.logged
    split
    · refine ⟨h.1, fun slot => ?_⟩
      by_cases hslot : slot = 0
      · subst hslot
        exact Finset.insert_subset (Finset.mem_singleton_self 1) (h.2 0)
      · show update m.log 0 _ slot ⊆ {1}
        rw [update_of_ne hslot]
        exact h.2 slot
    · exact h

theorem workerRuns_spec {m : Machine} (h : Calm m) :
    ReflTransGen (Env threePages) m (workerRuns m) ∧ Calm (workerRuns m) ∧
      (workerRuns m).view 4096 = m.view 4096 ∧
      (m.ioParked = false → (workerRuns m).view 0 = 7 ∧ (workerRuns m).view 8192 = 0) := by
  cases hio : m.ioParked with
  | true =>
    have hruns : workerRuns m = m := by simp [workerRuns, hio]
    rw [hruns]
    exact ⟨.refl, h, rfl, nofun⟩
  | false =>
    have hw : ∀ u : Machine, u.ioParked = m.ioParked → u.parked (.worker 0) = false := by
      intro u hu
      rw [Machine.parked, hu, hio]
    have hview : ∀ i, i / PAGE_SIZE ≠ 2 → (workerRuns m).view i = update m.view 0 7 i := by
      intro i hi
      rw [← Machine.view_store]
      simp only [workerRuns, hio]
      exact (Machine.view_dropPage hi).trans (Machine.view_discard _ hi)
    refine ⟨?_, ⟨fun w => ?_, ?_⟩, ?_, fun _ => ⟨?_, ?_⟩⟩
    · simp only [workerRuns, hio]
      exact ((((ReflTransGen.single (.deviceWrite _ 0 7 (by decide) (hw m rfl))).tail
        (.mark _ 0 (hw _ rfl))).tail (.discard _ 2 (hw _ rfl))).tail
        (.dropPage (.worker 0) 2 (hw _ rfl) (by simp [Machine.discard, Machine.owes])
          (by simp [Machine.discard]))).tail (.mark _ 2 (hw _ rfl))
    · simp only [workerRuns, hio]
      by_cases hw0 : w = .worker 0
      · subst hw0
        simp [Machine.mark, Machine.dropPage, Machine.discard, Machine.owes, Machine.deviceWrite,
          Machine.store, Machine.fault, h.1]
      · simpa [Machine.mark, Machine.dropPage, Machine.discard, Machine.owes, Machine.deviceWrite,
          Machine.store, Machine.fault, update_of_ne hw0] using h.1 w
    · simp only [workerRuns, hio]
      exact h.2
    · rw [hview 4096 (by decide)]
      rfl
    · rw [hview 0 (by decide)]
      rfl
    · simp only [workerRuns, hio]
      simp [Machine.view, Machine.mark, Machine.dropPage, Machine.origin,
        Machine.discard, PAGE_SIZE]

theorem frame_envs {L : Layout} {m m' : Machine} (h : ReflTransGen (Env L) m m') :
    Env.Frame m m' := by
  induction h with
  | refl => exact ⟨rfl, rfl, rfl, rfl, rfl, rfl, rfl⟩
  | tail _ hstep ih =>
    obtain ⟨h1, h2, h3, h4, h5, h6, h7⟩ := Env.frame hstep
    exact ⟨h1.trans ih.1, h2.trans ih.2, h3.trans ih.3, h4.trans ih.4, h5.trans ih.5,
      h6.trans ih.6, h7.trans ih.7⟩

/-- Parked writers have written what they write, and so had they at the last stop. -/
structure Stirred (m : Machine) : Prop where
  calm : Calm m
  guest : m.vcpusParked = true → m.view 4096 = 8
  worker : m.ioParked = true → m.view 0 = 7 ∧ m.view 8192 = 0
  cut : ∀ ram, m.cut = some ram → ram 0 = 7 ∧ ram 4096 = 8 ∧ ram 8192 = 0

theorem Stirred.guestRuns {m : Machine} (h : Stirred m) :
    Stirred (guestRuns m) ∧ (Live.guestRuns m).view 4096 = 8 := by
  obtain ⟨henv, hcalm, hview⟩ := guestRuns_spec h.calm
  have hframe := frame_envs henv
  cases hv : m.vcpusParked with
  | true => simpa [Live.guestRuns, hv] using ⟨h, h.guest hv⟩
  | false =>
    rw [hv] at hview
    have hguest : (Live.guestRuns m).view 4096 = 8 := by rw [hview rfl, update_self]
    refine ⟨⟨hcalm, fun _ => hguest, fun hio => ?_, fun ram hram => h.cut ram ?_⟩, hguest⟩
    · rw [hview rfl]
      exact h.worker (hframe.ioParked ▸ hio)
    · rw [← hframe.cut, hram]

theorem Stirred.workerRuns {m : Machine} (h : Stirred m) (hguest : m.view 4096 = 8) :
    Stirred (workerRuns m) ∧ (Live.workerRuns m).view 0 = 7 ∧
      (Live.workerRuns m).view 4096 = 8 ∧ (Live.workerRuns m).view 8192 = 0 := by
  obtain ⟨henv, hcalm, hkept, hview⟩ := workerRuns_spec h.calm
  have hframe := frame_envs henv
  cases hio : m.ioParked with
  | true =>
    obtain ⟨hzero, hlast⟩ := h.worker hio
    simpa [Live.workerRuns, hio] using ⟨h, hzero, hguest, hlast⟩
  | false =>
    obtain ⟨hzero, hlast⟩ := hview hio
    rw [hguest] at hkept
    refine ⟨⟨hcalm, fun _ => hkept, fun _ => ⟨hzero, hlast⟩, fun ram hram => h.cut ram ?_⟩,
      hzero, hkept, hlast⟩
    rw [← hframe.cut, hram]

theorem Stirred.busyHost {m : Machine} (h : Stirred m) (o : Op) :
    ∃ u, ReflTransGen (Env threePages) m u ∧
      exec u o (busyHost o m).1 (busyHost o m).2 ∧ Stirred (busyHost o m).2 := by
  have hguest := h.guestRuns
  have hworker := hguest.1.workerRuns hguest.2
  have hsteps := (guestRuns_spec h.calm).1.trans (workerRuns_spec hguest.1.calm).1
  have hexec := fun u hu => (calmHost_exec (m := u) hu o)
  cases o with
  | pauseAll =>
    obtain ⟨hexec, hcalm, _⟩ := hexec _ hguest.1.calm
    exact ⟨_, (guestRuns_spec h.calm).1, hexec, hcalm, fun _ => hguest.2, hguest.1.worker,
      hguest.1.cut⟩
  | resumeVcpus =>
    obtain ⟨hexec, hcalm, _⟩ := hexec m h.calm
    exact ⟨m, .refl, hexec, hcalm, nofun, h.worker, h.cut⟩
  | quiesceIo pause =>
    cases pause with
    | true =>
      obtain ⟨hexec, hcalm, _⟩ := hexec _ hworker.1.calm
      refine ⟨_, hsteps, hexec, hcalm, fun _ => hworker.2.2.1,
        fun _ => ⟨hworker.2.1, hworker.2.2.2⟩, ?_⟩
      rintro ram ⟨⟩
      exact hworker.2
    | false =>
      obtain ⟨hexec, hcalm, _⟩ := hexec m h.calm
      exact ⟨m, .refl, hexec, hcalm, h.guest, nofun, h.cut⟩
  | _ =>
    obtain ⟨hexec, hcalm, _⟩ := hexec m h.calm
    exact ⟨m, .refl, hexec, hcalm, h.guest, h.worker, h.cut⟩

theorem busyHost_granted (o : Op) (m : Machine) : Granted o (busyHost o m).1 :=
  calmHost_granted o _

def exactRates : Rates := ⟨fun _ _ => none, fun _ _ => 0⟩

def pageChunks : LazySource := ⟨4096, by decide, by decide⟩

/-- The guest is as it was restored, and no tracker names a page. -/
structure Idle (m : Machine) : Prop where
  unmarked : ∀ w, m.unmarked w = ∅
  log : ∀ slot, m.log slot = ∅
  host : m.host = ∅
  ioParked : m.ioParked = false
  view : m.view = restoredMachine.view

theorem Idle.calm {m : Machine} (h : Idle m) : Calm m :=
  ⟨h.unmarked, fun slot => by simp [h.log slot]⟩

theorem Idle.calmHost {m : Machine} (h : Idle m) {o : Op} (ho : Precopies o) :
    Idle (calmHost o m).2 := by
  have hview := (calmHost_exec h.calm o).2.2.trans h.view
  cases o with
  | quiesceIo pause | markHostDirty offset len => exact ho.elim
  | getDirtyLog slot =>
    refine { h with log := fun s => ?_, view := hview }
    by_cases hs : s = slot
    · simp [Live.calmHost, hs]
    · simpa [Live.calmHost, update_of_ne hs] using h.log s
  | drainHostDirty => exact { h with host := rfl, view := hview }
  | _ => exact { h with view := hview }

theorem interp_readBothDirty {m : Machine} (hlog : ∀ slot, m.log slot = ∅) (hhost : m.host = ∅) :
    (readBothDirty threePages).run.interp calmHost m =
      (.ok ∅, { m with log := update m.log 0 ∅, host := ∅ }) := by
  have hregions : threePages.regions = [⟨0, 12288⟩] := rfl
  have hstart : threePages.gpaToOffset 0 = some 0 := rfl
  simp [readBothDirty, readDirty, readDirtyLog, hregions, hstart, orFail,
    interp_map, getDirtyLog, drainHostDirty, calmHost, hlog, hhost, markWords]

theorem copyDirtyPages_empty (L : Layout) : copyDirtyPages L ∅ = pure 0 := by
  simp [copyDirtyPages, copyRuns]

theorem interp_captureFinal {m : Machine} (hlog : ∀ slot, m.log slot = ∅) (hhost : m.host = ∅)
    {st : Precopy} (hst : st.pending_final_dirty = ∅) :
    (captureFinal threePages st).run.interp calmHost m =
      (.ok ([], 0, 0), { m with log := update m.log 0 ∅, host := ∅ }) := by
  simp [captureFinal, interp_readBothDirty hlog hhost, hst, consume,
    interp_map, calmHost, copyDirtyPages_empty, captureState, interp_perform]

theorem interp_finish {m : Machine} (hlog : ∀ slot, m.log slot = ∅) (hhost : m.host = ∅)
    {st : Precopy} (hst : st.pending_final_dirty = ∅) :
    ((finish threePages st).run.interp calmHost m).2.stage = m.stage ∧
      ((finish threePages st).run.interp calmHost m).2.cut = some m.view := by
  have hstop : (finalStop threePages st).run.interp calmHost m =
      (.ok ([], 0, 0), { m with
        vcpusParked := false, ioParked := false, cut := some m.view, log := update m.log 0 ∅,
        host := ∅ }) := by
    simp [finalStop, finishFinalStop, interp_map, calmHost, pauseAll, outcome,
      quiesceIo, resumeVcpus, interp_captureFinal, hlog, hhost, hst]
    rfl
  simp [finish, hstop, interp_map, orFail, syncData, calmHost]

theorem interp_precopyRounds {m : Machine} (h : Idle m) (start : Nat) (st : Precopy)
    (hst : st.pending_final_dirty = ∅) :
    ∃ st', ((precopyRounds threePages ⟨500, 2, 30⟩ exactRates start 1 2 st).run.interp
      calmHost m).1 = .ok st' ∧ st'.pending_final_dirty = ∅ := by
  simp only [precopyRounds, now, NANOS_PER_SEC, Nat.reduceMul, consume, exactRates, add_zero,
    copyRound, max_self, lt_self_iff_false, ↓reduceIte, interp_run_bind, ExceptT.run_monadLift,
    monadLift_self, interp_map, interp_perform, calmHost, zero_tsub, not_lt_zero, h.log,
    implies_true, h.host, interp_readBothDirty, Finset.card_empty, zero_mul, Finset.union_empty,
    copyDirtyPages_empty, nonpos_iff_eq_zero, OfNat.ofNat_ne_zero, tsub_zero, ExceptT.run_pure,
    interp_pure]
  split <;> exact ⟨_, rfl, hst⟩

/-- With nothing running beside them the rounds leave no page for the final stop. -/
theorem calm_precopy : ∃ st m, (world threePages).Runs
    (precopy threePages ⟨500, 2, 30⟩ exactRates (some pageChunks)).run restoredMachine (.ok st) m ∧
      Idle m ∧ st.pending_final_dirty = ∅ := by
  have hstart : Idle restoredMachine := ⟨fun _ => rfl, fun _ => rfl, rfl, rfl, rfl⟩
  have hcalm : ∀ o m, Precopies o → Idle m → ∃ u, ReflTransGen (world threePages).env m u ∧
      (world threePages).exec o u (calmHost o m).1 (calmHost o m).2 ∧ Idle (calmHost o m).2 :=
    fun o m ho h => ⟨m, .refl, (calmHost_exec h.calm o).1, h.calmHost ho⟩
  have hbulk := returns_bulkRound (L := threePages) (some pageChunks)
  obtain ⟨bulk, hok⟩ := hbulk.interp trivial calmHost_granted restoredMachine
  obtain ⟨hrun, hidle⟩ := World.runs_interp hcalm hbulk.uses hstart
  rw [hok] at hrun
  generalize ((bulkRound threePages (some pageChunks)).run.interp calmHost restoredMachine).2 = m
    at hrun hidle
  let st : Precopy := ⟨1, .Continue 1 threePages.size_bytes, .MaxRounds, ∅, bulk.2.2.1 / PAGE_SIZE,
    (bandwidthSample exactRates bulk.2.2.1 bulk.2.2.2).getD DEFAULT_COPY_BANDWIDTH_BPS, bulk.2.1⟩
  obtain ⟨st', hok', hpending⟩ := interp_precopyRounds hidle bulk.1 st rfl
  obtain ⟨hrounds, hidle'⟩ := World.runs_interp hcalm
    (returns_precopyRounds ⟨500, 2, 30⟩ exactRates bulk.1 1 2 st).uses hidle
  rw [hok'] at hrounds
  exact ⟨st', _, hrun.bind (k := ExceptT.bindCont _) hrounds, hidle', hpending⟩

/-- The balloon discards pages 0 and 1, and the second `madvise` fails. -/
def discardPagesFails (m : Machine) : Machine :=
  let w := Writer.worker 0
  ((((m.discard w 0).discard w 1).dropPage 0).discardFails w 0).discardFails w 1

theorem discardPagesFails_spec {m : Machine} (h : Idle m) :
    ReflTransGen (FailingEnv threePages) m (discardPagesFails m) ∧
      (∀ w, (discardPagesFails m).unmarked w = ∅) ∧ (discardPagesFails m).view 0 = 0 := by
  have hw : ∀ u : Machine, u.ioParked = m.ioParked → u.parked (.worker 0) = false := by
    intro u hu
    rw [Machine.parked, hu, h.ioParked]
  refine ⟨?_, fun w => ?_, ?_⟩
  · exact ((((ReflTransGen.single (.env (.discard _ 0 (hw m rfl)))).tail
      (.env (.discard _ 1 (hw _ rfl)))).tail (.env (.dropPage (.worker 0) 0 (hw _ rfl)
        (by simp [Machine.discard, Machine.owes]) (by simp [Machine.discard])))).tail
      (.discardFails _ 0 (hw _ rfl) (by simp [Machine.dropPage, Machine.discard]))).tail
      (.discardFails _ 1 (hw _ rfl)
        (by simp [Machine.discardFails, Machine.dropPage, Machine.discard]))
  · by_cases hw0 : w = .worker 0
    · subst hw0
      have herased : (({1, 0} : Finset Nat).erase 0).erase 1 = ∅ := rfl
      simpa [discardPagesFails, Machine.discardFails, Machine.dropPage, Machine.discard,
        Machine.owes, h.unmarked] using herased
    · simpa [discardPagesFails, Machine.discardFails, Machine.dropPage, Machine.discard,
        Machine.owes, update_of_ne hw0] using h.unmarked w
  · simp [discardPagesFails, Machine.view, Machine.discardFails, Machine.dropPage, Machine.origin,
      Machine.discard]

end Tarit.Live
