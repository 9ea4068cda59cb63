import Tarit.Virtio.Rounds

/-!
# No kick is lost between a driver and the walker

A driver publishes entries, compares the device's `avail_event` with what it has published
since its last comparison, and rings the doorbell when `vring_need_event` says so. The
device takes a doorbell and runs `process_queue_descriptors_dirty` once. Both go on step by
step, in any order, and the 16-bit indices wrap.

The counters of `Driver` do not wrap; the ring fields hold them modulo 2^16. A device that
waits is `Armed`: a doorbell is on its way, or its `avail_event` names an index the driver
has published and not decided about yet, or the last one it published.
-/
namespace Tarit.Virtio

open Lib Live Snapshot World Triple

/-- The driver's side of one queue. -/
structure Driver where
  /-- Entries published. -/
  published : Nat
  /-- Entries it had published when it last decided whether to kick. -/
  checked : Nat
  /-- Kicks it has decided on and not made yet. -/
  ringing : Nat
  /-- Kicks the device has not taken yet. -/
  rung : Nat

namespace QueueConfig

def idxAt (c : QueueConfig) : Nat := c.avail_ring_addr + 2

def eventAt (c : QueueConfig) : Nat := c.used_ring_addr + c.usedBytes

end QueueConfig

/-- What the driver decides. Without `RING_EVENT_IDX` it kicks for everything new. -/
def Driver.needsKick (c : QueueConfig) (event_idx : Bool) (g : Guest) (d : Driver) : Bool :=
  if event_idx then
    vringNeedEvent (word g.cells c.eventAt) (UInt16.ofNat d.published) (UInt16.ofNat d.checked)
  else d.checked != d.published

/-- The steps of the driver, by whether it negotiated `RING_EVENT_IDX`. It may write all other
memory at any time. -/
inductive DriverStep (c : QueueConfig) (event_idx : Bool) :
    Guest × Driver → Guest × Driver → Prop where
  | publish (g : Guest) (d : Driver) (k : Nat) (hk : 0 < k)
      (hwindow : d.published + k - d.checked < 2 ^ 16) :
      DriverStep c event_idx (g, d)
        ({ g with cells := put g.cells c.idxAt (u16Bytes (UInt16.ofNat (d.published + k))) },
          { d with published := d.published + k })
  | decide (g : Guest) (d : Driver) :
      DriverStep c event_idx (g, d)
        (g, { d with
          checked := d.published
          ringing := d.ringing + if d.needsKick c event_idx g then 1 else 0 })
  | ring (g : Guest) (d : Driver) (h : 0 < d.ringing) :
      DriverStep c event_idx (g, d) (g, { d with ringing := d.ringing - 1, rung := d.rung + 1 })
  | write (g g' : Guest) (d : Driver) (hidx : word g'.cells c.idxAt = word g.cells c.idxAt)
      (hevent : event_idx = true → word g'.cells c.eventAt = word g.cells c.eventAt) :
      DriverStep c event_idx (g, d) (g', d)

/-- A queue the driver set up: accepted, with its event field in RAM, and with an available
index that no field the device writes covers. -/
structure Placed (L : Layout) (c : QueueConfig) : Prop where
  usable : c.queueIsUsable L = true
  event : checkRange L c.eventAt 2 = true
  event_fits : c.eventAt < u64Size
  apart : c.idxAt + 2 ≤ c.used_ring_addr + 2 ∨ c.eventAt + 2 ≤ c.idxAt

/-- What the driver keeps: the available index is what it published, and it decides before a
whole turn of the index. -/
structure Driver.Keeps (c : QueueConfig) (x : Guest × Driver) : Prop where
  idx : word x.1.cells c.idxAt = UInt16.ofNat x.2.published
  ordered : x.2.checked ≤ x.2.published
  window : x.2.published - x.2.checked < 2 ^ 16

/-- A waiting device that has consumed up to `last` hears of what the driver publishes. -/
def Driver.Armed (c : QueueConfig) (event_idx : Bool) (last : UInt16) (x : Guest × Driver) : Prop :=
  0 < x.2.rung ∨ 0 < x.2.ringing ∨
    ∃ n, x.2.checked ≤ n ∧ n ≤ x.2.published ∧ UInt16.ofNat n = last ∧
      (event_idx = true → word x.1.cells c.eventAt = last)

/-- Inside one turn of the index `vring_need_event` compares the unwrapped counters. -/
theorem vringNeedEvent_iff {old event new : Nat} (hlo : old ≤ event) (hhi : event ≤ new)
    (hwindow : new - old < 2 ^ 16) :
    vringNeedEvent (UInt16.ofNat event) (UInt16.ofNat new) (UInt16.ofNat old) =
      decide (event < new) := by
  unfold vringNeedEvent
  rw [decide_eq_decide, UInt16.lt_iff_toNat_lt]
  simp only [UInt16.toNat_sub, UInt16.toNat_ofNat', UInt16.toNat_one]
  omega

namespace DriverStep

variable {c : QueueConfig} {event_idx : Bool} {x y : Guest × Driver} {last : UInt16}

theorem keeps (h : DriverStep c event_idx x y) (hx : Driver.Keeps c x) : Driver.Keeps c y := by
  obtain ⟨hidx, hordered, hwin⟩ := hx
  cases h with
  | publish g d k hk hwindow =>
    constructor
    · exact word_put_self _ _ _
    · exact le_trans hordered (Nat.le_add_right _ _)
    · exact hwindow
  | decide g d =>
    constructor
    · exact hidx
    · exact le_refl _
    · exact lt_of_le_of_lt (Nat.sub_self _).le (by decide)
  | ring g d h => exact ⟨hidx, hordered, hwin⟩
  | write g g' d hidx' hevent' => exact ⟨hidx'.trans hidx, hordered, hwin⟩

/-- The driver does not write an `avail_event` it has negotiated. -/
theorem event (h : DriverStep c event_idx x y)
    (hc : c.idxAt + 2 ≤ c.eventAt ∨ c.eventAt + 2 ≤ c.idxAt) (hevent : event_idx = true) :
    word y.1.cells c.eventAt = word x.1.cells c.eventAt := by
  cases h with
  | publish g d k hk hwindow =>
    apply word_put_outside
    rw [u16Bytes_length]
    omega
  | decide g d => rfl
  | ring g d h => rfl
  | write g g' d hidx' hevent' => exact hevent' hevent

/-- Every decision either finds nothing new or rings. -/
theorem armed (h : DriverStep c event_idx x y)
    (hc : c.idxAt + 2 ≤ c.eventAt ∨ c.eventAt + 2 ≤ c.idxAt) (hx : Driver.Keeps c x)
    (ha : Driver.Armed c event_idx last x) : Driver.Armed c event_idx last y := by
  have hevent := h.event hc
  obtain ⟨-, hordered, hwin⟩ := hx
  rcases ha with hrung | hringing | ⟨n, hlo, hhi, hn, hlast⟩
  · cases h with
    | ring g d h => exact .inl (Nat.succ_pos _)
    | _ => exact .inl hrung
  · cases h with
    | ring g d h => exact .inl (Nat.succ_pos _)
    | decide g d => exact .inr (.inl (lt_of_lt_of_le hringing (Nat.le_add_right _ _)))
    | _ => exact .inr (.inl hringing)
  · cases h with
    | publish g d k hk hwindow =>
      exact .inr (.inr ⟨n, hlo, le_trans hhi (Nat.le_add_right _ _), hn,
        fun he => (hevent he).trans (hlast he)⟩)
    | decide g d =>
      by_cases hnew : n < d.published
      · right
        left
        have hneed : d.needsKick c event_idx g = true := by
          cases event_idx with
          | true =>
            have hneed := vringNeedEvent_iff hlo hhi hwin
            rw [decide_eq_true hnew, hn, ← hlast rfl] at hneed
            exact hneed
          | false => exact bne_iff_ne.mpr (Nat.ne_of_lt (lt_of_le_of_lt hlo hnew))
        rw [if_pos hneed]
        exact Nat.succ_pos _
      · have hall : d.published ≤ n := Nat.le_of_not_lt hnew
        exact .inr (.inr ⟨n, hall, hhi, hn, hlast⟩)
    | ring g d h => exact .inl (Nat.succ_pos _)
    | write g g' d hidx' hevent' =>
      exact .inr (.inr ⟨n, hlo, hhi, hn, fun he => (hevent he).trans (hlast he)⟩)

end DriverStep

variable {x : Guest × Driver}

/-- A driver with nothing to say has published nothing beyond what the armed device consumed. -/
theorem Driver.Armed.idx_eq {c : QueueConfig} {event_idx : Bool} {last : UInt16}
    (h : Driver.Armed c event_idx last x) (hkeeps : Driver.Keeps c x) (hrung : x.2.rung = 0)
    (hringing : x.2.ringing = 0) (hchecked : x.2.checked = x.2.published) :
    word x.1.cells c.idxAt = last := by
  rcases h with h | h | ⟨n, hlo, hhi, hn, -⟩
  · exact absurd hrung (Nat.ne_of_gt h)
  · exact absurd hringing (Nat.ne_of_gt h)
  · have hall : n = x.2.published := le_antisymm hhi (hchecked ▸ hlo)
    rw [hkeeps.idx, ← hn, hall]

section Call

attribute [local irreducible] Triple

variable {H δ τ : Type} {A : H → Type} {L : Layout} {c : QueueConfig}

/-- A handler that completes every chain. -/
def Completes (handler : Handler A δ) : Prop :=
  ∀ d readable writable, (handler d readable writable).Gives fun r => r.1 ≠ none

/-- A device beside a driver. What else the environment does, and what host calls do, is a
write of other memory to the driver's part `driver` of the state. -/
structure Beside (c : QueueConfig) (driver : τ → Driver) (env : Guest × τ → Guest × τ → Prop)
    (host : (call : H) → τ → A call → τ → Prop) : Prop where
  env : ∀ x y, env x y → DriverStep c true (x.1, driver x.2) (y.1, driver y.2)
  host : ∀ call x r y, host call x r y → driver y = driver x

variable {driver : τ → Driver} {env : Guest × τ → Guest × τ → Prop}
  {host : (call : H) → τ → A call → τ → Prop} {S : Nat → Bytes → Prop}

abbrev Keeping (c : QueueConfig) (driver : τ → Driver) (x : Guest × τ) : Prop :=
  Driver.Keeps c (x.1, driver x.2)

theorem Placed.event_apart (hc : Placed L c) :
    c.idxAt + 2 ≤ c.eventAt ∨ c.eventAt + 2 ≤ c.idxAt := by
  have h := hc.apart
  unfold QueueConfig.eventAt QueueConfig.usedBytes at h ⊢
  omega

theorem Beside.stable (hb : Beside c driver env host) :
    (deviceWorld L S env host).Stable (Keeping c driver) :=
  fun x y hx he => (hb.env x y he).keeps hx

theorem Driver.Keeps.store {addr : Nat} {data : Bytes} (h : Driver.Keeps c x)
    (hoff : Off c.idxAt 2 addr data) : Driver.Keeps c (x.1.store L addr data, x.2) := by
  constructor
  · have hword : word (x.1.store L addr data).cells c.idxAt = word x.1.cells c.idxAt := by
      apply word_store_outside
      unfold Off at hoff
      omega
    exact hword.trans h.idx
  · exact h.ordered
  · exact h.window

theorem Driver.Keeps.mark {gpa len : Nat} (h : Driver.Keeps c x) :
    Driver.Keeps c ({ x.1 with dirty := markGuestRange x.1.dirty gpa len }, x.2) :=
  { h with }

/-- In a run whose stores are off the available index everything keeps the driver's
invariant. -/
theorem triple_keeping (hb : Beside c driver env host) {α : Type} (p : Device A α) :
    (deviceWorld L (Off c.idxAt 2) env host).Triple (Keeping c driver) p
      fun _ => Keeping c driver := by
  apply of_uses (Prog.uses_all p) hb.stable
  intro o s r t _ hs hexec
  cases o with
  | load addr len =>
    obtain ⟨-, rfl⟩ := hexec
    exact hs
  | store addr data =>
    obtain ⟨hoff, -, rfl⟩ := hexec
    exact hs.store hoff
  | mark gpa len =>
    rw [hexec]
    exact hs.mark
  | host call =>
    unfold Keeping
    rw [hexec.2, hb.host _ _ _ _ hexec.1]
    exact hs

def Negotiated (c : QueueConfig) (event_idx : Bool) (q : VirtQueueProcessor) : Prop :=
  q.config = c ∧ q.event_idx = event_idx

/-- In these runs the handler completes every chain and keeps `I`. -/
def Serves (w : World (Guest × τ) (Op H) (Res A)) (I : Guest × τ → Prop) (handler : Handler A δ) :
    Prop :=
  ∀ d readable writable, w.Triple I (handler d readable writable) fun r x => r.1 ≠ none ∧ I x

variable {handler : Handler A δ} {v : UInt16} {s : Session δ}

theorem Placed.usedEntry_off (hc : Placed L c) {position head : UInt16} {addr len : Nat}
    (haddr : c.usedEntryAddr position = some addr) : Off c.idxAt 2 addr (usedElem head len) := by
  obtain ⟨addr', haddr', -, hlo, hhi⟩ := (usable_of hc.usable).usedEntryAddr position
  cases haddr.symm.trans haddr'
  have := hc.apart
  unfold Off QueueConfig.eventAt at *
  rw [usedElem_length]
  omega

theorem Placed.usedIdx_off (hc : Placed L c) :
    Off c.idxAt 2 (c.used_ring_addr + 2) (u16Bytes v) := by
  have := hc.apart
  have := (usable_of hc.usable).size_pos
  unfold Off QueueConfig.eventAt QueueConfig.usedBytes USED_ELEM_SIZE at *
  rw [u16Bytes_length]
  omega

/-- The inner loop runs to the available index it was given. -/
theorem triple_drain_serves (hc : Placed L c) {I : Guest × τ → Prop}
    (hstable : (deviceWorld L S env host).Stable I)
    (hmark : ∀ x gpa len, I x → I ({ x.1 with dirty := markGuestRange x.1.dirty gpa len }, x.2))
    (hstore : ∀ x addr data, Off c.idxAt 2 addr data → I x → I (x.1.store L addr data, x.2))
    (hh : Serves (deviceWorld L S env host) I handler) {event_idx : Bool}
    (hs : Negotiated c event_idx s.queue) :
    (deviceWorld L S env host).Triple I (drain L handler v (v - s.queue.last_avail_idx).toNat s)
      fun r x => (r.1 = false ∧ Negotiated c event_idx r.2.queue ∧ r.2.queue.last_avail_idx = v) ∧
        I x := by
  apply (triple_drain (usable_of hc.usable) hstable hmark
    (fun x _ _ addr _ haddr hx _ => hstore x addr _ (hc.usedEntry_off haddr) hx) hh _ s hs rfl).post
  rintro ⟨stopped, t⟩ x ⟨⟨hcfg, hstop, hlast⟩, hx⟩
  cases stopped with
  | true => exact (hstop rfl).elim
  | false => exact ⟨⟨rfl, hcfg, hlast rfl⟩, hx⟩

/-- The device hears of the driver again when it returns. -/
def Rearmed (c : QueueConfig) (driver : τ → Driver) (q : VirtQueueProcessor) (x : Guest × τ) :
    Prop :=
  Keeping c driver x ∧ Negotiated c true q ∧ Driver.Armed c true q.last_avail_idx (x.1, driver x.2)

/-- The write of `avail_event` comes before the look at the available index: an entry
published between the two is seen, one published later kicks. -/
theorem triple_round_completes (hc : Placed L c) (hb : Beside c driver env host)
    (hh : Serves (deviceWorld L S env host) (Keeping c driver) handler)
    (hs : Negotiated c true s.queue) :
    (deviceWorld L S env host).Triple (Keeping c driver) (round L handler s)
      fun r x =>
        match r with
        | .inl t => Keeping c driver x ∧ Negotiated c true t.queue
        | .inr t => Rearmed c driver t.queue x := by
  have hu := usable_of hc.usable
  have hidx := hu.availIdxAddr
  have hstable : (deviceWorld L S env host).Stable (Keeping c driver) := hb.stable
  apply Triple.bind (Q := fun r x => (∃ header, r = some header) ∧ Keeping c driver x)
  · apply triple_load hstable (fun _ => .and World.stable_const hstable)
    intro x hx
    rw [hs.1, Guest.load, if_pos hu.availHeader]
    exact ⟨⟨_, rfl⟩, hx⟩
  · intro r
    apply of_and
    rintro ⟨header, rfl⟩
    apply Triple.bind (triple_drain_serves hc hstable (fun x gpa len hx => hx.mark)
      (fun x addr data hoff hx => hx.store hoff) hh hs)
    rintro ⟨stopped, t⟩
    apply of_and
    rintro ⟨rfl, ⟨hcfg, hevent⟩, -⟩
    dsimp only at hcfg hevent ⊢
    rw [hcfg, hu.usedIdxAddr.1, hidx.1]
    apply Triple.bind
    · apply triple_publish_keeps hstable (fun s gpa len h => h.mark)
      rintro a x ⟨⟩ hx _
      exact hx.store hc.usedIdx_off
    · intro _
      rw [hevent]
      have haddr : c.availEventAddr = some c.eventAt := if_pos hc.event_fits
      rw [haddr]
      -- From here on `avail_event` is what the device has consumed.
      have hstable' : (deviceWorld L S env host).Stable fun x =>
          Keeping c driver x ∧ word x.1.cells c.eventAt = t.queue.last_avail_idx := by
        intro x y hx he
        exact ⟨hstable hx.1 he, ((hb.env x y he).event hc.event_apart rfl).trans hx.2⟩
      apply Triple.bind (Q := fun _ x =>
        Keeping c driver x ∧ word x.1.cells c.eventAt = t.queue.last_avail_idx)
      · apply map
        apply triple_writeMem hstable (fun _ => hstable') (fun _ => hstable')
        · intro x hx _
          constructor
          · apply hx.store
            have := hc.event_apart
            unfold Off
            rw [u16Bytes_length]
            omega
          · rw [store_cells_of_range (by rw [u16Bytes_length]; exact hc.event), word_put_self]
        · exact fun x hx => ⟨hx.1.mark, hx.2⟩
        · exact fun x hx => hx
      · intro _
        have harmed : ∀ r : Option UInt16, (deviceWorld L S env host).Stable fun x =>
            (∃ idx, r = some idx ∧ (idx = t.queue.last_avail_idx →
              Driver.Armed c true t.queue.last_avail_idx (x.1, driver x.2))) ∧
              Keeping c driver x := by
          intro r x y hx he
          obtain ⟨⟨idx, hr, harm⟩, hk⟩ := hx
          exact ⟨⟨idx, hr, fun h => (hb.env x y he).armed hc.event_apart hk (harm h)⟩,
            hstable hk he⟩
        apply Triple.bind
        · apply triple_readU16 hstable' hidx.2 harmed
          intro x hx
          refine ⟨⟨_, rfl, fun h => .inr (.inr ?_)⟩, hx.1⟩
          exact ⟨_, hx.1.ordered, le_refl _, hx.1.idx.symm.trans h, fun _ => hx.2⟩
        · intro r
          apply assume (fun x hx => hx.1.imp fun idx h => h.1)
          intro hr
          obtain ⟨idx, rfl⟩ := hr
          dsimp only
          split
          · apply pure (harmed _)
            exact fun x hx => ⟨hx.2, hcfg, hevent⟩
          rename_i hidx'
          apply pure (harmed _)
          intro x hx
          obtain ⟨⟨_, ⟨⟩, harm⟩, hk⟩ := hx
          exact ⟨hk, ⟨hcfg, hevent⟩, harm (not_not.mp hidx')⟩

/-- A call that returns leaves the device armed. -/
theorem triple_process_completes (hc : Placed L c) (hb : Beside c driver env host)
    (hh : Serves (deviceWorld L S env host) (Keeping c driver) handler)
    (fuel : Nat) (q : VirtQueueProcessor) (d : δ) (hq : Negotiated c true q) :
    (deviceWorld L S env host).Triple (Keeping c driver)
      (processQueueDescriptorsDirty L fuel handler q d) fun r x =>
        ∀ t, r = some t → Rearmed c driver t.queue x := by
  unfold processQueueDescriptorsDirty
  rw [hq.1, if_pos hc.usable]
  apply conseq
    (triple_rounds (J := fun t x => Keeping c driver x ∧ Negotiated c true t.queue) ?_ ?_ fuel
      ⟨q, 0, d⟩)
    (fun x hx => ⟨hx, hq⟩) fun _ _ h => h
  · exact fun t => .and hb.stable World.stable_const
  · intro t
    apply assume (fun x hx => hx.2)
    intro ht
    exact (triple_round_completes hc hb hh ht).pre fun x hx => hx.1

end Call

/-! ## The system -/

section System

variable {H δ : Type} {A : H → Type}

/-- The device and the driver, whatever host calls answer, in runs whose stores leave the
available index alone. -/
def kickWorld (L : Layout) (c : QueueConfig) : World (Guest × Driver) (Op H) (Res A) :=
  deviceWorld L (Off c.idxAt 2) (DriverStep c true) fun _ x _ y => y = x

/-- A queue both sides have just set up, at any index. -/
structure Started (c : QueueConfig) (event_idx : Bool) (x : Guest × Driver)
    (q : VirtQueueProcessor) : Prop where
  queue : Negotiated c event_idx q
  idx : word x.1.cells c.idxAt = UInt16.ofNat x.2.published
  event : word x.1.cells c.eventAt = UInt16.ofNat x.2.published
  last : q.last_avail_idx = UInt16.ofNat x.2.published
  checked : x.2.checked = x.2.published

theorem Started.keeps_armed {c : QueueConfig} {event_idx : Bool} {q : VirtQueueProcessor}
    (h : Started c event_idx x q) :
    Driver.Keeps c x ∧ Driver.Armed c event_idx q.last_avail_idx x := by
  refine ⟨⟨h.idx, h.checked.le, ?_⟩, .inr (.inr ?_)⟩
  · rw [h.checked, Nat.sub_self]
    decide
  · exact ⟨_, h.checked.le, le_refl _, h.last.symm, fun _ => h.event.trans h.last.symm⟩

/-- The states in which the device waits for a kick. A call takes a kick, or several at once,
and runs the walker with the driver's steps anywhere between its own. -/
inductive Waits (L : Layout) (c : QueueConfig) (handler : Handler A δ) :
    Guest × Driver → VirtQueueProcessor → δ → Prop where
  | start {x : Guest × Driver} {q : VirtQueueProcessor} (d : δ) (h : Started c true x q) :
      Waits L c handler x q d
  | driver {x y : Guest × Driver} {q : VirtQueueProcessor} {d : δ}
      (h : Waits L c handler x q d) (hstep : DriverStep c true x y) : Waits L c handler y q d
  | call {g : Guest} {v : Driver} {q : VirtQueueProcessor} {d : δ} {t : Session δ}
      {y : Guest × Driver} (fuel rung : Nat) (h : Waits L c handler (g, v) q d)
        (hrung : rung < v.rung)
      (hrun : (kickWorld L c).Runs (processQueueDescriptorsDirty L fuel handler q d)
        (g, { v with rung := rung }) (some t) y) :
      Waits L c handler y t.queue t.captured

/-- No kick is pending, none is still to be decided on, and there are entries the waiting
device has not consumed. -/
def LostKick (c : QueueConfig) (x : Guest × Driver) (q : VirtQueueProcessor) : Prop :=
  x.2.rung = 0 ∧ x.2.ringing = 0 ∧ x.2.checked = x.2.published ∧
    word x.1.cells c.idxAt ≠ q.last_avail_idx

variable {L : Layout} {c : QueueConfig} {handler : Handler A δ}

/-- A waiting device is armed. -/
theorem Waits.rearmed (hc : Placed L c) (hh : Completes handler) {q : VirtQueueProcessor}
    {d : δ} (h : Waits L c handler x q d) : Rearmed c id q x := by
  induction h with
  | start d h => exact ⟨h.keeps_armed.1, h.queue, h.keeps_armed.2⟩
  | driver _ hstep ih =>
    exact ⟨hstep.keeps ih.1, ih.2.1, hstep.armed hc.event_apart ih.1 ih.2.2⟩
  | @call g v q d t y fuel rung _ hrung hrun ih =>
    have hbeside : Beside (A := A) c id (DriverStep c true) fun _ x _ y => y = x :=
      ⟨fun _ _ h => h, fun _ _ _ _ h => h⟩
    have hcall := triple_process_completes hc hbeside (fun d readable writable =>
      .gives (hh d readable writable) (triple_keeping hbeside _)) fuel q d ih.2.1
    have hkeeps : Keeping c id (g, { v with rung := rung }) := { ih.1 with }
    exact hcall hkeeps hrun t rfl

/-- A driver that kicks exactly when `vring_need_event` says so and a device that answers
each kick with one call of the walker never both wait with entries unconsumed. -/
theorem no_kick_lost (hc : Placed L c) (hh : Completes handler) {x : Guest × Driver}
    {q : VirtQueueProcessor} {d : δ} (h : Waits L c handler x q d) : ¬ LostKick c x q := by
  rintro ⟨hrung, hringing, hchecked, hne⟩
  obtain ⟨hkeeps, -, harmed⟩ := h.rearmed hc hh
  exact hne (harmed.idx_eq hkeeps hrung hringing hchecked)

end System

theorem placed_apartQueue : Placed onePage apartQueue.config :=
  ⟨by decide, by decide, by decide, .inl (by decide)⟩

/-- A handler that writes the first buffer it is given. -/
def writeFirst : Handler NoCalls Unit := fun _ _ writable =>
  match writable with
  | [] => pure (some 0, ())
  | buf :: _ => do
    let _ ← writeMem buf.1 [9]
    pure (some 1, ())

/-- A chain of one buffer at `0x400` that the device writes. -/
def oneBuffer : Guest := guestWith [(0x100, 0x400), (0x108, 16), (0x10c, DescFlags.WRITE)]

/-- The driver has published the chain, decided to kick and rung. -/
def kickedOnce : Guest × Driver :=
  ({ oneBuffer with cells := put oneBuffer.cells 0x202 (u16Bytes 1) }, ⟨1, 1, 0, 1⟩)

/-- The state after the device has answered. -/
def answeredKick : Option (Session Unit) × (Guest × Driver) :=
  (processQueueDescriptorsDirty onePage 1 writeFirst apartQueue ()).interp
    (answer onePage fun (call : Empty) _ => call.elim)
    (kickedOnce.1, { kickedOnce.2 with rung := 0 })

theorem kick_answered :
    answeredKick.1.map (fun t => t.queue.last_avail_idx) = some 1 ∧
      answeredKick.2.1.cells 0x400 = 9 ∧
      ∀ t, answeredKick.1 = some t → ¬ LostKick apartQueue.config answeredKick.2 t.queue := by
  refine ⟨by decide +kernel, by decide +kernel, fun t ht => ?_⟩
  have hcompletes : Completes writeFirst := by
    intro d readable writable
    cases writable with
    | nil => exact nofun
    | cons buf rest => exact Prog.gives_skip fun _ => nofun
  have hstart : Waits onePage apartQueue.config writeFirst (oneBuffer, ⟨0, 0, 0, 0⟩) apartQueue
      () :=
    .start () ⟨⟨rfl, rfl⟩, by decide, by decide, rfl, rfl⟩
  have hpublish := hstart.driver (.publish _ _ 1 (by decide) (by decide))
  have hdecide := hpublish.driver (.decide _ _)
  have hring := hdecide.driver (.ring _ _ (by decide +kernel))
  have hrun : (kickWorld onePage apartQueue.config).Runs _ _ answeredKick.1 answeredKick.2 :=
    runs_answer onePage (T := Storing (Off apartQueue.config.idxAt 2)) _ (fun _ _ h => h)
      (fun call => call.elim) _ (by decide +kernel)
  rw [ht] at hrun
  exact no_kick_lost placed_apartQueue hcompletes (.call 1 0 hring (by decide +kernel) hrun)

end Tarit.Virtio
