import Tarit.Virtio.Chains
import Tarit.Virtio.Mergeable

/-!
# A used index that passes used_event interrupts the guest

With EVENT_IDX the driver names in `used_event` the used entry it wants an interrupt for. A
transmit call looks at `used_event` whenever it completed a chain. A receive call looks only
when it delivered a frame, so a call that gives chains back unused can pass `used_event`
without an interrupt.
-/
namespace Tarit.Virtio.Net

open Lib Live Snapshot World Prog Triple

/-- The used index went from `old` to `new` past the `used_event` in memory. -/
def Passed (L : Layout) (g : Guest) (c : QueueConfig) (old new : UInt16) : Prop :=
  ∃ addr, c.usedEventAddr = some addr ∧ checkRange L addr 2 = true ∧
    vringNeedEvent (word g.cells addr) new old = true

theorem not_passed_self (L : Layout) (g : Guest) (c : QueueConfig) (v : UInt16) :
    ¬ Passed L g c v v := by
  rintro ⟨addr, -, -, h⟩
  simp [vringNeedEvent] at h

theorem word_congr {cells cells' : Nat → UInt8} {addr : Nat} (h0 : cells' addr = cells addr)
    (h1 : cells' (addr + 1) = cells (addr + 1)) : word cells' addr = word cells addr := by
  unfold word
  rw [peek_congr fun j hj => ?_]
  rcases Nat.lt_or_ge j 1 with hj | hj
  · rw [Nat.lt_one_iff.mp hj]
    exact h0
  · rw [show j = 1 by omega]
    exact h1

section Walker

attribute [local irreducible] Triple

variable {H δ τ : Type} {A : H → Type} {L : Layout} {S : Nat → Bytes → Prop}
  {env : Guest × τ → Guest × τ → Prop} {host : (call : H) → τ → A call → τ → Prop}

/-- How a session's used index stands to where it began: it has not moved while nothing was
completed, and while `D` does not hold of what the handler captured. -/
structure Moved (q : VirtQueueProcessor) (D : δ → Prop) (s : Session δ) : Prop where
  same : SameQueue q s.queue
  processed : s.processed = 0 → s.queue.last_used_idx = q.last_used_idx
  captured : ¬ D s.captured → s.queue.last_used_idx = q.last_used_idx

/-- The walker moves the used index only by completing chains. -/
theorem triple_process_moved (handler : Handler A δ) (D : δ → Prop)
    (hhandler : ∀ d (chain : DescriptorChain), chain.InRam L →
      (deviceWorld L S env host).Triple (fun _ => True) (handler d chain.readable chain.writable)
        fun r _ => (D d → D r.2) ∧ (r.1 ≠ none → D r.2))
    (fuel : Nat) (q : VirtQueueProcessor) (d : δ) :
    (deviceWorld L S env host).Triple (fun _ => True)
    (processQueueDescriptorsDirty L fuel handler q d)
      fun r _ => ∀ s, r = some s → Moved q D s := by
  have hkept : KeptBy (deviceWorld L S env host) L handler (Moved q D) := by
    constructor
    · exact fun s hs => { hs with }
    · intro s chain hram hs
      apply (hhandler s.captured chain hram).conseq (fun _ h => h)
      intro r _ hr
      exact ⟨⟨hs.same, hs.processed, fun hD => hs.captured fun hD' => hD (hr.1 hD')⟩,
        fun hne => ⟨hs.same, nofun, fun hD => absurd (hr.2 hne) hD⟩⟩
  exact hkept.process fuel ⟨⟨rfl, rfl⟩, fun _ => rfl, fun _ => rfl⟩

end Walker

/-! ## Calls -/

def OwnsUsedEvent (own : Nat → Prop) (c : QueueConfig) : Prop :=
  ∀ addr, c.usedEventAddr = some addr → own addr ∧ own (addr + 1)

/-- A frame the guest can take from the tap: longer than its header, which asks only for
offloads the guest accepted. -/
def Acceptable (dev : NetDevice) (frame : Bytes) : Prop :=
  VIRTIO_NET_HDR_LEN < frame.length ∧ dev.rxHeaderAllowed (frame.take VIRTIO_NET_HDR_LEN) = true

/-- What the host may answer: the tap fills no more than its room and, unless buffers are
mergeable, what it leaves there is acceptable. -/
def Answers (dev : NetDevice) : (call : Call) → Answer call → Prop
  | .read room, some frame =>
    frame.length ≤ room ∧ (dev.mergeable = true ∨ Acceptable dev frame)
  | _, _ => True

/-- A call on the device. The guest runs meanwhile and leaves the bytes of `own` alone. -/
abbrev netWorld (L : Layout) (own : Nat → Prop) (dev : NetDevice) :
    World (Guest × Unit) (Op Call) (Res Answer) :=
  deviceWorld L (fun _ _ => True) (fun x y => ∀ i, own i → y.1.cells i = x.1.cells i)
    fun call _ r _ => Answers dev call r

variable {L : Layout} {own : Nat → Prop} {dev : NetDevice} {q q' : VirtQueueProcessor}
  {moved : Bool}

section Notify

attribute [local irreducible] Triple

/-- The guest does not move `used_event` while a call runs. -/
theorem stable_passed {c : QueueConfig} (hown : OwnsUsedEvent own c) (old new : UInt16) (φ : Prop) :
    (netWorld L own dev).Stable fun x => Passed L x.1 c old new → φ := by
  intro x y hx he hpassed
  obtain ⟨addr, haddr, hrange, hneed⟩ := hpassed
  obtain ⟨h0, h1⟩ := hown addr haddr
  have hword : word y.1.cells addr = word x.1.cells addr := word_congr (he _ h0) (he _ h1)
  exact hx ⟨addr, haddr, hrange, hword ▸ hneed⟩

/-- When the used index moved, the device to leave is notified if `used_event` was passed. -/
theorem triple_notifyIf (hevent : q.event_idx = true) (hown : OwnsUsedEvent own q.config)
    (old : UInt16) (d notified : NetDevice) :
    (netWorld L own dev).Triple (fun _ => True) (notifyIf moved q old d notified) fun r x =>
      (r = d ∨ r = notified) ∧
        (moved = true → Passed L x.1 q.config old q.last_used_idx → r = notified) := by
  cases moved with
  | false => exact .ret fun _ => ⟨.inl rfl, nofun⟩
  | true =>
    unfold notifyIf needsNotification
    rw [if_pos rfl, hevent, if_neg (by simp)]
    cases haddr : q.config.usedEventAddr with
    | none => exact .ret fun _ => ⟨.inr rfl, fun _ _ => rfl⟩
    | some addr =>
      by_cases hrange : checkRange L addr 2 = true
      · have hstable : ∀ v, (netWorld L own dev).Stable fun x => v = word x.1.cells addr := by
          intro v x y hx he
          obtain ⟨h0, h1⟩ := hown addr haddr
          exact hx.trans (word_congr (he _ h0) (he _ h1)).symm
        apply bind
          (Q := fun b x => b = vringNeedEvent (word x.1.cells addr) q.last_used_idx old)
        · apply bind (Q := fun r x => ∃ v, r = some v ∧ v = word x.1.cells addr)
          · apply triple_readU16 stable_const hrange
            · exact fun r => .exists fun v => stable_const.and (hstable v)
            · exact fun x _ => ⟨_, rfl, rfl⟩
          · intro r
            apply of_exists
            intro v
            apply of_and
            intro hr
            rw [hr]
            apply Triple.pure (hstable v)
            intro x hx
            rw [hx]
        · intro b
          have hb : (netWorld L own dev).Stable fun x =>
              b = vringNeedEvent (word x.1.cells addr) q.last_used_idx old := by
            intro x y hx he
            rw [hx, hstable _ rfl he]
          split
          · exact .ret fun _ => ⟨.inr rfl, fun _ _ => rfl⟩
          rename_i hfalse
          apply Triple.pure hb
          intro x hx
          refine ⟨.inl rfl, fun _ hpassed => ?_⟩
          obtain ⟨addr', haddr', -, hneed⟩ := hpassed
          cases haddr.symm.trans haddr'
          exact absurd (hx.trans hneed) hfalse
      · -- Out of RAM there is no `used_event` to pass.
        have hno : ∀ g, ¬ Passed L g q.config old q.last_used_idx := by
          intro g hpassed
          obtain ⟨addr', haddr', hrange', -⟩ := hpassed
          cases haddr.symm.trans haddr'
          exact hrange hrange'
        apply skip
        intro b
        split
        · exact .ret fun _ => ⟨.inr rfl, fun _ _ => rfl⟩
        · exact .ret fun _ => ⟨.inl rfl, fun _ h => absurd h (hno _)⟩

/-- `triple_notifyIf` after a call that began with `q`. -/
theorem triple_notifyIf_moved (hsame : SameQueue q q') (hevent : q.event_idx = true)
    (hown : OwnsUsedEvent own q.config)
    (hmoved : moved = false → q'.last_used_idx = q.last_used_idx) (d notified : NetDevice) :
    (netWorld L own dev).Triple (fun _ => True) (notifyIf moved q' q.last_used_idx d notified)
      fun r x => (r = d ∨ r = notified) ∧
        (Passed L x.1 q.config q.last_used_idx q'.last_used_idx → r = notified) := by
  have hown' : OwnsUsedEvent own q'.config := by rwa [hsame.1]
  apply (triple_notifyIf (hsame.2.trans hevent) hown' _ d notified).conseq (fun _ h => h)
  intro r x hr
  obtain ⟨hcases, hraise⟩ := hr
  refine ⟨hcases, fun hpassed => ?_⟩
  cases moved with
  | false =>
    rw [hmoved rfl] at hpassed
    exact absurd hpassed (not_passed_self _ _ _ _)
  | true =>
    rw [hsame.1] at hraise
    exact hraise rfl hpassed

end Notify

/-- A chain the tap can write and the guest leaves alone. -/
def TapFills (L : Layout) (own : Nat → Prop) (bufs : List Buf) : Prop :=
  bufs.all (fun b => getSlice L b.1 b.2) = true ∧ Disjointed bufs ∧ Covers own bufs

inductive QueueCall where
  | tx
  | inject (header : Option Bytes) (packet : Bytes) (notify : Bool)
  | injectVnet (frame : Bytes)
  | tap (max_frames : Nat)

def usedIdx (processor : Option VirtQueueProcessor) : UInt16 :=
  (processor.map VirtQueueProcessor.last_used_idx).getD 0

namespace QueueCall

def run (L : Layout) (fuel : Nat) (dev : NetDevice) : QueueCall → Device Answer (Option NetDevice)
  | .tx => do return (← processTxQueue L fuel dev).map Prod.snd
  | .inject header packet notify => do
    return (← injectRx L fuel dev header packet notify).map Prod.snd
  | .injectVnet frame => do return (← injectRxVnetFrame L fuel dev frame).map Prod.snd
  | .tap max_frames => do return (← rxFromVnetTap L fuel dev max_frames).map Prod.snd

def queue (dev : NetDevice) : QueueCall → QueueConfig
  | .tx => dev.tx_queue
  | _ => dev.rx_queue

def processor (dev : NetDevice) : QueueCall → Option VirtQueueProcessor
  | .tx => dev.tx_processor
  | _ => dev.rx_processor

/-- The call interrupted the guest or, on the receive side, left the interrupt to `signal_rx`. -/
def Raised (dev dev' : NetDevice) : QueueCall → Prop
  | .tx => dev.irq_evt < dev'.irq_evt
  | _ => dev.irq_evt < dev'.irq_evt ∨ dev'.rx_irq_pending = true

/-- A chain the call can use: one that holds the frame it copies, or that the tap can fill. -/
def Fills (L : Layout) (own : Nat → Prop) (bufs : List Buf) : QueueCall → Prop
  | .tx => True
  | .inject _ packet _ => packet.length + VIRTIO_NET_HDR_LEN ≤ bufsLen bufs
  | .injectVnet frame => frame.length ≤ bufsLen bufs
  | .tap _ => TapFills L own bufs

end QueueCall

section Calls

attribute [local irreducible] Triple

@[simp] theorem attach_last_used_idx (p : Option VirtQueueProcessor) (c : QueueConfig) (e : Bool) :
    (attach p c e).last_used_idx = usedIdx p := by
  cases p <;> rfl

variable {α : Type} {good : List Buf → Prop} {φ : Prop} {fuel max_frames : Nat} {frame : Bytes}
  {notify : Bool}

/-- A call's end: the device it leaves is notified if `used_event` was passed. -/
theorem triple_leave (hsame : SameQueue q q') (hevent : q.event_idx = true)
    (hown : OwnsUsedEvent own q.config)
    (hmoved : moved = false → q'.last_used_idx = q.last_used_idx) (a : α) (d notified : NetDevice) :
    (netWorld L own dev).Triple (fun _ => True)
      (do
        let dev ← notifyIf moved q' q.last_used_idx d notified
        return some (a, dev))
      fun r x => ∀ b, r = some b → (b.2 = d ∨ b.2 = notified) ∧
        (Passed L x.1 q.config q.last_used_idx q'.last_used_idx → b.2 = notified) := by
  apply bind (triple_notifyIf_moved hsame hevent hown hmoved d notified)
  intro r
  apply Triple.pure (stable_const.and (stable_passed hown _ _ _))
  intro x hx b hb
  cases hb
  exact hx

theorem triple_tx (hevent : dev.eventIdx = true) (hown : OwnsUsedEvent own dev.tx_queue)
    (fuel : Nat) :
    (netWorld L own dev).Triple (fun _ => True) (processTxQueue L fuel dev) fun r x =>
      ∀ a, r = some a → Passed L x.1 dev.tx_queue (usedIdx dev.tx_processor)
        (usedIdx a.2.tx_processor) → dev.irq_evt < a.2.irq_evt := by
  have hsame : ∀ (r : Except MmioError Nat) (x : Guest × Unit) (a :
    Except MmioError Nat × NetDevice),
      some (r, dev) = some a → Passed L x.1 dev.tx_queue (usedIdx dev.tx_processor)
        (usedIdx a.2.tx_processor) → dev.irq_evt < a.2.irq_evt := by
    intro r x a ha hpassed
    cases ha
    exact absurd hpassed (not_passed_self _ _ _ _)
  unfold processTxQueue
  split
  · exact .ret (hsame _)
  split
  · exact .ret (hsame _)
  rename_i cfg hcfg
  obtain rfl := queueConfig_eq_some hcfg
  have hhandler : ∀ d (chain : DescriptorChain), chain.InRam L →
      (netWorld L own dev).Triple (fun _ => True) (txHandler dev d chain.readable chain.writable)
        fun r _ => (True → True) ∧ (r.1 ≠ none → True) := by
    intro d chain _
    exact .of_gives ((gives_all _).imp fun _ _ => ⟨id, fun _ => trivial⟩)
  apply known (triple_process_moved (txHandler dev) (fun _ => True) hhandler fuel _ _)
  intro r ht
  cases r with
  | none => exact .ret fun _ _ ha => by cases ha
  | some t =>
    have ht := ht t rfl
    have hmoved : decide (0 < t.processed) = false →
        t.queue.last_used_idx =
          (attach dev.tx_processor dev.tx_queue dev.eventIdx).last_used_idx := by
      intro h
      exact ht.processed (by simpa using h)
    apply (triple_leave ht.same (by simpa using hevent) (by simpa using hown) hmoved _ _ _).conseq
      (fun _ h => h)
    intro r x hr a ha hpassed
    obtain ⟨hcases, hraise⟩ := hr a ha
    have hidx : usedIdx a.2.tx_processor = t.queue.last_used_idx := by
      rcases hcases with h | h <;> rw [h] <;> rfl
    rw [hidx] at hpassed
    rw [hraise (by simpa using hpassed)]
    exact Nat.lt_succ_self _

/-! ## Mergeable buffers

The used index moves only with the frames counted, whatever memory and the tap answer. -/

theorem makeRoom_unmoved (need fuel : Nat) (q : VirtQueueProcessor) :
    (makeRoom L need fuel q).Gives fun r => ∀ b q', r = some (b, q') → Unmoved q q' := by
  induction fuel generalizing q with
  | zero => exact nofun
  | succ fuel ih =>
    apply gives_bind (peekWritable_unmoved q need)
    intro q' hq'
    split
    · intro b q'' h
      cases h
      exact hq'
    apply gives_skip
    intro again
    cases again with
    | true => exact (ih q').imp fun _ h b q'' hr => hq'.trans (h b q'' hr)
    | false =>
      intro b q'' h
      cases h
      exact hq'

theorem usePeeked_same (lens : List Nat) (q : VirtQueueProcessor) :
    (usePeeked q lens : Device Answer _).Gives (SameQueue q) := by
  induction lens generalizing q with
  | nil => exact ⟨rfl, rfl⟩
  | cons len lens ih =>
    unfold usePeeked
    split
    · exact ⟨rfl, rfl⟩
    split
    · exact (ih _).imp fun _ h => h
    · exact gives_skip fun _ => (ih _).imp fun _ h => h

theorem injectRxMergeable_moved (header packet : Bytes) :
    (injectRxMergeable L fuel dev q header packet).Gives fun r => ∀ a q', r = some (a, q') →
      SameQueue q q' ∧ (a ≠ .ok true → q'.last_used_idx = q.last_used_idx) := by
  have hkeep : ∀ {a : Except MmioError Bool} {p : VirtQueueProcessor}, Unmoved q p →
      ∀ b q', some (a, p) = some (b, q') →
        SameQueue q q' ∧ (b ≠ .ok true → q'.last_used_idx = q.last_used_idx) := by
    intro a p hp b q' h
    cases h
    exact ⟨hp.1, fun _ => hp.2⟩
  apply gives_bind (makeRoom_unmoved _ _ q)
  intro r hr
  match r with
  | none => exact nofun
  | some (false, q1) => exact hkeep (hr _ _ rfl)
  | some (true, q1) =>
    have h1 : Unmoved q q1 := hr _ _ rfl
    apply gives_skip
    intro allowed
    cases allowed with
    | false => exact hkeep h1
    | true =>
      apply gives_bind (peekWritable_unmoved q1 _)
      intro q2 h2
      apply gives_bind (peekWritable_unmoved q2 _)
      intro q3 h3
      have hq3 : Unmoved q q3 := (h1.trans h2).trans h3
      apply gives_skip
      intro copied
      cases copied with
      | false => exact hkeep hq3
      | true =>
        apply gives_bind (usePeeked_same _ q3)
        intro q4 h4
        apply gives_skip
        intro _ b q' h
        cases h
        exact ⟨hq3.1.trans h4, fun hne => absurd rfl hne⟩

/-- A batch counts the frames it used chains for. -/
def Counted (b b' : TapBatch) : Prop :=
  SameQueue b.queue b'.queue ∧ b.delivered ≤ b'.delivered ∧
    (b'.delivered = b.delivered → b'.queue.last_used_idx = b.queue.last_used_idx)

theorem Counted.trans {b b' b'' : TapBatch} (h : Counted b b') (h' : Counted b' b'') :
    Counted b b'' := by
  obtain ⟨hs, hle, hidx⟩ := h
  obtain ⟨hs', hle', hidx'⟩ := h'
  refine ⟨hs.trans hs', le_trans hle hle', fun heq => ?_⟩
  exact (hidx' (by omega)).trans (hidx (by omega))

theorem tapDeliver_counted (chains : List PeekedChain) (b : TapBatch) :
    (tapDeliver dev chains frame b).Gives (Counted b) := by
  apply tapDeliver_uses_or_not
  · exact ⟨⟨rfl, rfl⟩, le_refl _, fun _ => rfl⟩
  · intro lens
    exact (usePeeked_same lens b.queue).imp fun _ hq' =>
      ⟨hq', Nat.le_succ _, fun h => absurd h (Nat.succ_ne_self _)⟩

theorem tapFrame_counted (b : TapBatch) : (tapFrame L dev b).Gives fun r => Counted b r.2 := by
  apply gives_bind (peekWritable_unmoved _ _)
  intro q' hq'
  have hpeeked : ∀ tap_empty failed, Counted b ⟨q', b.delivered, tap_empty, failed⟩ :=
    fun _ _ => ⟨hq'.1, le_refl _, fun _ => hq'.2⟩
  dsimp only
  split
  · exact hpeeked _ _
  split
  · exact hpeeked _ _
  apply gives_skip
  intro frame
  cases frame with
  | none => exact hpeeked _ _
  | some frame =>
    apply gives_skip
    intro _
    apply gives_bind (tapDeliver_counted _ _)
    intro b' hb'
    exact (hpeeked _ _).trans hb'

theorem rxMergeableFromTap_counted (max_frames fuel : Nat) (b : TapBatch) :
    (rxMergeableFromTap L dev max_frames fuel b).Gives fun r =>
    ∀ b', r = some b' → Counted b b' := by
  induction fuel generalizing b with
  | zero => exact nofun
  | succ fuel ih =>
    have hround : (tapRound L dev max_frames b).Gives fun r => Counted b r.2 := by
      unfold tapRound
      split
      · exact tapFrame_counted b
      · exact ⟨⟨rfl, rfl⟩, le_refl _, fun _ => rfl⟩
    apply gives_bind hround
    intro r hr
    obtain ⟨stop, b'⟩ := r
    cases stop with
    | none => exact (ih b').imp fun _ h b'' hb'' => hr.trans (h b'' hb'')
    | some waiting =>
      apply gives_skip
      intro again
      split
      · intro b'' h
        cases h
        exact hr
      · exact (ih b').imp fun _ h b'' hb'' => hr.trans (h b'' hb'')

/-! ## One chain for a frame -/

/-- A frame was delivered, or a chain was offered that is not `good`. -/
def Excused (good : List Buf → Prop) (delivered : Prop) (offered : List (List Buf)) : Prop :=
  delivered ∨ ∃ bufs ∈ offered, ¬ good bufs

theorem Excused.offer {ψ : Prop} {offered : List (List Buf)} (h : Excused good φ offered)
    (hφ : φ → ψ) (bufs : List Buf) : Excused good ψ (offered ++ [bufs]) :=
  h.imp hφ fun ⟨bad, hbad, hgood⟩ => ⟨bad, List.mem_append_left _ hbad, hgood⟩

theorem excused_of_not {bufs : List Buf} (h : ¬ good bufs) (offered : List (List Buf)) :
    Excused good φ (offered ++ [bufs]) :=
  .inr ⟨bufs, List.mem_append_right _ (List.mem_singleton.mpr rfl), h⟩

/-- A call that gave a chain back delivered a frame, or was offered a chain too small for it. -/
theorem triple_rxHandler (header : Option Bytes) (packet : Bytes) (c : RxCaptured)
    (chain : DescriptorChain) (hram : chain.InRam L) :
    (netWorld L own dev).Triple (fun _ => True)
      (rxHandler dev header packet c chain.readable chain.writable) fun r _ =>
        let D : RxCaptured → Prop := fun c =>
          Excused (packet.length + VIRTIO_NET_HDR_LEN ≤ bufsLen ·) (c.delivered = true) c.offered
        (D c → D r.2) ∧ (r.1 ≠ none → D r.2) := by
  unfold rxHandler
  split
  · exact .ret fun _ => ⟨id, fun h => absurd rfl h⟩
  split
  · next hsmall =>
    exact .ret fun _ => ⟨fun h => h.offer id _, fun _ => excused_of_not (Nat.not_le_of_lt hsmall) _⟩
  apply skip
  intro allowed
  cases allowed with
  | false => exact .ret fun _ => ⟨fun h => h.offer id _, fun h => absurd rfl h⟩
  | true =>
    rw [if_pos rfl]
    apply bind (triple_copyChain stable_const _ fun b hb a data hlo hhi =>
      triple_writeMem_ram (hram.2 b hb) hlo hhi)
    intro copied
    apply of_and
    intro hcopied
    rw [hcopied, if_pos rfl]
    exact .ret fun _ => ⟨fun h => h.offer (fun _ => rfl) _, fun _ => .inl rfl⟩

theorem tapHandler_offers (c : TapCaptured) (readable writable : List Buf) :
    (tapHandler L dev max_frames c readable writable).Gives fun r =>
      r = (none, c) ∨ r.2.offered = c.offered ++ [writable] := by
  unfold tapHandler
  split
  · exact .inl rfl
  split
  · exact .inr rfl
  apply gives_skip
  intro frame
  cases frame with
  | none => exact .inr rfl
  | some frame =>
    apply gives_skip
    intro _
    split
    · exact .inr rfl
    apply gives_skip
    intro _
    apply gives_skip
    intro header
    cases header with
    | none => exact .inr rfl
    | some header =>
      dsimp only
      split
      · exact .inr rfl
      apply gives_skip
      intro written
      cases written with
      | false | true => exact .inr rfl

theorem triple_tapHandler (hmerge : dev.mergeable = false) (max_frames : Nat) (c : TapCaptured)
    (chain : DescriptorChain) (hram : chain.InRam L) :
    (netWorld L own dev).Triple (fun _ => True)
      (tapHandler L dev max_frames c chain.readable chain.writable) fun r _ =>
        let D : TapCaptured → Prop := fun c => Excused (TapFills L own) (0 < c.delivered) c.offered
        (D c → D r.2) ∧ (r.1 ≠ none → D r.2) := by
  by_cases hfill : TapFills L own chain.writable
  · unfold tapHandler
    split
    · exact .ret fun _ => ⟨id, fun h => absurd rfl h⟩
    obtain ⟨hslices, hdis, hcovers⟩ := hfill
    rw [if_neg (not_not.mpr hslices)]
    apply known
    · apply triple_call stable_const (fun _ => stable_const)
      exact fun _ _ _ _ _ h => h
    · intro r hanswer
      cases r with
      | none => exact .ret fun _ => ⟨fun h => h.offer id _, fun h => absurd rfl h⟩
      | some frame =>
        obtain ⟨hroom, haccept⟩ := hanswer
        obtain ⟨hlong, hallowed⟩ : Acceptable dev frame := by
          rcases haccept with h | h
          · rw [hmerge] at h
            cases h
          · exact h
        have hleaves : Leaves own fun (x y : Guest × Unit) =>
            ∀ i, own i → y.1.cells i = x.1.cells i :=
          fun _ _ h => h
        have hlaid : (netWorld L own dev).Stable fun x => Laid chain.writable frame x.1.cells :=
          hleaves.stable_laid hcovers
        apply bind (triple_scatter stable_const hleaves hcovers hram.2
          hdis fun _ _ _ _ => trivial)
        intro _
        rw [if_neg (Nat.not_le_of_lt hlong)]
        apply bind (triple_markFilled (stable_const.and hlaid) (fun _ _ _ h => h) _ _)
        intro _
        apply bind (triple_readChain stable_const hleaves hcovers hram.2 (by decide)
          (le_of_lt hlong) hroom)
        intro header
        apply of_and
        intro hheader
        rw [hheader]
        dsimp only
        rw [if_neg (not_not.mpr hallowed)]
        have hfits : VIRTIO_NET_HDR_NUM_BUFFERS_OFF + (u16Bytes 1).length ≤
            bufsLen chain.writable := by
          rw [u16Bytes_length]
          unfold VIRTIO_NET_HDR_LEN at hlong
          unfold VIRTIO_NET_HDR_NUM_BUFFERS_OFF
          omega
        apply bind (triple_writeChain stable_const hram.2 (by decide) hfits
          fun _ _ _ _ _ => trivial)
        intro written
        apply of_and
        intro hwritten
        rw [hwritten, if_pos rfl]
        exact .ret fun _ =>
          ⟨fun h => h.offer (fun _ => Nat.succ_pos _) _, fun _ => .inl (Nat.succ_pos _)⟩
  · -- The chain itself breaks the condition, whatever the handler does with it.
    apply (of_gives (tapHandler_offers c _ _)).conseq (fun _ h => h)
    intro r _ hr
    rcases hr with rfl | hoffered
    · exact ⟨id, fun h => absurd rfl h⟩
    dsimp only
    rw [hoffered]
    exact ⟨fun _ => excused_of_not hfill _, fun _ => excused_of_not hfill _⟩

/-! ## Receive calls -/

/-- A receive call raises if it passed `used_event`. -/
def RxRaised (L : Layout) (dev dev' : NetDevice) (x : Guest × Unit) : Prop :=
  Passed L x.1 dev.rx_queue (usedIdx dev.rx_processor) (usedIdx dev'.rx_processor) →
    dev.irq_evt < dev'.irq_evt ∨ dev'.rx_irq_pending = true

/-- A call's answer: the device raises if every chain it was offered is `good`. -/
def Raises {α : Type} (L : Layout) (dev : NetDevice) (good : List Buf → Prop)
    (r : Option (α × NetDevice)) (x : Guest × Unit) : Prop :=
  ∀ a, r = some a → (∀ bufs ∈ a.2.offered, good bufs) → RxRaised L dev a.2 x

theorem raises_none (x : Guest × Unit) : Raises (α := α) L dev good none x := by
  intro a ha
  cases ha

theorem raises_unmoved {e : α} {d : NetDevice}
    (h : usedIdx d.rx_processor = usedIdx dev.rx_processor) (x : Guest × Unit) :
    Raises L dev good (some (e, d)) x := by
  rintro _ ⟨⟩ _ hpassed
  rw [h] at hpassed
  exact absurd hpassed (not_passed_self _ _ _ _)

section Leave

variable (hevent : dev.eventIdx = true) (hown : OwnsUsedEvent own dev.rx_queue)

include hevent hown

/-- The end of a receive call whose walker began as `q` and is now `q'`. If the chains offered are
good, the used index did not move unless `moved` says so. -/
theorem triple_leaveRx
    (hsame : SameQueue (attach dev.rx_processor dev.rx_queue dev.eventIdx) q') (a : α)
    (d : NetDevice) (hmoved : (∀ bufs ∈ d.offered, good bufs) → moved = false →
      q'.last_used_idx = (attach dev.rx_processor dev.rx_queue dev.eventIdx).last_used_idx)
    (hd : d.irq_evt = dev.irq_evt) (hidx : d.rx_processor = some q') (notify : Bool) :
    (netWorld L own dev).Triple (fun _ => True)
      (do
        let dev ← notifyIf moved q'
          (attach dev.rx_processor dev.rx_queue dev.eventIdx).last_used_idx d
          (d.notifyRx notify)
        return some (a, dev))
      (Raises L dev good) := by
  have hkeep : ∀ {b : NetDevice}, b = d ∨ b = d.notifyRx notify →
      b.offered = d.offered ∧ b.rx_processor = some q' := by
    rintro _ (rfl | rfl)
    · exact ⟨rfl, hidx⟩
    · cases notify <;> exact ⟨rfl, hidx⟩
  by_cases hgood : ∀ bufs ∈ d.offered, good bufs
  · apply (triple_leave hsame (by simpa using hevent) (by simpa using hown)
      (hmoved hgood) a d _).conseq
      (fun _ h => h)
    intro r x hr b hb _ hpassed
    obtain ⟨hcases, hraise⟩ := hr b hb
    have hq' : usedIdx b.2.rx_processor = q'.last_used_idx := by
      rw [(hkeep hcases).2]
      rfl
    rw [hq'] at hpassed
    rw [hraise (by simpa using hpassed)]
    rw [← hd]
    cases notify with
    | true => exact .inl (Nat.lt_succ_self _)
    | false => exact .inr rfl
  · apply known (of_gives (notifyIf_gives _ _ _ d _))
    intro r hr
    apply ret
    rintro x _ ⟨⟩ hall
    rw [(hkeep hr).1] at hall
    exact absurd hall hgood

/-- The end of a receive call that walked chains. -/
theorem triple_leaveWalk {δ : Type} {t : Session δ} {offered : List (List Buf)} {D : δ → Prop}
    (ht : Moved (attach dev.rx_processor dev.rx_queue dev.eventIdx) D t)
    (hD : D t.captured → Excused good φ offered) (hmoved : moved = false → ¬ φ) (a : α)
    (notify : Bool) :
    (netWorld L own dev).Triple (fun _ => True)
      (do
        let dev ← notifyIf moved t.queue
          (attach dev.rx_processor dev.rx_queue dev.eventIdx).last_used_idx
          { dev with rx_processor := some t.queue, offered }
          (NetDevice.notifyRx { dev with rx_processor := some t.queue, offered } notify)
        return some (a, dev))
      (Raises L dev good) := by
  apply triple_leaveRx hevent hown ht.same a
    { dev with rx_processor := some t.queue, offered } _ rfl
    rfl notify
  intro hgood hfalse
  apply ht.captured
  intro h
  rcases hD h with h | ⟨bufs, hbufs, hbad⟩
  · exact hmoved hfalse h
  · exact hbad (hgood bufs hbufs)

theorem triple_injectRx (header : Option Bytes) (packet : Bytes) :
    (netWorld L own dev).Triple (fun _ => True) (injectRx L fuel dev header packet notify)
      (Raises L dev (packet.length + VIRTIO_NET_HDR_LEN ≤ bufsLen ·)) := by
  unfold injectRx
  split
  · exact .ret (raises_unmoved rfl)
  dsimp only
  generalize (if header.isSome = true then MAX_GSO_FRAME_BYTES else MAX_FRAME_BYTES) = max_frame
  split
  · exact .ret (raises_unmoved rfl)
  split
  · exact .ret (raises_unmoved rfl)
  rename_i cfg hcfg
  obtain rfl := queueConfig_eq_some hcfg
  split
  · apply known (of_gives (injectRxMergeable_moved _ packet))
    intro r hr
    match r with
    | none => exact .ret raises_none
    | some (.error e, q') =>
      have hidx := (hr _ _ rfl).2 nofun
      rw [attach_last_used_idx] at hidx
      exact .ret (raises_unmoved hidx)
    | some (.ok delivered, q') =>
      obtain ⟨hq', hidx⟩ := hr _ _ rfl
      apply triple_leaveRx hevent hown hq' _
        { dev with rx_processor := some q', offered := [] } _ rfl
        rfl notify
      intro _ h
      exact hidx (by rw [h]; exact nofun)
  · apply known (triple_process_moved (rxHandler dev header packet) _
      (triple_rxHandler header packet) fuel _ _)
    intro r ht
    cases r with
    | none => exact .ret raises_none
    | some t => exact triple_leaveWalk hevent hown (ht t rfl) id (fun h => by simp [h]) _ notify

theorem triple_rxFromVnetTap :
    (netWorld L own dev).Triple (fun _ => True) (rxFromVnetTap L fuel dev max_frames)
      (Raises L dev (TapFills L own)) := by
  unfold rxFromVnetTap
  split
  · exact .ret (raises_unmoved rfl)
  split
  · exact .ret (raises_unmoved rfl)
  split
  · exact .ret (raises_unmoved rfl)
  rename_i cfg hcfg
  obtain rfl := queueConfig_eq_some hcfg
  split
  · apply known (of_gives (rxMergeableFromTap_counted max_frames fuel _))
    intro r hr
    cases r with
    | none => exact .ret raises_none
    | some b =>
      obtain ⟨hq', -, hidx⟩ := hr b rfl
      apply triple_leaveRx hevent hown hq' _
        { dev with rx_processor := some b.queue, failed := b.failed, offered := [] } _ rfl rfl false
      intro _ h
      exact hidx (by simpa using h)
  · next hmerge =>
    apply known (triple_process_moved (tapHandler L dev max_frames) _
      (triple_tapHandler (by simpa using hmerge) max_frames) fuel _ _)
    intro r ht
    cases r with
    | none => exact .ret raises_none
    | some t => exact triple_leaveWalk hevent hown (ht t rfl) id (fun h => by simpa using h) _ false

theorem triple_injectRxVnetFrame :
    (netWorld L own dev).Triple (fun _ => True) (injectRxVnetFrame L fuel dev frame)
      (Raises L dev (frame.length ≤ bufsLen ·)) := by
  unfold injectRxVnetFrame
  split
  · exact .ret (raises_unmoved rfl)
  rename_i hlong
  dsimp only
  split
  · exact .ret (raises_unmoved rfl)
  apply (triple_injectRx hevent hown _ _).conseq (fun _ h => h)
  intro r x hr a ha hall
  apply hr a ha
  intro bufs hbufs
  have := hall bufs hbufs
  rw [List.length_drop]
  omega

end Leave

/-- What holds of the device in a call's answer holds of the device `run` gives. -/
theorem triple_run {p : Device Answer (Option (α × NetDevice))}
    {Q : NetDevice → Guest × Unit → Prop} (hQ : ∀ d, (netWorld L own dev).Stable (Q d))
    (h : (netWorld L own dev).Triple (fun _ => True) p fun r x => ∀ a, r = some a → Q a.2 x) :
    (netWorld L own dev).Triple (fun _ => True) (do return (← p).map Prod.snd) fun r x =>
      ∀ d, r = some d → Q d x := by
  apply bind h
  intro r
  apply Triple.pure
  · intro x y hx he a ha
    exact hQ _ (hx a ha) he
  · intro x hx d hd
    obtain ⟨a, ha, rfl⟩ := Option.map_eq_some_iff.mp hd
    exact hx a ha

theorem triple_rx {p : Device Answer (Option (α × NetDevice))}
    (hown : OwnsUsedEvent own dev.rx_queue)
    (h : (netWorld L own dev).Triple (fun _ => True) p (Raises L dev good)) :
    (netWorld L own dev).Triple (fun _ => True) (do return (← p).map Prod.snd) fun r x =>
      ∀ d, r = some d → (∀ bufs ∈ d.offered, good bufs) → RxRaised L dev d x :=
  triple_run (Q := fun d x => (∀ bufs ∈ d.offered, good bufs) → RxRaised L dev d x)
    (fun _ _ _ hx he hall => stable_passed hown _ _ _ (hx hall) he) h

end Calls

/-- A call that moves the used index of its queue past `used_event` interrupts the guest or, on
the receive side, leaves the interrupt pending. From any device and any memory, while the guest
runs on and leaves `used_event` alone:

A transmit call and a receive call with mergeable buffers do so always. A receive call into single
chains does so when every chain it tries can take the frame and when every frame it reads from
the tap is acceptable. -/
theorem passed_used_event_interrupts (L : Layout) (own : Nat → Prop) (dev dev' : NetDevice)
    (k : QueueCall) (fuel : Nat) {s t : Guest × Unit} (hevent : dev.eventIdx = true)
    (hown : OwnsUsedEvent own (k.queue dev))
    (hrun : (netWorld L own dev).Runs (k.run L fuel dev) s (some dev') t)
    (hfills : ∀ bufs ∈ dev'.offered, k.Fills L own bufs)
    (hpassed : Passed L t.1 (k.queue dev) (usedIdx (k.processor dev))
      (usedIdx (k.processor dev'))) :
    k.Raised dev dev' := by
  cases k with
  | tx =>
    have h := triple_run (Q := fun d x => Passed L x.1 dev.tx_queue (usedIdx dev.tx_processor)
      (usedIdx d.tx_processor) → dev.irq_evt < d.irq_evt)
      (fun d => stable_passed hown _ _ _) (triple_tx hevent hown fuel)
    exact h trivial hrun dev' rfl hpassed
  | inject header packet notify =>
    exact triple_rx hown (triple_injectRx hevent hown header packet) trivial hrun dev' rfl
      hfills hpassed
  | injectVnet frame =>
    exact triple_rx hown (triple_injectRxVnetFrame hevent hown) trivial hrun dev' rfl hfills hpassed
  | tap max_frames =>
    exact triple_rx hown (triple_rxFromVnetTap hevent hown) trivial hrun dev' rfl hfills hpassed

/-! ## A chain given back unused -/

/-- A guest that accepted EVENT_IDX and no mergeable buffers. -/
def plainDevice : NetDevice :=
  .negotiated Features.RING_EVENT_IDX false apartQueue.config ⟨0, 0, 0, 0, false⟩

/-- One receive buffer of `len` bytes at 0x400 is available, and `used_event` is zero. -/
def oneBuffer (len : UInt16) : Guest × Unit :=
  (guestWith [(0x100, 0x400), (0x108, len), (0x10c, DescFlags.WRITE), (0x202, 1)], ())

/-- A call with a frame of 100 bytes. -/
def injectHundred (len : UInt16) : Option NetDevice × (Guest × Unit) :=
  ((QueueCall.inject none (List.replicate 100 0) false).run onePage 1 plainDevice).interp
    (answer onePage emptyTap) (oneBuffer len)

/-- The buffer of 20 bytes goes back to the guest with length 0: the used index passes
`used_event`, no interrupt is raised and none is pending. -/
theorem small_buffer_passes_silently :
    (injectHundred 20).1.map (fun d => (usedIdx d.rx_processor, d.irq_evt, d.rx_irq_pending)) =
      some (1, 0, false) ∧
    Passed onePage (injectHundred 20).2.1 plainDevice.rx_queue
      (usedIdx plainDevice.rx_processor) 1 := by
  constructor
  · decide +kernel
  · exact ⟨0x208, by decide, by decide, by decide +kernel⟩

/-- Into a buffer of 200 bytes the frame is delivered, and the interrupt is pending. -/
theorem large_buffer_interrupts :
    ∃ dev', (injectHundred 200).1 = some dev' ∧
      (plainDevice.irq_evt < dev'.irq_evt ∨ dev'.rx_irq_pending = true) := by
  have hsome : (injectHundred 200).1.map
      (fun d => (usedIdx d.rx_processor, d.offered)) = some (1, [[(0x400, 200)]]) := by
      decide +kernel
  obtain ⟨dev', hdev', hfields⟩ := Option.map_eq_some_iff.mp hsome
  simp only [Prod.mk.injEq] at hfields
  obtain ⟨hidx, hoffered⟩ := hfields
  refine ⟨dev', hdev', ?_⟩
  have hrun : (netWorld onePage (fun _ => True) plainDevice).Runs _ _ (injectHundred 200).1 _ :=
    runs_answer onePage emptyTap (fun _ _ _ => trivial)
      (fun call _ _ => by cases call <;> trivial) _ (meets_of_uses (uses_all _) _)
  rw [hdev'] at hrun
  apply passed_used_event_interrupts onePage (fun _ => True) plainDevice dev' _ 1 (by decide)
    (fun _ _ => ⟨trivial, trivial⟩) hrun
  · rw [hoffered]
    intro bufs hbufs
    rw [List.mem_singleton.mp hbufs]
    change 100 + VIRTIO_NET_HDR_LEN ≤ 200
    decide
  · change Passed onePage _ _ _ (usedIdx dev'.rx_processor)
    rw [hidx]
    exact ⟨0x208, by decide, by decide, by decide +kernel⟩

end Tarit.Virtio.Net
