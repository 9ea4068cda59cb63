import Tarit.Virtio.Rounds
import Tarit.Virtio.Mergeable
import Tarit.Virtio.Chains
import Tarit.Virtio.NetWorker

/-!
# The frame in the worker's slot

`inject_rx` answers `false` both when the guest has no buffer yet and when the frame is one the
guest can never be handed, and `drain_tap` keeps the frame in either case. A frame the checks
accept leaves the slot with the first call that finds enough buffers; any other stays there for
good, and every later frame behind it.
-/
namespace Tarit.Virtio.Net

open Lib Live Snapshot Prog List

variable {τ : Type} {L : Layout} {host : (call : Call) → τ → Answer call × τ} {s : Guest × τ}
  {dev : NetDevice} {frame : Bytes} {fuel : Nat}

namespace NetDevice

variable (dev) (frame)

def need : Nat := if dev.vnet_hdr then frame.length else frame.length + VIRTIO_NET_HDR_LEN

def payload : Nat := if dev.vnet_hdr then frame.length - VIRTIO_NET_HDR_LEN else frame.length

/-- The frame passes the checks of `inject_rx_vnet_frame` and `inject_rx`. -/
def Accepts : Prop :=
  if dev.vnet_hdr then
    VIRTIO_NET_HDR_LEN < frame.length ∧ frame.length ≤ MAX_GSO_FRAME_BYTES ∧
      dev.csumAllowed (frame.getD 0 0) = true ∧
      dev.gsoAllowed (frame.getD 1 0 &&& ~~~ VIRTIO_NET_HDR_GSO_ECN) = true ∧
      frame.getD 1 0 &&& VIRTIO_NET_HDR_GSO_ECN = 0
  else frame.length + VIRTIO_NET_HDR_LEN ≤ MAX_FRAME_BYTES

def rxWalker : VirtQueueProcessor := attach dev.rx_processor dev.rx_queue dev.eventIdx

end NetDevice

/-- The driver's features and the tap's kind of frames are the same: what `Accepts` reads. -/
def SameFeatures (dev dev' : NetDevice) : Prop :=
  dev'.guest_features = dev.guest_features ∧ dev'.vnet_hdr = dev.vnet_hdr

/-- The guest has posted receive buffers for `size` bytes, and the rate limiter would let `bytes`
pass. -/
structure Ready (L : Layout) (host : (call : Call) → τ → Answer call × τ) (dev : NetDevice)
    (size bytes : Nat) (s : Guest × τ) : Prop where
  operational : dev.failed = false
  usable : dev.rx_queue.queueIsUsable L = true
  granted : dev.limited = true → (host (.charge bytes) s.2).1 = true
  /-- Chains seen before and not used yet. -/
  held : dev.rxWalker.peeked.length ≤ dev.rx_queue.size.toNat ∧
    ∀ p ∈ dev.rxWalker.peeked, InRam L p.buffers
  posted :
    if dev.mergeable then
      Holds (entryOf L host dev.rx_queue s) (idxOf dev.rx_queue s.1) size dev.rxWalker
    else
      idxOf dev.rx_queue s.1 ≠ dev.rxWalker.last_avail_idx ∧
        ∃ p, entryOf L host dev.rx_queue s dev.rxWalker.last_avail_idx = some p ∧ size ≤ p.capacity

/-! ## A frame that is not accepted -/

theorem take_getD {i n : Nat} (h : i < n) (frame : Bytes) :
    (frame.take n).getD i 0 = frame.getD i 0 := by
  rw [getD_eq_getElem?_getD, getD_eq_getElem?_getD, getElem?_take_of_lt h]

theorem accepts_vnet (hvnet : dev.vnet_hdr = true) :
    dev.Accepts frame ↔ VIRTIO_NET_HDR_LEN < frame.length ∧ frame.length ≤ MAX_GSO_FRAME_BYTES ∧
      ¬ (¬ dev.csumAllowed ((frame.take VIRTIO_NET_HDR_LEN).getD 0 0) ∨
        ¬ dev.gsoAllowed ((frame.take VIRTIO_NET_HDR_LEN).getD 1 0 &&& ~~~ VIRTIO_NET_HDR_GSO_ECN) ∨
        (frame.take VIRTIO_NET_HDR_LEN).getD 1 0 &&& VIRTIO_NET_HDR_GSO_ECN ≠ 0) := by
  rw [take_getD (by decide), take_getD (by decide)]
  unfold NetDevice.Accepts
  rw [hvnet, if_pos rfl]
  simp only [not_or, not_not]

/-- The answer to such a frame. -/
def NetDevice.refusal (dev : NetDevice) : Except MmioError Bool :=
  if dev.failed then .error .device else .ok false

variable {packet : Bytes} {header : Option Bytes} {slot : Slot} {offered : List (List Buf)}
  {p : PeekedChain} {q : VirtQueueProcessor}

theorem injectRx_oversized {notify : Bool}
    (h : (if header.isSome then MAX_GSO_FRAME_BYTES else MAX_FRAME_BYTES) <
      packet.length + VIRTIO_NET_HDR_LEN) :
    injectRx L fuel dev header packet notify = pure (some (dev.refusal, dev)) := by
  unfold injectRx NetDevice.refusal
  split
  · rfl
  · rw [if_pos h]

/-- It comes before anything is read or written. -/
theorem deliver_refused (h : ¬ dev.Accepts frame) :
    deliver L fuel dev frame = pure (some (.ok false, dev)) ∨
      deliver L fuel dev frame = pure (some (dev.refusal, dev)) := by
  unfold deliver
  cases hvnet : dev.vnet_hdr with
  | false =>
    unfold NetDevice.Accepts at h
    rw [hvnet, if_neg (by decide)] at h
    rw [if_neg (by decide)]
    exact .inr (injectRx_oversized (Nat.lt_of_not_le h))
  | true =>
    rw [accepts_vnet hvnet] at h
    rw [if_pos rfl, injectRxVnetFrame]
    split
    · exact .inl rfl
    rename_i hlong
    dsimp only
    split
    · exact .inl rfl
    rename_i hoffloads
    have hbig : MAX_GSO_FRAME_BYTES < (frame.drop VIRTIO_NET_HDR_LEN).length +
        VIRTIO_NET_HDR_LEN := by
      rw [length_drop, Nat.sub_add_cancel (Nat.le_of_not_le hlong)]
      by_contra hsmall
      exact h ⟨Nat.lt_of_not_le hlong, Nat.le_of_not_lt hsmall, hoffloads⟩
    exact .inr (injectRx_oversized hbig)

/-- As long as the device works, `drain_tap` does nothing but answer that it is blocked. -/
theorem drainTap_refused (hpending : slot.pending = some frame) (h : ¬ slot.dev.Accepts frame)
    (hop : slot.dev.failed = false) : drainTap L fuel slot = pure (some (.blocked, slot)) := by
  have hdeliver : deliver L fuel slot.dev frame = pure (some (.ok false, slot.dev)) := by
    rcases deliver_refused h with hr | hr
    · exact hr
    · rw [hr, NetDevice.refusal, hop, if_neg Bool.false_ne_true]
  obtain ⟨dev, pending⟩ := slot
  subst hpending
  unfold drainTap drainPending
  dsimp only at hdeliver ⊢
  rw [hdeliver]
  rfl

/-! ## A frame that is accepted -/

theorem uses_storing {α : Type} (p : Device Answer α) : p.Uses (Storing fun _ _ => True) := by
  induction p with
  | done a => trivial
  | step o next ih => exact ⟨by cases o <;> trivial, ih⟩

/-- Delivered once, the frame counts as delivered to the end of the loop. -/
theorem drain_delivered {avail_idx : UInt16} (n : Nat) (t : Session RxCaptured)
    (h : t.captured.delivered = true) :
    (drain L (rxHandler dev header packet) avail_idx n t).Gives fun r =>
      r.2.captured.delivered = true := by
  have hkept : KeptBy .any L (rxHandler dev header packet) fun t =>
      t.captured.delivered = true := by
    constructor
    · exact fun t ht => ht
    · intro t chain _ ht
      apply World.Triple.of_gives
      unfold rxHandler
      rw [if_pos ht]
      exact ⟨ht, fun h => absurd rfl h⟩
  exact World.gives_of_any (hkept.drain n h)

theorem copyChain_interp {bufs : List Buf} (hram : InRam L bufs) (sources : List Bytes)
    (s : Guest × τ) : ((copyChain bufs sources).interp (answer L host) s).1 = true := by
  have hcopy : (aloneWorld L (fun _ _ => True) host).Triple (fun _ => True) (copyChain bufs sources)
      fun r _ => r = true ∧ True :=
    triple_copyChain (fun _ _ h _ => h) sources fun b hb a data hlo hhi =>
      triple_writeMem_ram (hram b hb) hlo hhi
  exact (hcopy trivial (runs_alone L host _ (meets_of_uses (uses_storing _) s))).1

theorem rateLimitAllows_interp {bytes : Nat}
    (h : dev.limited = true → (host (.charge bytes) s.2).1 = true) :
    ∃ x, (rateLimitAllows dev bytes).interp (answer L host) s = (true, s.1, x) := by
  unfold rateLimitAllows
  split
  · next hlimited => exact ⟨_, Prod.ext (h hlimited) rfl⟩
  · exact ⟨s.2, rfl⟩

theorem rxHandler_interp {chain : DescriptorChain} (hram : chain.InRam L)
    (hroom : packet.length + VIRTIO_NET_HDR_LEN ≤ bufsLen chain.writable)
    (hgranted : dev.limited = true → (host (.charge packet.length) s.2).1 = true) :
    ∃ c x, (rxHandler dev header packet ⟨false, offered⟩ chain.readable chain.writable).interp
        (answer L host) s = ((some (packet.length + VIRTIO_NET_HDR_LEN), c), x) ∧
      c.delivered = true := by
  obtain ⟨x, hrate⟩ : ∃ x, (rateLimitAllows dev packet.length).interp (answer L host) s =
    (true, s.1, x) :=
    rateLimitAllows_interp hgranted
  have hcopied : ((copyChain chain.writable [header.getD singleHeader, packet]).interp
      (answer L host) (s.1, x)).1 = true := copyChain_interp hram.2 _ _
  unfold rxHandler
  rw [if_neg Bool.false_ne_true]
  rw [if_neg (Nat.not_lt_of_le hroom), interp_bind, hrate]
  rw [if_pos rfl, interp_bind, hcopied]
  exact ⟨_, _, rfl, rfl⟩

theorem entryOf_eq_some {c : QueueConfig} (hc : Usable L c) {position : UInt16}
    (h : entryOf L host c s position = some p) :
    ∃ entry chain, c.availEntryAddr position = some entry ∧ checkRange L entry 2 = true ∧
      (walkDescriptorChain L c (word s.1.cells entry)).interp (answer L host) s = (some chain, s) ∧
      chain.InRam L ∧ p.buffers = chain.writable ∧ p.capacity = bufsLen chain.writable := by
  obtain ⟨entry, hentry, hrange⟩ := hc.availEntryAddr position
  unfold entryOf at h
  rw [hentry] at h
  obtain ⟨chain', hchain', rfl⟩ := Option.map_eq_some_iff.mp h
  have hloads : ((walkDescriptorChain L c (word s.1.cells entry)).interp (answer L host) s).2 = s :=
    interp_loads (walkDescriptorChain_uses c _) s
  have hram :
    ∀ chain, ((walkDescriptorChain L c (word s.1.cells entry)).interp (answer L host) s).1 =
      some chain → chain.InRam L := interp_gives (walkDescriptorChain_inRam c _) (answer L host) s
  generalize hwalk : (walkDescriptorChain L c (word s.1.cells entry)).interp (answer L host) s = r
    at hchain' hloads hram
  obtain ⟨chain, x⟩ := r
  cases chain with
  | none => cases hchain'
  | some chain =>
    unfold receiveChain at hchain'
    dsimp only at hchain' hloads
    split at hchain'
    · cases hchain'
      exact ⟨entry, chain', hentry, hrange, by rw [hwalk, hloads], hram chain' rfl, rfl, rfl⟩
    · cases hchain'

section NextChain

variable (hne : idxOf q.config s.1 ≠ q.last_avail_idx)
  (hentry : entryOf L host q.config s q.last_avail_idx = some p)
  (hroom : packet.length + VIRTIO_NET_HDR_LEN ≤ p.capacity)
  (hgranted : dev.limited = true → (host (.charge packet.length) s.2).1 = true)

include hne hentry hroom hgranted

/-- The inner loop delivers into the next chain, if that holds the frame. -/
theorem drain_delivers (hc : Usable L q.config) :
    ((drain L (rxHandler dev header packet) (idxOf q.config s.1)
      (idxOf q.config s.1 - q.last_avail_idx).toNat ⟨q, 0, ⟨false, offered⟩⟩).interp
        (answer L host) s).1.2.captured.delivered = true := by
  obtain ⟨entry, chain, hat, hrange, hwalk, hram, -, hcap⟩ := entryOf_eq_some hc hentry
  obtain ⟨n, hn⟩ : ∃ n, (idxOf q.config s.1 - q.last_avail_idx).toNat = n + 1 := by
    apply Nat.exists_eq_succ_of_ne_zero
    intro h
    exact hne (sub_toNat_eq_zero.mp h).symm
  obtain ⟨c, x, hhandler, hc'⟩ : ∃ c x,
      (rxHandler dev header packet ⟨false, offered⟩ chain.readable chain.writable).interp
        (answer L host) s = ((some (packet.length + VIRTIO_NET_HDR_LEN), c), x) ∧
        c.delivered = true :=
    rxHandler_interp hram (by omega) hgranted
  rw [hn]
  unfold drain
  rw [if_neg (Ne.symm hne)]
  rw [hat]
  rw [interp_bind, readU16_interp hrange]
  rw [interp_bind, hwalk]
  rw [interp_bind, hhandler]
  dsimp only
  apply interp_gives (φ := fun r : Bool × Session RxCaptured => r.2.captured.delivered = true)
  split
  · exact hc'
  · exact gives_skip fun _ => drain_delivered _ _ hc'

/-- A round that goes on has delivered the frame. -/
theorem round_delivers (hc : Usable L q.config) (t : Session RxCaptured)
    (ht : ((round L (rxHandler dev header packet) ⟨q, 0, ⟨false, offered⟩⟩).interp
      (answer L host) s).1 = .inr t) : t.captured.delivered = true := by
  obtain ⟨bytes, hload, hv⟩ : ∃ bytes, s.1.load L q.config.avail_ring_addr 4 = some bytes ∧
      UInt16.ofNat (fromLeBytes (slice bytes 2 2)) = idxOf q.config s.1 := by
    rw [Guest.load, if_pos hc.availHeader]
    exact ⟨_, rfl, by rw [slice_peek (by omega)]; rfl⟩
  have hdrain : ((drain L (rxHandler dev header packet) (idxOf q.config s.1)
      (idxOf q.config s.1 - q.last_avail_idx).toNat ⟨q, 0, ⟨false, offered⟩⟩).interp
        (answer L host) s).1.2.captured.delivered = true :=
        drain_delivers hne hentry hroom hgranted hc
  revert t ht
  have hread : (load q.config.avail_ring_addr 4 : Device Answer _).interp (answer L host) s =
      (some bytes, s) := congrArg (·, s) hload
  rw [round_eq, interp_bind, hread]
  dsimp only
  rw [hv, interp_bind]
  generalize (drain L (rxHandler dev header packet) (idxOf q.config s.1)
    (idxOf q.config s.1 - q.last_avail_idx).toNat ⟨q, 0, ⟨false, offered⟩⟩).interp
      (answer L host) s = r at hdrain ⊢
  intro t ht
  have hend := interp_gives (endRound_gives r.1) (answer L host) r.2
  rw [ht] at hend
  rwa [← hend] at hdrain

/-- A call that finds a chain for the frame and does not touch the available index delivers it. -/
theorem process_delivers (husable : q.config.queueIsUsable L = true)
    (hoff : (processQueueDescriptorsDirty L (fuel + 1) (rxHandler dev header packet) q
      ⟨false, offered⟩).Meets (answer L host) (Storing (Off (q.config.avail_ring_addr + 2) 2)) s) :
    ∃ t, ((processQueueDescriptorsDirty L (fuel + 1) (rxHandler dev header packet) q
        ⟨false, offered⟩).interp (answer L host) s).1 = some t ∧ t.captured.delivered = true := by
  simp only [processQueueDescriptorsDirty, husable, if_true, rounds] at hoff ⊢
  have hlast : (offIdx L host q.config).Triple (IdxIs q.config (idxOf q.config s.1))
      (round L (rxHandler dev header packet) ⟨q, 0, ⟨false, offered⟩⟩) fun r _ =>
        ∃ t, r = .inr t ∧ True :=
    triple_round_last (usable_of husable) _ rfl (gives_all _)
  have hrun := runs_alone L host _ (meets_bind.mp hoff).1
  obtain ⟨t, ht, -⟩ := hlast rfl hrun
  simp only [interp_bind, ht]
  exact ⟨t, rfl, round_delivers hne hentry hroom hgranted (usable_of husable) t ht⟩

end NextChain

theorem peekWritable_inRam (want : Nat) (s : Guest × τ)
    (husable : q.config.queueIsUsable L = true) (hlen : q.peeked.length ≤ q.config.size.toNat)
    (hram : ∀ p ∈ q.peeked, InRam L p.buffers) :
    ∃ q', (peekWritable L q want).interp (answer L host) s = (q', s) ∧
      q'.config = q.config ∧ q'.peeked.length ≤ q.config.size.toNat ∧
      (∀ p ∈ q'.peeked, InRam L p.buffers) ∧
      (Holds (entryOf L host q.config s) (idxOf q.config s.1) want q →
        want ≤ q'.peekedCapacity) := by
  obtain ⟨q', hpeek, hJ, hq', -, hlen', hset⟩ :=
    peekWritable_rule host s want husable
      (J := fun q' => (Holds (entryOf L host q.config s) (idxOf q.config s.1) want q →
        Holds (entryOf L host q.config s) (idxOf q.config s.1) want q') ∧
        ∀ p ∈ q'.peeked, InRam L p.buffers)
      (by
        intro q1 p hJ _ hcap hcan hp
        constructor
        · exact fun h => (Front.keep_iff (Nat.not_le_of_lt hcap) hcan hp).mp (hJ.1 h)
        · intro p' hp'
          rw [VirtQueueProcessor.keep, mem_append, mem_singleton] at hp'
          rcases hp' with hp' | rfl
          · exact hJ.2 p' hp'
          obtain ⟨_, chain, _, _, _, hchain, hbufs, _⟩ := entryOf_eq_some (usable_of husable) hp
          rw [hbufs]
          exact hchain.2)
      (fun q1 hJ _ hcap hcan hnil hp =>
        ⟨fun h => (Front.skip_iff (Nat.not_le_of_lt hcap) hcan hnil hp).mp (hJ.1 h), hJ.2⟩)
      ⟨id, hram⟩ rfl hlen
  exact ⟨q', hpeek, hq', hlen', hJ.2, fun h => Holds.of_settled hset (hJ.1 h)⟩

/-- Mergeable chains that hold the frame take it. -/
theorem mergeable_delivers {header : Bytes} (husable : q.config.queueIsUsable L = true)
    (hlen : q.peeked.length ≤ q.config.size.toNat) (hram : ∀ p ∈ q.peeked, InRam L p.buffers)
    (hholds : Holds (entryOf L host q.config s) (idxOf q.config s.1)
      (VIRTIO_NET_HDR_LEN + packet.length) q)
    (hgranted : dev.limited = true → (host (.charge packet.length) s.2).1 = true) :
    ∃ q', ((injectRxMergeable L (fuel + 1) dev q header packet).interp (answer L host) s).1 =
      some (.ok true, q') := by
  obtain ⟨q1, hpeek1, hq1, hlen1, hram1, hcap⟩ :=
    peekWritable_inRam (VIRTIO_NET_HDR_LEN + packet.length) s husable hlen hram
  obtain ⟨x, hrate⟩ : ∃ x, (rateLimitAllows dev packet.length).interp (answer L host) s =
    (true, s.1, x) :=
    rateLimitAllows_interp hgranted
  have hmake : (makeRoom L (VIRTIO_NET_HDR_LEN + packet.length) (fuel + 1) q).interp
    (answer L host) s =
      (some (true, q1), s) := by
    unfold makeRoom
    rw [interp_bind, hpeek1]
    rw [if_pos (hcap hholds)]
    rfl
  obtain ⟨q2, hpeek2, hq2, hlen2, hram2, -⟩ :=
    peekWritable_inRam (VIRTIO_NET_HDR_LEN + packet.length) (s.1, x) (hq1 ▸ husable)
      (hq1 ▸ hlen1) hram1
  obtain ⟨q3, hpeek3, -, -, hram3, -⟩ :=
    peekWritable_inRam (VIRTIO_NET_HDR_LEN + packet.length) (s.1, x) (hq2 ▸ hq1 ▸ husable)
      (hq2 ▸ hlen2) hram2
  unfold injectRxMergeable
  rw [interp_bind, hmake]
  rw [interp_bind, hrate]
  rw [if_pos rfl, interp_bind, hpeek2]
  rw [interp_bind, hpeek3]
  have hbufs : InRam L ((q3.peeked.take (splitLens (q2.peeked.map PeekedChain.capacity)
      (VIRTIO_NET_HDR_LEN + packet.length)).length).flatMap PeekedChain.buffers) := by
    intro b hb
    obtain ⟨p, hp, hb⟩ := mem_flatMap.mp hb
    exact hram3 p (mem_of_mem_take hp) b hb
  rw [interp_bind, copyChain_interp hbufs, if_pos rfl]
  apply interp_gives (φ := fun r : Option (Except MmioError Bool × VirtQueueProcessor) =>
    ∃ q', r = some (.ok true, q'))
  apply gives_skip
  intro q4
  exact gives_skip fun _ => ⟨q4, rfl⟩

theorem Holds.mono {e : UInt16 → Option PeekedChain} {v : UInt16} {m n : Nat} (h : Holds e v n q)
    (hle : m ≤ n) : Holds e v m q := by
  induction h with
  | here h => exact .here (le_trans hle h)
  | keep hpeek hp _ ih => exact .keep hpeek hp ih
  | skip hpeek hnone hp _ ih => exact .skip hpeek hnone hp ih

/-! ## The slot -/

theorem injectRx_delivers {notify : Bool} {size : Nat}
    (hready : Ready L host dev size packet.length s)
    (hsize : packet.length + VIRTIO_NET_HDR_LEN ≤ size)
    (hlimit : packet.length + VIRTIO_NET_HDR_LEN ≤
      if header.isSome then MAX_GSO_FRAME_BYTES else MAX_FRAME_BYTES)
    (hoff : dev.mergeable = false → (injectRx L (fuel + 1) dev header packet notify).Meets
      (answer L host)
      (Storing (Off (dev.rx_queue.avail_ring_addr + 2) 2)) s) :
    ∃ dev', ((injectRx L (fuel + 1) dev header packet notify).interp (answer L host) s).1 =
      some (.ok true, dev') := by
  have hq : dev.rxWalker.config = dev.rx_queue := attach_config _ _ _
  have hposted := hready.posted
  unfold injectRx at hoff ⊢
  rw [hready.operational, if_neg Bool.false_ne_true] at hoff ⊢
  rw [if_neg (Nat.not_lt_of_le hlimit), queueConfig_usable hready.usable] at hoff ⊢
  dsimp only at hoff ⊢
  cases hmerge : dev.mergeable with
  | true =>
    rw [hmerge, if_pos rfl] at hposted
    rw [if_pos rfl, interp_bind]
    have hneed : VIRTIO_NET_HDR_LEN + packet.length ≤ size := by omega
    obtain ⟨q', hq'⟩ : ∃ q', ((injectRxMergeable L (fuel + 1) dev dev.rxWalker
        (header.getD (replicate VIRTIO_NET_HDR_LEN 0)) packet).interp (answer L host) s).1 =
          some (.ok true, q') :=
      mergeable_delivers (hq ▸ hready.usable) (hq ▸ hready.held.1) hready.held.2
        (hq ▸ Holds.mono hposted hneed) hready.granted
    unfold NetDevice.rxWalker at hq'
    rw [hq']
    apply interp_gives (φ := fun r : Option (Except MmioError Bool × NetDevice) =>
      ∃ dev', r = some (.ok true, dev'))
    exact gives_skip fun dev' => ⟨dev', rfl⟩
  | false =>
    have hoff := hoff hmerge
    rw [hmerge, if_neg Bool.false_ne_true] at hposted hoff
    rw [if_neg Bool.false_ne_true, interp_bind]
    obtain ⟨hne, p, hp, hcap⟩ := hposted
    obtain ⟨t, ht, hdelivered⟩ : ∃ t, ((processQueueDescriptorsDirty L (fuel + 1)
        (rxHandler dev header packet) dev.rxWalker ⟨false, []⟩).interp (answer L host) s).1 =
          some t ∧ t.captured.delivered = true := by
      apply process_delivers (hq ▸ hne) (hq ▸ hp) (le_trans hsize hcap) hready.granted
        (hq ▸ hready.usable)
      rw [hq]
      exact (meets_bind.mp hoff).1
    unfold NetDevice.rxWalker at ht
    rw [ht]
    apply interp_gives (φ := fun r : Option (Except MmioError Bool × NetDevice) =>
      ∃ dev', r = some (.ok true, dev'))
    apply gives_skip
    intro dev'
    rw [hdelivered]
    exact ⟨dev', rfl⟩

theorem deliver_delivers {size : Nat} (haccepts : dev.Accepts frame)
    (hready : Ready L host dev size (dev.payload frame) s) (hsize : dev.need frame ≤ size)
    (hoff : dev.mergeable = false → (deliver L (fuel + 1) dev frame).Meets (answer L host)
      (Storing (Off (dev.rx_queue.avail_ring_addr + 2) 2)) s) :
    ∃ dev', ((deliver L (fuel + 1) dev frame).interp (answer L host) s).1 =
      some (.ok true, dev') := by
  unfold deliver at hoff ⊢
  unfold NetDevice.payload at hready
  unfold NetDevice.need at hsize
  cases hvnet : dev.vnet_hdr with
  | false =>
    unfold NetDevice.Accepts at haccepts
    rw [hvnet, if_neg Bool.false_ne_true] at haccepts hready hsize hoff
    rw [if_neg Bool.false_ne_true]
    exact injectRx_delivers hready hsize haccepts hoff
  | true =>
    obtain ⟨hlong, hlimit, hoffloads⟩ := (accepts_vnet hvnet).mp haccepts
    rw [hvnet, if_pos rfl] at hready hsize hoff
    rw [if_pos rfl]
    unfold injectRxVnetFrame at hoff ⊢
    rw [if_neg (Nat.not_le_of_lt hlong)] at hoff ⊢
    rw [if_neg hoffloads] at hoff ⊢
    have hlen : (frame.drop VIRTIO_NET_HDR_LEN).length + VIRTIO_NET_HDR_LEN = frame.length := by
      rw [length_drop, Nat.sub_add_cancel (le_of_lt hlong)]
    exact injectRx_delivers (length_drop ▸ hready) (by omega) (hlen ▸ hlimit) hoff

/-- The call finds the frame in its slot and hands it to the guest. -/
def Takes (L : Layout) (host : (call : Call) → τ → Answer call × τ) (fuel : Nat) (slot : Slot)
    (s : Guest × τ) : Prop :=
  ∃ dev, ((drainPending L fuel slot).interp (answer L host) s).1 = some (none, ⟨dev, none⟩, 1)

/-- Calls of `drain_tap` none of which took the frame of the slot. Between two of them everything
may change but the features: memory, tap and queues. -/
inductive Waits (L : Layout) (host : (call : Call) → τ → Answer call × τ) (start : Slot) :
    Slot → Prop where
  | start : Waits L host start start
  | call {slot next : Slot} {fuel : Nat} {s : Guest × τ} {rx : Rx} {left : Slot}
      (before : Waits L host start slot)
      (returns : ((drainTap L fuel slot).interp (answer L host) s).1 = some (rx, left))
      (kept : ¬ Takes L host fuel slot s)
      (pending : next.pending = left.pending)
      (features : SameFeatures slot.dev next.dev) : Waits L host start next

/-- A call that does not take the frame leaves it in the slot. -/
theorem drainTap_keeps {left : Slot} {rx : Rx} (hpending : slot.pending = some frame)
    (hreturns : ((drainTap L fuel slot).interp (answer L host) s).1 = some (rx, left))
    (hkept : ¬ Takes L host fuel slot s) : left.pending = some frame := by
  unfold drainTap at hreturns
  rw [interp_bind] at hreturns
  have hpart : ((drainPending L fuel slot).interp (answer L host) s).1 = none ∨
      (∃ dev, ((drainPending L fuel slot).interp (answer L host) s).1 =
        some (none, ⟨dev, none⟩, 1)) ∨
      ∃ rx dev, ((drainPending L fuel slot).interp (answer L host) s).1 =
        some (some rx, { slot with dev := dev }, 0) := by
    unfold drainPending
    rw [hpending]
    rw [interp_bind]
    generalize (deliver L fuel slot.dev frame).interp (answer L host) s = r
    obtain ⟨r, y⟩ := r
    match r with
    | none => exact .inl rfl
    | some (.ok true, dev) => exact .inr (.inl ⟨dev, rfl⟩)
    | some (.ok false, dev) => exact .inr (.inr ⟨.blocked, dev, rfl⟩)
    | some (.error _, dev) => exact .inr (.inr ⟨.failed, dev, rfl⟩)
  rcases hpart with hpart | hpart | ⟨rx', dev, hpart⟩
  · rw [hpart] at hreturns
    cases hreturns
  · exact absurd hpart hkept
  · rw [hpart] at hreturns
    cases hreturns
    exact hpending

theorem Waits.pending {start : Slot} (h : Waits L host start slot)
    (hstart : start.pending = some frame) :
    slot.pending = some frame ∧ SameFeatures start.dev slot.dev := by
  induction h with
  | start => exact ⟨hstart, rfl, rfl⟩
  | call _ returns kept pending features ih =>
    refine ⟨pending.trans (drainTap_keeps ih.1 returns kept), ?_⟩
    exact ⟨features.1.trans ih.2.1, features.2.trans ih.2.2⟩

theorem SameFeatures.accepts_iff {dev dev' : NetDevice} (h : SameFeatures dev dev') :
    dev'.Accepts frame ↔ dev.Accepts frame := by
  unfold NetDevice.Accepts NetDevice.csumAllowed NetDevice.gsoAllowed
  rw [h.1, h.2]

/-- However many calls left the frame in the slot, it leaves with the next one that finds the
guest's buffers ready, if the device accepts it and it is not longer than the guest was told; a
frame the device does not accept is not taken by any call. -/
theorem pending_frame_leaves (L : Layout) (host : (call : Call) → τ → Answer call × τ)
    (start : Slot) (frame : Bytes) (hstart : start.pending = some frame) (slot : Slot)
    (hwaits : Waits L host start slot) :
    (start.dev.Accepts frame → start.dev.need frame ≤ start.dev.rxFrameLimit →
      ∀ fuel s, Ready L host slot.dev start.dev.rxFrameLimit (start.dev.payload frame) s →
        (slot.dev.mergeable = false → (drainPending L (fuel + 1) slot).Meets (answer L host)
          (Storing (Off (slot.dev.rx_queue.avail_ring_addr + 2) 2)) s) →
        Takes L host (fuel + 1) slot s) ∧
    (¬ start.dev.Accepts frame → ∀ fuel s, ¬ Takes L host fuel slot s) := by
  obtain ⟨hpending, hsame⟩ := hwaits.pending hstart
  constructor
  · intro haccepts hsize fuel s hready hoff
    have hsize' : slot.dev.need frame ≤ start.dev.rxFrameLimit := by
      unfold NetDevice.need
      rw [hsame.2]
      exact hsize
    have hready' : Ready L host slot.dev start.dev.rxFrameLimit (slot.dev.payload frame) s := by
      unfold NetDevice.payload
      rw [hsame.2]
      exact hready
    unfold Takes drainPending
    unfold drainPending at hoff
    rw [hpending] at hoff ⊢
    obtain ⟨dev, hdev⟩ := deliver_delivers (hsame.accepts_iff.mpr haccepts) hready' hsize'
      fun hmerge => (meets_bind.mp (hoff hmerge)).1
    rw [interp_bind, hdev]
    exact ⟨dev, rfl⟩
  · intro hrefused fuel s htakes
    obtain ⟨dev, hdev⟩ := htakes
    unfold drainPending at hdev
    rw [hpending] at hdev
    dsimp only at hdev
    rcases deliver_refused fun h => hrefused (hsame.accepts_iff.mp h) with hr | hr
    · rw [hr] at hdev
      cases hdev
    · rw [hr, NetDevice.refusal] at hdev
      split at hdev <;> cases hdev

/-! ## Frames the guest cannot be handed -/

/-- A slot whose device has no offloads; `vnet` says whether frames carry a header. -/
def slotWith (vnet : Bool) (frame : Bytes) : Slot :=
  ⟨.negotiated 0 vnet apartQueue.config apartQueue.config, some frame⟩

theorem slotWith_ready (vnet : Bool) (frame : Bytes) (bytes : Nat) :
    Ready onePage emptyTap (slotWith vnet frame).dev (slotWith vnet frame).dev.rxFrameLimit bytes
      (receiveGuest 2000 0 1) := by
  have hnone : ∀ bits, ¬ (slotWith vnet frame).dev.guest_features &&& bits ≠ 0 :=
    fun bits => not_not.mpr UInt32.zero_and
  have hlimit : (slotWith vnet frame).dev.rxFrameLimit = MAX_FRAME_BYTES := if_neg (hnone _)
  have hmerge : ¬ (slotWith vnet frame).dev.mergeable = true :=
    fun h => hnone _ (of_decide_eq_true h)
  have hentry : entryOf onePage emptyTap apartQueue.config (receiveGuest 2000 0 1) 0 =
      some ⟨0, [(0x400, 2000)], 2000⟩ := by decide +kernel
  have hidx : idxOf apartQueue.config (receiveGuest 2000 0 1).1 ≠ 0 := by decide +kernel
  constructor
  · rfl
  · show apartQueue.config.queueIsUsable onePage = true
    decide
  · exact nofun
  · exact ⟨Nat.zero_le _, nofun⟩
  · rw [if_neg hmerge, hlimit]
    exact ⟨hidx, _, hentry, by decide⟩

/-- A buffer of 2000 bytes is posted. A frame of 1590 bytes, for which the worker's own buffer
has room, and one with a segmentation header the driver did not negotiate are refused however
often `drain_tap` is called. -/
theorem refused_frame_blocks :
    (∀ vnet frame bytes, Ready onePage emptyTap (slotWith vnet frame).dev
        (slotWith vnet frame).dev.rxFrameLimit bytes (receiveGuest 2000 0 1)) ∧
      (∀ L fuel s, (drainTap L fuel (slotWith false (replicate 1590 0))).interp
        (answer L emptyTap) s = (some (.blocked, slotWith false (replicate 1590 0)), s)) ∧
      ∀ L fuel s, (drainTap L fuel (slotWith true (0 :: 1 :: replicate 98 0))).interp
        (answer L emptyTap) s = (some (.blocked, slotWith true (0 :: 1 :: replicate 98 0)), s) := by
  have hlong : ¬ (slotWith false (replicate 1590 0)).dev.Accepts (replicate 1590 0) := by
    intro h
    change (replicate 1590 (0 : UInt8)).length + VIRTIO_NET_HDR_LEN ≤ MAX_FRAME_BYTES at h
    rw [length_replicate] at h
    exact absurd h (by decide)
  have hoffload : ¬ (slotWith true (0 :: 1 :: replicate 98 0)).dev.Accepts
      (0 :: 1 :: replicate 98 0) := fun h => absurd h.2.2.2.1 (by decide)
  refine ⟨slotWith_ready, fun L fuel s => ?_, fun L fuel s => ?_⟩
  · rw [drainTap_refused rfl hlong rfl]
    rfl
  · rw [drainTap_refused rfl hoffload rfl]
    rfl

theorem accepted_frame_leaves :
    Takes onePage emptyTap 1 (slotWith false (replicate 100 0)) (receiveGuest 2000 0 1) := by
  obtain ⟨htakes, -⟩ := pending_frame_leaves onePage emptyTap
    (slotWith false (replicate 100 0)) (replicate 100 0) rfl _ .start
  apply htakes
  · show (replicate 100 (0 : UInt8)).length + VIRTIO_NET_HDR_LEN ≤ MAX_FRAME_BYTES
    decide
  · decide
  · exact slotWith_ready _ _ _
  · intro _
    decide +kernel

end Tarit.Virtio.Net
