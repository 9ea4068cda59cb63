import Tarit.Virtio.Queue

/-!
# The network device

The transmit and receive calls of `net_transport.rs`. A received frame goes to the guest by
one of four ways: copied into one chain or into several mergeable ones, or read from the tap
straight into one chain or into several. The transport's atomics and locks are the fields of
`NetDevice`; a call takes the device and answers with the device it leaves. Calls to the
tap and to the rate limiter are host calls.
-/
namespace Tarit.Virtio.Net

open Lib Live Snapshot

def VIRTIO_NET_HDR_LEN : Nat := 12

def VIRTIO_NET_HDR_NUM_BUFFERS_OFF : Nat := 10

def NET_QUEUE_SIZE_MAX : UInt16 := 1024

def MAX_FRAME_BYTES : Nat := 1600

def MAX_GSO_FRAME_BYTES : Nat := VIRTIO_NET_HDR_LEN + 65550

namespace Features

def GUEST_CSUM : UInt32 := 0x2
def GUEST_TSO4 : UInt32 := 0x80
def GUEST_TSO6 : UInt32 := 0x100
def MRG_RXBUF : UInt32 := 0x8000
def RING_EVENT_IDX : UInt32 := 0x20000000

end Features

def VIRTIO_NET_HDR_F_NEEDS_CSUM : UInt8 := 1
def VIRTIO_NET_HDR_GSO_NONE : UInt8 := 0
def VIRTIO_NET_HDR_GSO_TCPV4 : UInt8 := 1
def VIRTIO_NET_HDR_GSO_TCPV6 : UInt8 := 4
def VIRTIO_NET_HDR_GSO_ECN : UInt8 := 0x80

/-- Calls to the host: the tap and the rate limiter. -/
inductive Call where
  /-- `write(2)` on the tap. -/
  | write (wire : Bytes)
  /-- `read(2)` or `readv(2)` of one frame from the tap, into `room` bytes. -/
  | read (room : Nat)
  /-- `poll(2)` of the tap. -/
  | readable
  /-- `RateLimiter::try_charge(1, bytes)`. -/
  | charge (bytes : Nat)

/-- Whether anything was sent; the frame, if there was one; whether the budget allows it. -/
abbrev Answer : Call → Type
  | .write _ => Bool
  | .read _ => Option Bytes
  | .readable => Bool
  | .charge _ => Bool

/-- A tap without frames and a limiter that allows everything. -/
def emptyTap : (call : Call) → Unit → Answer call × Unit
  | .write _, x => (true, x)
  | .read _, x => (none, x)
  | .readable, x => (false, x)
  | .charge _, x => (true, x)

inductive MmioError where
  | device
  deriving DecidableEq

structure NetDevice where
  guest_features : UInt32
  /-- The tap's frames carry a virtio-net header. -/
  vnet_hdr : Bool
  /-- A rate limiter is installed. -/
  limited : Bool
  /-- A tap is attached. -/
  tap : Bool
  /-- `DEVICE_NEEDS_RESET` or `FAILED` is set. -/
  failed : Bool
  rx_queue : QueueConfig
  tx_queue : QueueConfig
  rx_processor : Option VirtQueueProcessor
  tx_processor : Option VirtQueueProcessor
  rx_irq_pending : Bool
  /-- The VRING bit of `interrupt_status`. -/
  interrupt_status : Bool
  /-- The counter of the IRQ `EventFd`. -/
  irq_evt : Nat
  /-- The receive chains the last call has tried to fill, recorded for the statements only. -/
  offered : List (List Buf)
  deriving DecidableEq

namespace NetDevice

/-- A device whose driver has negotiated these features and set up these queues. -/
def negotiated (guest_features : UInt32) (vnet_hdr : Bool) (rx_queue tx_queue : QueueConfig) :
    NetDevice where
  guest_features := guest_features
  vnet_hdr := vnet_hdr
  limited := false
  tap := true
  failed := false
  rx_queue := rx_queue
  tx_queue := tx_queue
  rx_processor := none
  tx_processor := none
  rx_irq_pending := false
  interrupt_status := false
  irq_evt := 0
  offered := []

variable (dev : NetDevice)

def eventIdx : Bool := dev.guest_features &&& Features.RING_EVENT_IDX ≠ 0

def mergeable : Bool := dev.guest_features &&& Features.MRG_RXBUF ≠ 0

def failDevice : NetDevice := { dev with failed := true }

def triggerInterrupt : NetDevice :=
  { dev with interrupt_status := true, irq_evt := dev.irq_evt + 1 }

/-- Interrupt now, or leave it to `signal_rx`. -/
def notifyRx (notify : Bool) : NetDevice :=
  if notify then dev.triggerInterrupt else { dev with rx_irq_pending := true }

def signalRx : NetDevice :=
  if dev.rx_irq_pending then { dev with rx_irq_pending := false }.triggerInterrupt else dev

/-- Largest frame, header included, the guest can be handed. -/
def rxFrameLimit : Nat :=
  if dev.guest_features &&& (Features.GUEST_TSO4 ||| Features.GUEST_TSO6) ≠
    0 then MAX_GSO_FRAME_BYTES
  else MAX_FRAME_BYTES

def gsoAllowed (gso : UInt8) : Bool :=
  if gso = VIRTIO_NET_HDR_GSO_NONE then true
  else if gso = VIRTIO_NET_HDR_GSO_TCPV4 then dev.guest_features &&& Features.GUEST_TSO4 ≠ 0
  else if gso = VIRTIO_NET_HDR_GSO_TCPV6 then dev.guest_features &&& Features.GUEST_TSO6 ≠ 0
  else false

def csumAllowed (flags : UInt8) : Bool :=
  flags &&& VIRTIO_NET_HDR_F_NEEDS_CSUM = 0 || dev.guest_features &&& Features.GUEST_CSUM ≠ 0

/-- Whether a header uses only offloads the guest accepted. -/
def rxHeaderAllowed (header : Bytes) : Bool :=
  dev.csumAllowed (header.getD 0 0) && dev.gsoAllowed (header.getD 1 0)

end NetDevice

def queueConfig (q : QueueConfig) : Option QueueConfig :=
  if q.ready && isValidQueueSize q.size NET_QUEUE_SIZE_MAX then some q else none

def attach (processor : Option VirtQueueProcessor) (cfg : QueueConfig) (event_idx : Bool) :
    VirtQueueProcessor :=
  match processor with
  | none => (VirtQueueProcessor.new cfg).setEventIdx event_idx
  | some q => (q.updateConfig cfg).setEventIdx event_idx

theorem queueConfig_eq_some {q c : QueueConfig} (h : queueConfig q = some c) : c = q := by
  unfold queueConfig at h
  split at h
  · exact (Option.some.inj h).symm
  · cases h

theorem queueConfig_usable {L : Layout} {c : QueueConfig} (h : c.queueIsUsable L = true) :
    queueConfig c = some c := by
  simp only [QueueConfig.queueIsUsable, Bool.and_eq_true] at h
  unfold queueConfig
  rw [if_pos]
  rw [Bool.and_eq_true]
  exact ⟨h.1.1.1.1.1, h.1.1.1.2⟩

@[simp] theorem attach_config (p : Option VirtQueueProcessor) (c : QueueConfig) (e : Bool) :
    (attach p c e).config = c := by
  cases p <;> rfl

@[simp] theorem attach_event_idx (p : Option VirtQueueProcessor) (c : QueueConfig) (e : Bool) :
    (attach p c e).event_idx = e := by
  cases p <;> rfl

/-- `get_slice` maps a range that starts in a region and ends in the same one. -/
def getSlice (L : Layout) (addr len : Nat) : Bool := 0 < room L addr && checkRange L addr len

def rateLimitAllows (dev : NetDevice) (bytes : Nat) : Device Answer Bool :=
  if dev.limited then call (Call.charge bytes) else pure true

/-! ## Chains -/

/-- `read_chain`: `want` bytes at byte offset `off` of a chain. -/
def readChain : List Buf → Nat → Nat → Device Answer (Option Bytes)
  | [], _, _ => pure none
  | (addr, len) :: chain, off, want =>
    if len ≤ off then readChain chain (off - len) want
    else do
      let take := min (len - off) want
      match ← load (addr + off) take with
      | none => return none
      | some bytes =>
        if take = want then return some bytes
        else
          match ← readChain chain 0 (want - take) with
          | none => return none
          | some rest => return some (bytes ++ rest)

/-- `write_chain`: `data` at byte offset `off` of a chain. -/
def writeChain : List Buf → Nat → Bytes → Device Answer Bool
  | [], _, _ => pure false
  | (addr, len) :: chain, off, data =>
    if len ≤ off then writeChain chain (off - len) data
    else do
      let take := min (len - off) data.length
      if ← store (addr + off) (data.take take) then
        if take = data.length then return true else writeChain chain 0 (data.drop take)
      else return false

/-- The kernel lays a frame into the buffers of a `readv`. -/
def scatter : List Buf → Bytes → Device Answer Unit
  | [], _ => pure ()
  | (addr, len) :: chain, frame =>
    if frame = [] then pure ()
    else do
      let _ ← store addr (frame.take len)
      scatter chain (frame.drop len)

/-- Mark the first `left` bytes of a chain. -/
def markFilled : List Buf → Nat → Device Answer Unit
  | [], _ => pure ()
  | (addr, size) :: chain, left => do
    let take := min left size
    markGuest addr take
    if left - take = 0 then return () else markFilled chain (left - take)

/-- Copy the sources into one buffer: what is left of them, or `none` if a write failed. -/
def copyBuf : List Bytes → Nat → Nat → Device Answer (Option (List Bytes))
  | [], _, _ => pure (some [])
  | source :: sources, addr, room =>
    if room = 0 then pure (some (source :: sources))
    else if source = [] then copyBuf sources addr room
    else do
      let take := min room source.length
      if ← writeMem addr (source.take take) then
        if take < source.length then return some (source.drop take :: sources)
        else copyBuf sources (addr + take) (room - take)
      else return none

/-- Copy the sources, one after the other, into the buffers of a chain. -/
def copyChain : List Buf → List Bytes → Device Answer Bool
  | [], _ => pure true
  | (addr, len) :: chain, sources => do
    match ← copyBuf sources addr len with
    | none => return false
    | some sources => copyChain chain sources

/-- How a frame of `left` bytes spreads over chains of these capacities. -/
def splitLens : List Nat → Nat → List Nat
  | [], _ => []
  | capacity :: capacities, left =>
    if left = 0 then []
    else min left capacity :: splitLens capacities (left - min left capacity)

def setNumBuffers (header : Bytes) (n : Nat) : Bytes :=
  header.take VIRTIO_NET_HDR_NUM_BUFFERS_OFF ++ u16Bytes (UInt16.ofNat n)

section Calls

variable (L : Layout) (fuel : Nat)

/-- The end of a call: the device to leave, notified if the driver wants it. -/
def notifyIf (moved : Bool) (q : VirtQueueProcessor) (old_used : UInt16)
    (dev notified : NetDevice) : Device Answer NetDevice :=
  if moved then do
    if ← needsNotification q old_used then return notified else return dev
  else pure dev

theorem notifyIf_gives (moved : Bool) (q : VirtQueueProcessor) (old : UInt16)
    (d notified : NetDevice) :
    (notifyIf moved q old d notified).Gives fun r => r = d ∨ r = notified := by
  unfold notifyIf
  split
  · apply Prog.gives_skip
    intro need
    cases need with
    | false => exact .inl rfl
    | true => exact .inr rfl
  · exact .inl rfl

/-! ## Transmit -/

/-- The bytes of the readable buffers, unless they are too many. -/
def gather (max_frame : Nat) : List Buf → Bytes → Device Answer (Option Bytes)
  | [], buf => pure (some buf)
  | (addr, len) :: readable, buf =>
    if len = 0 then gather max_frame readable buf
    else if max_frame < buf.length + len then pure none
    else do
      match ← load addr len with
      | none => return none
      | some bytes => gather max_frame readable (buf ++ bytes)

/-- Send a chain's frame; `δ` is `total_pkts`. -/
def txHandler (dev : NetDevice) : Handler Answer Nat := fun total_pkts readable _ => do
  let max_frame := if dev.vnet_hdr then MAX_GSO_FRAME_BYTES else MAX_FRAME_BYTES
  match ← gather max_frame readable [] with
  | none => return (some 0, total_pkts)
  | some buf =>
    if buf.length ≤ VIRTIO_NET_HDR_LEN then return (some 0, total_pkts)
    let packet := buf.drop VIRTIO_NET_HDR_LEN
    let wire := if dev.vnet_hdr then buf else packet
    if ← rateLimitAllows dev packet.length then
      if dev.tap then
        if ← call (Call.write wire) then return (some 0, total_pkts + 1)
        else return (some 0, total_pkts)
      else return (some 0, total_pkts)
    else return (none, total_pkts)

def processTxQueue (dev : NetDevice) : Device Answer (Option (Except MmioError Nat × NetDevice)) :=
  if dev.failed then pure (some (.error .device, dev))
  else
    match queueConfig dev.tx_queue with
    | none => pure (some (.ok 0, dev))
    | some cfg => do
      let q := attach dev.tx_processor cfg dev.eventIdx
      match ← processQueueDescriptorsDirty L fuel (txHandler dev) q 0 with
      | none => return none
      | some s =>
        let dev := { dev with tx_processor := some s.queue }
        let dev ← notifyIf (0 < s.processed) s.queue q.last_used_idx dev dev.triggerInterrupt
        return some (.ok s.captured, dev)

/-! ## Receive, copying -/

structure RxCaptured where
  delivered : Bool
  offered : List (List Buf)

/-- The zeroed header of a frame in one chain. -/
def singleHeader : Bytes := setNumBuffers (List.replicate VIRTIO_NET_HDR_LEN 0) 1

/-- Deliver into the first chain that is large enough. -/
def rxHandler (dev : NetDevice) (header : Option Bytes) (packet : Bytes) :
    Handler Answer RxCaptured := fun c _ writable =>
  if c.delivered then pure (none, c)
  else do
    let c := { c with offered := c.offered ++ [writable] }
    if bufsLen writable < packet.length + VIRTIO_NET_HDR_LEN then return (some 0, c)
    if ← rateLimitAllows dev packet.length then
      if ← copyChain writable [header.getD singleHeader, packet] then
        return (some (packet.length + VIRTIO_NET_HDR_LEN), { c with delivered := true })
      else return (some 0, c)
    else return (none, c)

/-- The loop of `inject_rx_mergeable`: whether the peeked chains can take `need` bytes. -/
def makeRoom (need : Nat) :
    Nat → VirtQueueProcessor → Device Answer (Option (Bool × VirtQueueProcessor))
  | 0, _ => pure none
  | fuel + 1, q => do
    let q ← peekWritable L q need
    if need ≤ q.peekedCapacity then return some (true, q)
    else if ← publishUsed q then makeRoom need fuel q
    else return some (false, q)

def injectRxMergeable (dev : NetDevice) (q : VirtQueueProcessor) (header packet : Bytes) :
    Device Answer (Option (Except MmioError Bool × VirtQueueProcessor)) := do
  let need := VIRTIO_NET_HDR_LEN + packet.length
  match ← makeRoom L need fuel q with
  | none => return none
  | some (false, q) => return some (.ok false, q)
  | some (true, q) =>
    if ← rateLimitAllows dev packet.length then
      let q ← peekWritable L q need
      let lens := splitLens (q.peeked.map PeekedChain.capacity) need
      let header := setNumBuffers header lens.length
      let q ← peekWritable L q need
      let buffers := (q.peeked.take lens.length).flatMap PeekedChain.buffers
      if ← copyChain buffers [header, packet] then
        let q ← usePeeked q lens
        let _ ← publishUsed q
        return some (.ok true, q)
      else return some (.error .device, q)
    else return some (.ok false, q)

def injectRx (dev : NetDevice) (header : Option Bytes) (packet : Bytes) (notify : Bool) :
    Device Answer (Option (Except MmioError Bool × NetDevice)) :=
  if dev.failed then pure (some (.error .device, dev))
  else
    let max_frame := if header.isSome then MAX_GSO_FRAME_BYTES else MAX_FRAME_BYTES
    if max_frame < packet.length + VIRTIO_NET_HDR_LEN then pure (some (.ok false, dev))
    else
      match queueConfig dev.rx_queue with
      | none => pure (some (.ok false, dev))
      | some cfg => do
        let q := attach dev.rx_processor cfg dev.eventIdx
        if dev.mergeable then
          match ← injectRxMergeable L fuel dev q (header.getD (List.replicate VIRTIO_NET_HDR_LEN 0))
              packet with
          | none => return none
          | some (.error e, q) =>
            return some (.error e, { dev with rx_processor := some q }.failDevice)
          | some (.ok delivered, q') =>
            let dev := { dev with rx_processor := some q', offered := [] }
            let dev ← notifyIf delivered q' q.last_used_idx dev (dev.notifyRx notify)
            return some (.ok delivered, dev)
        else
          match ← processQueueDescriptorsDirty L fuel (rxHandler dev header packet) q
              ⟨false, []⟩ with
          | none => return none
          | some s =>
            let dev := { dev with rx_processor := some s.queue, offered := s.captured.offered }
            let dev ← notifyIf s.captured.delivered s.queue q.last_used_idx dev
              (dev.notifyRx notify)
            return some (.ok s.captured.delivered, dev)

/-- Deliver a frame read from a tap with a virtio-net header. -/
def injectRxVnetFrame (dev : NetDevice) (frame : Bytes) :
    Device Answer (Option (Except MmioError Bool × NetDevice)) :=
  if frame.length ≤ VIRTIO_NET_HDR_LEN then pure (some (.ok false, dev))
  else
    let header := frame.take VIRTIO_NET_HDR_LEN
    let gso := header.getD 1 0
    if ¬ dev.csumAllowed (header.getD 0 0) ∨ ¬ dev.gsoAllowed (gso &&& ~~~ VIRTIO_NET_HDR_GSO_ECN) ∨
        gso &&& VIRTIO_NET_HDR_GSO_ECN ≠ 0 then pure (some (.ok false, dev))
    else
      injectRx L fuel dev (some (setNumBuffers header 1)) (frame.drop VIRTIO_NET_HDR_LEN) false

/-! ## Receive, straight from the tap -/

structure TapCaptured where
  delivered : Nat
  tap_empty : Bool
  offered : List (List Buf)

/-- Read one frame into a chain. -/
def tapHandler (dev : NetDevice) (max_frames : Nat) :
    Handler Answer TapCaptured := fun c _ writable =>
  if c.delivered = max_frames then pure (none, c)
  else do
    let c := { c with offered := c.offered ++ [writable] }
    if ¬ writable.all (fun b => getSlice L b.1 b.2) then return (some 0, c)
    match ← call (Call.read (bufsLen writable)) with
    | none => return (none, { c with tap_empty := true })
    | some frame =>
      scatter writable frame
      if frame.length ≤ VIRTIO_NET_HDR_LEN then return (some 0, c)
      markFilled writable frame.length
      match ← readChain writable 0 VIRTIO_NET_HDR_LEN with
      | none => return (some 0, c)
      | some header =>
        if ¬ dev.rxHeaderAllowed header then return (some 0, c)
        if ← writeChain writable VIRTIO_NET_HDR_NUM_BUFFERS_OFF (u16Bytes 1) then
          return (some frame.length, { c with delivered := c.delivered + 1 })
        else return (some 0, c)

/-- The variables of `rx_mergeable_from_tap`. -/
structure TapBatch where
  queue : VirtQueueProcessor
  delivered : Nat
  tap_empty : Bool
  failed : Bool

/-- The chains up to the first that makes room for `limit` bytes. -/
def takeRoom (limit : Nat) : List PeekedChain → Nat → List PeekedChain
  | [], _ => []
  | chain :: chains, room =>
    chain ::
      if limit ≤ room + chain.capacity then [] else takeRoom limit chains (room + chain.capacity)

/-- A frame the tap has written into the buffers of `chains`: use them, or leave them posted for
the next frame if this one is dropped. -/
def tapDeliver (dev : NetDevice) (chains : List PeekedChain) (frame : Bytes) (b : TapBatch) :
    Device Answer TapBatch := do
  let buffers := chains.flatMap PeekedChain.buffers
  if frame.length ≤ VIRTIO_NET_HDR_LEN then return b
  match ← readChain buffers 0 VIRTIO_NET_HDR_LEN with
  | none => return b
  | some header =>
    if ¬ dev.rxHeaderAllowed header then return b
    let lens := splitLens (chains.map PeekedChain.capacity) frame.length
    if ← writeChain buffers VIRTIO_NET_HDR_NUM_BUFFERS_OFF
      (u16Bytes (UInt16.ofNat lens.length)) then
      markFilled buffers frame.length
      let q ← usePeeked b.queue lens
      return { b with queue := q, delivered := b.delivered + 1 }
    else return b

theorem tapDeliver_uses_or_not {dev : NetDevice} {chains : List PeekedChain} {frame : Bytes}
    {b : TapBatch} {φ : TapBatch → Prop} (hdropped : φ b)
    (hused : ∀ lens, (usePeeked b.queue lens : Device Answer _).Gives fun q =>
      φ { b with queue := q, delivered := b.delivered + 1 }) :
    (tapDeliver dev chains frame b).Gives φ := by
  unfold tapDeliver
  split
  · exact hdropped
  apply Prog.gives_skip
  intro header
  cases header with
  | none => exact hdropped
  | some header =>
    dsimp only
    split
    · exact hdropped
    apply Prog.gives_skip
    intro written
    cases written with
    | false => exact hdropped
    | true =>
      apply Prog.gives_skip
      intro _
      exact Prog.gives_bind (hused _) fun q hq => hq

/-- The body of the inner loop; `some waiting` when it breaks. -/
def tapFrame (dev : NetDevice) (b : TapBatch) : Device Answer (Option Bool × TapBatch) := do
  let q ← peekWritable L b.queue dev.rxFrameLimit
  let b := { b with queue := q }
  let chains := takeRoom dev.rxFrameLimit q.peeked 0
  let buffers := chains.flatMap PeekedChain.buffers
  if (chains.map PeekedChain.capacity).sum < dev.rxFrameLimit then return (some true, b)
  if ¬ buffers.all (fun b => getSlice L b.1 b.2) then return (some false, { b with failed := true })
  match ← call (Call.read (bufsLen buffers)) with
  | none => return (some false, { b with tap_empty := true })
  | some frame =>
    scatter buffers frame
    return (none, ← tapDeliver dev chains frame b)

/-- The inner loop ends with `waiting` unset when enough frames were delivered. -/
def tapRound (dev : NetDevice) (max_frames : Nat) (b : TapBatch) :
    Device Answer (Option Bool × TapBatch) :=
  if b.delivered < max_frames then tapFrame L dev b else pure (some false, b)

/-- Both loops of `rx_mergeable_from_tap`, for at most so many rounds of the inner one. -/
def rxMergeableFromTap (dev : NetDevice) (max_frames : Nat) :
    Nat → TapBatch → Device Answer (Option TapBatch)
  | 0, _ => pure none
  | fuel + 1, b => do
    let (stop, b) ← tapRound L dev max_frames b
    match stop with
    | none => rxMergeableFromTap dev max_frames fuel b
    | some waiting =>
      let again ← publishUsed b.queue
      if ¬ again ∨ ¬ waiting ∨ b.failed then return some b
      else rxMergeableFromTap dev max_frames fuel b

/-- Frames delivered and whether the tap ran dry; `none` when this path does not apply. -/
def rxFromVnetTap (dev : NetDevice) (max_frames : Nat) :
    Device Answer (Option (Except MmioError (Option (Nat × Bool)) × NetDevice)) :=
  if dev.failed then pure (some (.error .device, dev))
  else if ¬ dev.vnet_hdr ∨ dev.limited then pure (some (.ok none, dev))
  else
    match queueConfig dev.rx_queue with
    | none => pure (some (.ok (some (0, false)), dev))
    | some cfg => do
      let q := attach dev.rx_processor cfg dev.eventIdx
      if dev.mergeable then
        match ← rxMergeableFromTap L dev max_frames fuel ⟨q, 0, false, false⟩ with
        | none => return none
        | some b =>
          let dev := { dev with rx_processor := some b.queue, failed := b.failed, offered := [] }
          let dev ← notifyIf (0 < b.delivered) b.queue q.last_used_idx dev (dev.notifyRx false)
          return some (if b.failed then .error .device else .ok (some (b.delivered, b.tap_empty)),
            dev)
      else
        match ← processQueueDescriptorsDirty L fuel (tapHandler L dev max_frames) q
            ⟨0, false, []⟩ with
        | none => return none
        | some s =>
          let dev := { dev with rx_processor := some s.queue, offered := s.captured.offered }
          let dev ← notifyIf (0 < s.captured.delivered) s.queue q.last_used_idx dev
            (dev.notifyRx false)
          return some (.ok (some (s.captured.delivered, s.captured.tap_empty)), dev)

end Calls

end Tarit.Virtio.Net
