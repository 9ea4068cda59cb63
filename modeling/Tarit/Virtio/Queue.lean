import Tarit.Virtio.Memory

/-!
# The virtqueue walker

`VirtQueueProcessor` of `vqueue.rs`. Ring indices, descriptor indices and flags are 16-bit
words and wrap. A loop whose number of rounds is bounded by its own variables recurses on
that bound; `processQueueDescriptorsDirty`, whose outer loop ends only when the available
index stands still, takes the number of rounds it may make and answers `none` when it
needs more.
-/
namespace Tarit.Virtio

open Lib Live Snapshot

def MAX_SUPPORTED_QUEUE_SIZE : UInt16 := 1024

def MAX_DESC_LEN : Nat := 1024 * 1024

def MAX_CHAIN_BYTES : Nat := 4 * 1024 * 1024

def isValidQueueSize (size max_size : UInt16) : Bool :=
  size != 0 && size ≤ max_size && decide (Nat.isPowerOfTwo size.toNat)

def guestRangeIsValid (L : Layout) (addr len : Nat) : Bool :=
  len = 0 || ((checkedAdd addr (len - 1)).isSome && checkRange L addr len)

namespace DescFlags

def NEXT : UInt16 := 1
def WRITE : UInt16 := 2
def INDIRECT : UInt16 := 4

end DescFlags

structure Descriptor where
  addr : Nat
  len : Nat
  flags : UInt16
  next : UInt16
  deriving DecidableEq

def DESCRIPTOR_SIZE : Nat := 16

def Descriptor.ofBytes (b : Bytes) : Descriptor where
  addr := fromLeBytes (slice b 0 8)
  len := fromLeBytes (slice b 8 4)
  flags := UInt16.ofNat (fromLeBytes (slice b 12 2))
  next := UInt16.ofNat (fromLeBytes (slice b 14 2))

def usedElem (id : UInt16) (len : Nat) : Bytes := toLeBytes 4 id.toNat ++ toLeBytes 4 len

def USED_ELEM_SIZE : Nat := 8

def u16Bytes (v : UInt16) : Bytes := toLeBytes 2 v.toNat

structure QueueConfig where
  size : UInt16
  desc_table_addr : Nat
  avail_ring_addr : Nat
  used_ring_addr : Nat
  ready : Bool
  deriving DecidableEq

/-- A buffer of a chain: guest address and length. -/
abbrev Buf := Nat × Nat

structure DescriptorChain where
  readable : List Buf
  writable : List Buf
  len : Nat
  deriving DecidableEq

structure PeekedChain where
  head : UInt16
  buffers : List Buf
  capacity : Nat
  deriving DecidableEq

structure VirtQueueProcessor where
  config : QueueConfig
  last_avail_idx : UInt16
  last_used_idx : UInt16
  event_idx : Bool
  peeked : List PeekedChain
  deriving DecidableEq

def bufsLen (bufs : List Buf) : Nat := (bufs.map Prod.snd).sum

namespace QueueConfig

variable (c : QueueConfig)

def hasValidSize : Bool := isValidQueueSize c.size MAX_SUPPORTED_QUEUE_SIZE

def descBytes : Nat := c.size.toNat * DESCRIPTOR_SIZE

def availBytes : Nat := 4 + c.size.toNat * 2

def usedBytes : Nat := 4 + c.size.toNat * USED_ELEM_SIZE

def queueIsUsable (L : Layout) : Bool :=
  c.ready && c.size != 0 && c.hasValidSize &&
    guestRangeIsValid L c.desc_table_addr c.descBytes &&
    guestRangeIsValid L c.avail_ring_addr c.availBytes &&
    guestRangeIsValid L c.used_ring_addr c.usedBytes

def availIdxAddr : Option Nat := checkedAdd c.avail_ring_addr 2

def availEntryAddr (position : UInt16) : Option Nat :=
  checkedAdd c.avail_ring_addr (4 + (position % c.size).toNat * 2)

def descAddr (desc_idx : UInt16) : Option Nat :=
  checkedAdd c.desc_table_addr (desc_idx.toNat * DESCRIPTOR_SIZE)

def usedEntryAddr (position : UInt16) : Option Nat :=
  checkedAdd c.used_ring_addr (4 + (position % c.size).toNat * USED_ELEM_SIZE)

def usedIdxAddr : Option Nat := checkedAdd c.used_ring_addr 2

/-- `used_event`, after the avail ring's entries. -/
def usedEventAddr : Option Nat := checkedAdd c.avail_ring_addr c.availBytes

/-- `avail_event`, after the used ring's entries. -/
def availEventAddr : Option Nat := checkedAdd c.used_ring_addr c.usedBytes

end QueueConfig

namespace VirtQueueProcessor

variable (q : VirtQueueProcessor)

def new (config : QueueConfig) : VirtQueueProcessor := ⟨config, 0, 0, false, []⟩

def updateConfig (config : QueueConfig) : VirtQueueProcessor :=
  { q with
    config := config
    peeked := if q.config = config then q.peeked else [] }

def setEventIdx (on : Bool) : VirtQueueProcessor := { q with event_idx := on }

def rejectAvailableChain : VirtQueueProcessor := { q with last_avail_idx := q.last_avail_idx + 1 }

/-- A chain was put on the used ring. -/
def advance : VirtQueueProcessor :=
  { q with last_used_idx := q.last_used_idx + 1, last_avail_idx := q.last_avail_idx + 1 }

end VirtQueueProcessor

/-- `vring_need_event`: did `event` fall in the entries from `old` up to `new`? -/
def vringNeedEvent (event new old : UInt16) : Bool := new - event - 1 < new - old

section Code

variable {H δ : Type} {A : H → Type} (L : Layout)

structure Walk where
  readable : List Buf := []
  writable : List Buf := []
  chain_bytes : Nat := 0
  chain_len : Nat := 0

def Walk.accepts (w : Walk) (desc : Descriptor) : Bool :=
  desc.flags &&& DescFlags.INDIRECT = 0 && desc.len ≤ MAX_DESC_LEN &&
    w.chain_bytes + desc.len ≤ MAX_CHAIN_BYTES && guestRangeIsValid L desc.addr desc.len

def Walk.push (w : Walk) (desc : Descriptor) : Walk :=
  if desc.flags &&& DescFlags.WRITE ≠ 0 then
    { w with
      writable := w.writable ++ [(desc.addr, desc.len)]
      chain_bytes := w.chain_bytes + desc.len
      chain_len := w.chain_len + 1 }
  else
    { w with
      readable := w.readable ++ [(desc.addr, desc.len)]
      chain_bytes := w.chain_bytes + desc.len
      chain_len := w.chain_len + 1 }

def Walk.chain (w : Walk) : DescriptorChain := ⟨w.readable, w.writable, w.chain_len⟩

/-- The loop of `walk_descriptor_chain`; `left` is the queue size minus `chain_len`, so a chain
longer than the table ends without a result. -/
def walkFrom (c : QueueConfig) : Nat → UInt16 → Walk → Device A (Option DescriptorChain)
  | 0, _, _ => pure none
  | left + 1, desc_idx, w =>
    if c.size ≤ desc_idx then pure none
    else
      match c.descAddr desc_idx with
      | none => pure none
      | some desc_addr => do
        match ← load desc_addr DESCRIPTOR_SIZE with
        | none => pure none
        | some bytes =>
          let desc := Descriptor.ofBytes bytes
          if ¬ w.accepts L desc then pure none
          else if desc.flags &&& DescFlags.NEXT = 0 then pure (some (w.push desc).chain)
          else walkFrom c left desc.next (w.push desc)

def walkDescriptorChain (c : QueueConfig) (head : UInt16) : Device A (Option DescriptorChain) :=
  if c.size ≤ head then pure none else walkFrom L c c.size.toNat head {}

/-- What `process_queue_descriptors_dirty` calls with a chain's buffers: the number of bytes
it wrote, or `none` to leave the chain for the next call. `δ` is what the closure captured. -/
abbrev Handler {H : Type} (A : H → Type) (δ : Type) : Type :=
  δ → List Buf → List Buf → Device A (Option Nat × δ)

/-- The variables of `process_queue_descriptors_dirty`. -/
structure Session (δ : Type) where
  queue : VirtQueueProcessor
  processed : Nat
  captured : δ

/-- The inner loop: chains up to `avail_idx`. It answers whether it stopped before. Every
round moves `last_avail_idx` by one, so `left` rounds reach `avail_idx` from that far. -/
def drain (handler : Handler A δ) (avail_idx : UInt16) :
    Nat → Session δ → Device A (Bool × Session δ)
  | 0, s => pure (false, s)
  | left + 1, s =>
    if s.queue.last_avail_idx = avail_idx then pure (false, s)
    else
      match s.queue.config.availEntryAddr s.queue.last_avail_idx with
      | none => pure (true, s)
      | some entry => do
        match ← readU16 entry with
        | none => pure (true, s)
        | some head =>
          match ← walkDescriptorChain L s.queue.config head with
          | none =>
            drain handler avail_idx left { s with queue := s.queue.rejectAvailableChain }
          | some chain =>
            match ← handler s.captured chain.readable chain.writable with
            -- The chain stays in flight; the next call tries it again.
            | (none, captured) => pure (true, { s with captured := captured })
            | (some used_len, captured) =>
              match s.queue.config.usedEntryAddr s.queue.last_used_idx with
              | none => pure (true, { s with captured := captured })
              | some addr =>
                let _ ← writeMem addr (usedElem head used_len)
                drain handler avail_idx left
                  { queue := s.queue.advance, processed := s.processed + 1, captured := captured }

/-- A store to a ring field whose result the code ignores. -/
def publish (addr : Option Nat) (v : UInt16) : Device A Unit :=
  match addr with
  | none => pure ()
  | some addr => do
    let _ ← writeMem addr (u16Bytes v)

/-- One round of the outer loop: the session to go on with, or the one to return. -/
def round (handler : Handler A δ) (s : Session δ) : Device A (Session δ ⊕ Session δ) := do
  match ← load s.queue.config.avail_ring_addr 4 with
  | none => return .inr s
  | some header =>
    let avail_idx := UInt16.ofNat (fromLeBytes (slice header 2 2))
    let (stopped, s) ← drain L handler avail_idx (avail_idx - s.queue.last_avail_idx).toNat s
    publish s.queue.config.usedIdxAddr s.queue.last_used_idx
    if ¬ s.queue.event_idx then return .inr s
    publish s.queue.config.availEventAddr s.queue.last_avail_idx
    if stopped then return .inr s
    -- A buffer published before avail_event was written did not kick; look again.
    match s.queue.config.availIdxAddr with
    | none => return .inr s
    | some addr =>
      match ← readU16 addr with
      | none => return .inr s
      | some idx => if idx ≠ s.queue.last_avail_idx then return .inl s else return .inr s

/-- The outer loop, for at most `fuel` rounds. -/
def rounds (handler : Handler A δ) : Nat → Session δ → Device A (Option (Session δ))
  | 0, _ => pure none
  | fuel + 1, s => do
    match ← round L handler s with
    | .inl s => rounds handler fuel s
    | .inr s => return some s

def processQueueDescriptorsDirty (fuel : Nat) (handler : Handler A δ) (q : VirtQueueProcessor)
    (captured : δ) : Device A (Option (Session δ)) :=
  if q.config.queueIsUsable L then rounds L handler fuel ⟨q, 0, captured⟩
  else pure (some ⟨q, 0, captured⟩)

/-- Whether the driver wants an interrupt for the entries added since `old_used`. -/
def needsNotification (q : VirtQueueProcessor) (old_used : UInt16) : Device A Bool :=
  if ¬ q.event_idx then pure true
  else
    match q.config.usedEventAddr with
    | none => pure true
    | some addr => do
      match ← readU16 addr with
      | none => return true
      | some used_event => return vringNeedEvent used_event q.last_used_idx old_used

/-! ## Chains seen and not used yet -/

/-- What all chains `peek_writable` holds can take. -/
def VirtQueueProcessor.peekedCapacity (q : VirtQueueProcessor) : Nat :=
  (q.peeked.map PeekedChain.capacity).sum

/-- A chain `peek_writable` keeps: device-writable buffers only. -/
def receiveChain : Option DescriptorChain → Option DescriptorChain
  | some chain => if chain.readable = [] ∧ chain.writable ≠ [] then some chain else none
  | none => none

/-- The loop of `peek_writable`. A round adds a chain or skips one, so `left` rounds reach
`avail_idx`. -/
def peekFrom (want : Nat) (avail_idx : UInt16) :
    Nat → VirtQueueProcessor → Device A VirtQueueProcessor
  | 0, q => pure q
  | left + 1, q =>
    if q.peekedCapacity < want ∧
        UInt16.ofNat q.peeked.length < min (avail_idx - q.last_avail_idx) q.config.size then
      match q.config.availEntryAddr (q.last_avail_idx + UInt16.ofNat q.peeked.length) with
      | none => pure q
      | some entry => do
        match ← readU16 entry with
        | none => pure q
        | some head =>
          match receiveChain (← walkDescriptorChain L q.config head) with
          | some chain =>
            peekFrom want avail_idx left
              { q with peeked := q.peeked ++ [⟨head, chain.writable, bufsLen chain.writable⟩] }
          | none =>
            -- A malformed chain behind a good one ends the walk.
            if q.peeked = [] then peekFrom want avail_idx left q.rejectAvailableChain
            else pure q
    else pure q

def peekWritable (q : VirtQueueProcessor) (want : Nat) : Device A VirtQueueProcessor :=
  if q.config.queueIsUsable L then
    match q.config.availIdxAddr with
    | none => pure q
    | some addr => do
      match ← readU16 addr with
      | none => return q
      | some avail_idx => peekFrom L want avail_idx (avail_idx - q.last_avail_idx).toNat q
  else pure { q with peeked := [] }

/-- Use the first chains, the i-th with `lens[i]` bytes written. -/
def usePeeked : VirtQueueProcessor → List Nat → Device A VirtQueueProcessor
  | q, [] => pure q
  | q, len :: lens =>
    match q.peeked with
    | [] => pure q
    | chain :: rest =>
      match q.config.usedEntryAddr q.last_used_idx with
      | none => usePeeked { q with peeked := rest }.advance lens
      | some addr => do
        let _ ← writeMem addr (usedElem chain.head len)
        usePeeked { q with peeked := rest }.advance lens

/-- The available index a device with peeked chains has seen. -/
def VirtQueueProcessor.seen (q : VirtQueueProcessor) : UInt16 :=
  q.last_avail_idx + UInt16.ofNat q.peeked.length

/-- Whether chains were published that the driver will not kick for. -/
def publishUsed (q : VirtQueueProcessor) : Device A Bool := do
  publish q.config.usedIdxAddr q.last_used_idx
  if ¬ q.event_idx then return false
  publish q.config.availEventAddr q.seen
  match q.config.availIdxAddr with
  | none => return false
  | some addr =>
    match ← readU16 addr with
    | none => return false
    | some idx => return idx ≠ q.seen

end Code

end Tarit.Virtio
