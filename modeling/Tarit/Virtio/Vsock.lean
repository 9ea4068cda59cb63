import Tarit.Virtio.Net

/-!
# The vsock device

`vsock.rs`: guest packets from the transmit queue open, feed and close connections to host
streams, and packets for the guest wait in `pending_rx` until the receive queue has buffers.
The hash map of connections is a list in the order in which it is iterated. Host streams are
numbered in the order in which they are opened. A packet is built under the lock of the
connections and queued under the lock of `pending_rx`; between the two it is in flight, and other
threads may run. For the statements only, a packet remembers the stream its payload was read from,
and the device the packets it exchanged with the guest.
-/
namespace Tarit.Virtio.Vsock

open Lib Live Snapshot
open Virtio.Net (MmioError)

def VSOCK_HOST_CID : UInt64 := 2

def VSOCK_HEADER_LEN : Nat := 44

def MAX_QUEUE_SIZE : UInt16 := 256

def MAX_PENDING_RX : Nat := 4096

def MAX_CONNECTIONS : Nat := 1024

def DEFAULT_BUF_ALLOC : UInt32 := 256 * 1024

def MAX_PACKET_BYTES : Nat := 64 * 1024

def HOST_READ_CHUNK : Nat := 4096

def HOST_EPHEMERAL_PORT_START : UInt32 := 49152

def HOST_EPHEMERAL_PORT_END : UInt32 := 65535

def STREAM : UInt16 := 1

namespace PacketOp

def INVALID : UInt16 := 0
def REQUEST : UInt16 := 1
def RESPONSE : UInt16 := 2
def RST : UInt16 := 3
def SHUTDOWN : UInt16 := 4
def RW : UInt16 := 5
def CREDIT_UPDATE : UInt16 := 6
def CREDIT_REQUEST : UInt16 := 7

end PacketOp

namespace ShutdownFlags

def RCV : UInt32 := 1
def SEND : UInt32 := 2

end ShutdownFlags

structure VsockPacketHeader where
  src_cid : UInt64
  dst_cid : UInt64
  src_port : UInt32
  dst_port : UInt32
  len : UInt32
  type_ : UInt16
  op : UInt16
  flags : UInt32
  buf_alloc : UInt32
  fwd_cnt : UInt32
  deriving DecidableEq

namespace VsockPacketHeader

def fromBytes (buf : Bytes) : Option VsockPacketHeader :=
  if buf.length < VSOCK_HEADER_LEN then none
  else
    some
      { src_cid := UInt64.ofNat (fromLeBytes (slice buf 0 8))
        dst_cid := UInt64.ofNat (fromLeBytes (slice buf 8 8))
        src_port := UInt32.ofNat (fromLeBytes (slice buf 16 4))
        dst_port := UInt32.ofNat (fromLeBytes (slice buf 20 4))
        len := UInt32.ofNat (fromLeBytes (slice buf 24 4))
        type_ := UInt16.ofNat (fromLeBytes (slice buf 28 2))
        op := UInt16.ofNat (fromLeBytes (slice buf 30 2))
        flags := UInt32.ofNat (fromLeBytes (slice buf 32 4))
        buf_alloc := UInt32.ofNat (fromLeBytes (slice buf 36 4))
        fwd_cnt := UInt32.ofNat (fromLeBytes (slice buf 40 4)) }

def toBytes (h : VsockPacketHeader) : Bytes :=
  toLeBytes 8 h.src_cid.toNat ++ toLeBytes 8 h.dst_cid.toNat ++ toLeBytes 4 h.src_port.toNat ++
    toLeBytes 4 h.dst_port.toNat ++ toLeBytes 4 h.len.toNat ++ toLeBytes 2 h.type_.toNat ++
    toLeBytes 2 h.op.toNat ++ toLeBytes 4 h.flags.toNat ++ toLeBytes 4 h.buf_alloc.toNat ++
    toLeBytes 4 h.fwd_cnt.toNat

end VsockPacketHeader

structure VsockPacket where
  header : VsockPacketHeader
  data : Bytes
  /-- The host stream the payload was read from. -/
  stream : Option Nat
  deriving DecidableEq

namespace VsockPacket

def new (header : VsockPacketHeader) (data : Bytes) (stream : Option Nat) : VsockPacket :=
  ⟨{ header with len := UInt32.ofNat data.length }, data, stream⟩

def fromBytes (buf : Bytes) : Option VsockPacket :=
  match VsockPacketHeader.fromBytes buf with
  | none => none
  | some header =>
    let data_len := header.len.toNat
    if MAX_PACKET_BYTES < data_len ∨ buf.length < VSOCK_HEADER_LEN + data_len then none
    else some ⟨header, slice buf VSOCK_HEADER_LEN data_len, none⟩

def toBytes (p : VsockPacket) : Bytes :=
  VsockPacketHeader.toBytes { p.header with len := UInt32.ofNat p.data.length } ++ p.data

end VsockPacket

structure ConnectionKey where
  guest_cid : UInt64
  guest_port : UInt32
  host_port : UInt32
  deriving DecidableEq

structure Connection where
  stream : Nat
  peer_buf_alloc : UInt32
  peer_fwd_cnt : UInt32
  fwd_cnt : UInt32
  established : Bool
  deriving DecidableEq

abbrev Connections := List (ConnectionKey × Connection)

namespace Connections

def get (cs : Connections) (key : ConnectionKey) : Option Connection := cs.lookup key

def containsKey (cs : Connections) (key : ConnectionKey) : Bool := (get cs key).isSome

def remove (cs : Connections) (key : ConnectionKey) : Connections := cs.filter fun c => c.1 ≠ key

def insert (cs : Connections) (key : ConnectionKey) (conn : Connection) : Connections :=
  remove cs key ++ [(key, conn)]

def modify (cs : Connections) (key : ConnectionKey) (f : Connection → Connection) : Connections :=
  cs.map fun c => if c.1 = key then (c.1, f c.2) else c

def insertWouldExceedCap (cs : Connections) (key : ConnectionKey) : Bool :=
  MAX_CONNECTIONS ≤ cs.length && ¬ containsKey cs key

end Connections

structure QueueState where
  config : QueueConfig
  last_avail_idx : UInt16
  last_used_idx : UInt16
  deriving DecidableEq

def QueueState.default : QueueState := ⟨⟨0, 0, 0, 0, false⟩, 0, 0⟩

/-- What the statements speak about. -/
inductive Event where
  /-- A packet of the guest was handled. -/
  | received (header : VsockPacketHeader)
  /-- Bytes were read from the host stream of a connection. -/
  | taken (key : ConnectionKey) (stream : Nat) (bytes : Bytes)
  /-- A packet was put into a buffer of the guest. -/
  | delivered (packet : VsockPacket)
  /-- The driver reset the device. -/
  | reset
  deriving DecidableEq

structure VsockDevice where
  guest_cid : UInt64
  /-- `DEVICE_NEEDS_RESET` or `FAILED` is set. -/
  failed : Bool
  rx_queue : QueueState
  tx_queue : QueueState
  rx_processor : Option VirtQueueProcessor
  tx_processor : Option VirtQueueProcessor
  /-- A host listener is attached. -/
  listener : Bool
  connections : Connections
  next_host_port : UInt32
  pending_rx : List VsockPacket
  /-- Packets that a call has built and not queued yet. -/
  in_flight : List VsockPacket
  /-- The VRING bit of `interrupt_status`. -/
  interrupt_status : Bool
  /-- The counter of the IRQ `EventFd`. -/
  irq_evt : Nat
  /-- Host streams opened so far. -/
  opened : Nat
  /-- What happened so far, the last event first. -/
  history : List Event
  deriving DecidableEq

/-- A device before its driver set it up. -/
def VsockDevice.new (guest_cid : UInt64) (listener : Bool) : VsockDevice where
  guest_cid := guest_cid
  failed := false
  rx_queue := .default
  tx_queue := .default
  rx_processor := none
  tx_processor := none
  listener := listener
  connections := []
  next_host_port := HOST_EPHEMERAL_PORT_START
  pending_rx := []
  in_flight := []
  interrupt_status := false
  irq_evt := 0
  opened := 0
  history := []

inductive Call where
  /-- `HostVsockListener::connect`. -/
  | connect (port : UInt32)
  /-- `UnixStream::pair`. -/
  | pair
  | read (stream room : Nat)
  | write (stream : Nat) (data : Bytes)

/-- What reading a host stream gives; no bytes at all mean that its other end is closed. -/
inductive StreamRead where
  | data (bytes : Bytes)
  /-- `WouldBlock` or `Interrupted`. -/
  | blocked
  | failed
  deriving DecidableEq

abbrev Answer : Call → Type
  | .connect _ => Bool
  | .pair => Bool
  | .read _ _ => StreamRead
  | .write _ _ => Bool

def keyFromGuest (header : VsockPacketHeader) : ConnectionKey :=
  ⟨header.src_cid, header.src_port, header.dst_port⟩

def hostPacket (key : ConnectionKey) (op : UInt16) (flags : UInt32) (data : Bytes)
    (fwd_cnt : UInt32) (stream : Option Nat) : VsockPacket :=
  .new
    { src_cid := VSOCK_HOST_CID
      dst_cid := key.guest_cid
      src_port := key.host_port
      dst_port := key.guest_port
      len := UInt32.ofNat data.length
      type_ := STREAM
      op := op
      flags := flags
      buf_alloc := DEFAULT_BUF_ALLOC
      fwd_cnt := fwd_cnt }
    data stream

/-- `reply_packet`, whose data is always empty. -/
def replyPacket (request : VsockPacketHeader) (op : UInt16) (flags fwd_cnt : UInt32) :
    VsockPacket :=
  hostPacket (keyFromGuest request) op flags [] fwd_cnt none

namespace VsockDevice

variable (dev : VsockDevice)

/-- A packet that finds the queue full is dropped. -/
def enqueueRx (packet : VsockPacket) : VsockDevice :=
  if MAX_PENDING_RX ≤ dev.pending_rx.length then dev
  else { dev with pending_rx := dev.pending_rx ++ [packet] }

/-- A call has built a packet that it queues next, without a lock on the connections. -/
def send (packet : VsockPacket) : VsockDevice :=
  { dev with in_flight := dev.in_flight ++ [packet] }

/-- The packets in flight are queued, the first one first. -/
def enqueueFlight : List VsockPacket → VsockDevice → VsockDevice
  | [], dev => dev
  | packet :: rest, dev => enqueueFlight rest ({ dev with in_flight := rest }.enqueueRx packet)

/-- A call queues what it built. -/
def flush : VsockDevice := enqueueFlight dev.in_flight dev

/-- The first pending packet is in a buffer of the guest. -/
def popRx : VsockDevice :=
  match dev.pending_rx with
  | [] => dev
  | packet :: rest =>
    { dev with pending_rx := rest, history := .delivered packet :: dev.history }

def triggerInterrupt : VsockDevice :=
  { dev with interrupt_status := true, irq_evt := dev.irq_evt + 1 }

end VsockDevice

/-! ## Packets of the guest -/

def handleRequest (dev : VsockDevice) (header : VsockPacketHeader) : Device Answer VsockDevice :=
  let refused := dev.send (replyPacket header PacketOp.RST 0 0)
  let key := keyFromGuest header
  if header.dst_cid ≠ VSOCK_HOST_CID then pure refused
  else if ¬ dev.listener then pure refused
  else if Connections.insertWouldExceedCap dev.connections key then pure refused
  else do
    if ← call (Call.connect header.dst_port) then
      let conn : Connection := ⟨dev.opened, header.buf_alloc, header.fwd_cnt, 0, true⟩
      let dev :=
        { dev with
          connections := Connections.insert dev.connections key conn
          opened := dev.opened + 1 }
      -- the answer is queued with the connections still locked
      return dev.enqueueRx (replyPacket header PacketOp.RESPONSE 0 0)
    else return refused

/-- What every packet of the guest reports about its buffer. -/
def Connection.report (header : VsockPacketHeader) (conn : Connection) : Connection :=
  { conn with peer_buf_alloc := header.buf_alloc, peer_fwd_cnt := header.fwd_cnt }

def handleResponse (dev : VsockDevice) (header : VsockPacketHeader) : VsockDevice :=
  { dev with
    connections := Connections.modify dev.connections (keyFromGuest header) fun conn =>
      { conn.report header with established := true } }

def handleRw (dev : VsockDevice) (header : VsockPacketHeader) (data : Bytes) :
    Device Answer VsockDevice :=
  let key := keyFromGuest header
  let reset :=
    { dev with connections := Connections.remove dev.connections key }.send
      (replyPacket header PacketOp.RST 0 0)
  match Connections.get dev.connections key with
  | none => pure reset
  | some conn => do
    if ← call (Call.write conn.stream data) then
      return { dev with
        connections := Connections.modify dev.connections key fun conn =>
          { conn.report header with fwd_cnt := conn.fwd_cnt + UInt32.ofNat data.length } }
    else return reset

def handleCreditUpdate (dev : VsockDevice) (header : VsockPacketHeader) : VsockDevice :=
  { dev with
    connections := Connections.modify dev.connections (keyFromGuest header)
      (Connection.report header) }

def handleCreditRequest (dev : VsockDevice) (header : VsockPacketHeader) : VsockDevice :=
  let fwd_cnt :=
    ((Connections.get dev.connections (keyFromGuest header)).map Connection.fwd_cnt).getD 0
  dev.send (replyPacket header PacketOp.CREDIT_UPDATE 0 fwd_cnt)

def handleShutdown (dev : VsockDevice) (header : VsockPacketHeader) : VsockDevice :=
  { dev with connections := Connections.remove dev.connections (keyFromGuest header) }.send
    (replyPacket header PacketOp.SHUTDOWN header.flags 0)

def handleRst (dev : VsockDevice) (header : VsockPacketHeader) : VsockDevice :=
  { dev with connections := Connections.remove dev.connections (keyFromGuest header) }

def handleTxPacket (dev : VsockDevice) (packet : VsockPacket) : Device Answer VsockDevice :=
  let header := packet.header
  let dev := { dev with history := .received header :: dev.history }
  if header.type_ ≠ STREAM then pure (dev.send (replyPacket header PacketOp.RST 0 0))
  else if header.op = PacketOp.REQUEST then handleRequest dev header
  else if header.op = PacketOp.RESPONSE then pure (handleResponse dev header)
  else if header.op = PacketOp.RW then handleRw dev header packet.data
  else if header.op = PacketOp.CREDIT_UPDATE then pure (handleCreditUpdate dev header)
  else if header.op = PacketOp.CREDIT_REQUEST then pure (handleCreditRequest dev header)
  else if header.op = PacketOp.SHUTDOWN then pure (handleShutdown dev header)
  else if header.op = PacketOp.RST then pure (handleRst dev header)
  else if header.op = PacketOp.INVALID then pure dev
  else pure (dev.send (replyPacket header PacketOp.RST 0 0))

/-! ## Queues -/

def queueConfig (q : QueueState) : Option QueueConfig :=
  if q.config.ready && isValidQueueSize q.config.size MAX_QUEUE_SIZE then some q.config else none

def attach (processor : Option VirtQueueProcessor) (q : QueueState) (cfg : QueueConfig) :
    VirtQueueProcessor :=
  match processor with
  | none => ⟨cfg, q.last_avail_idx, q.last_used_idx, false, []⟩
  | some p => p.updateConfig cfg

def readAll : List Buf → Bytes → Device Answer (Option Bytes)
  | [], buf => pure (some buf)
  | (addr, len) :: descs, buf => do
    match ← load addr len with
    | none => return none
    | some bytes => readAll descs (buf ++ bytes)

def readPacketFromDescs (descs : List Buf) : Device Answer (Option VsockPacket) :=
  if MAX_PACKET_BYTES + VSOCK_HEADER_LEN < bufsLen descs then pure none
  else do
    match ← readAll descs [] with
    | none => return none
    | some buf => return VsockPacket.fromBytes buf

def writeDescChain : List Buf → Bytes → Device Answer Bool
  | [], data => pure (data = [])
  | (addr, len) :: descs, data =>
    if data = [] then pure true
    else do
      let take := min data.length len
      if ← writeMem addr (data.take take) then writeDescChain descs (data.drop take)
      else return false

/-- Handle a packet of the guest; `δ` is the device. -/
def txHandler : Handler Answer VsockDevice := fun dev readable _ =>
  if dev.failed then pure (none, dev)
  else do
    match ← readPacketFromDescs readable with
    | none => return (some 0, dev)
    | some packet =>
      let dev ← handleTxPacket dev packet
      return (some 0, dev.flush)

/-- Deliver the first pending packet. -/
def rxHandler : Handler Answer VsockDevice := fun dev _ writable =>
  match dev.pending_rx with
  | [] => pure (none, dev)
  | packet :: _ => do
    let bytes := packet.toBytes
    if bufsLen writable < bytes.length then return (some 0, dev)
    if ← writeDescChain writable bytes then
      return (some bytes.length, dev.popRx)
    else return (some 0, dev)

section Calls

variable (L : Layout) (fuel : Nat)

def processRxQueue (dev : VsockDevice) :
    Device Answer (Option (Except MmioError Nat × VsockDevice)) :=
  if dev.failed then pure (some (.error .device, dev))
  else
    match queueConfig dev.rx_queue with
    | none => pure (some (.ok 0, dev))
    | some cfg => do
      match ← processQueueDescriptorsDirty L fuel rxHandler
        (attach dev.rx_processor dev.rx_queue cfg)
          dev with
      | none => return none
      | some s =>
        let dev := { s.captured with rx_processor := some s.queue }
        let dev := if 0 < s.processed then dev.triggerInterrupt else dev
        return some (if dev.failed then .error .device else .ok s.processed, dev)

def processTxQueue (dev : VsockDevice) :
    Device Answer (Option (Except MmioError Nat × VsockDevice)) :=
  if dev.failed then pure (some (.error .device, dev))
  else
    match queueConfig dev.tx_queue with
    | none => pure (some (.ok 0, dev))
    | some cfg => do
      match ← processQueueDescriptorsDirty L fuel txHandler
        (attach dev.tx_processor dev.tx_queue cfg)
          dev with
      | none => return none
      | some s =>
        let dev := { s.captured with tx_processor := some s.queue }
        if 0 < s.processed then
          match ← processRxQueue L fuel dev.triggerInterrupt with
          | none => return none
          | some (.error e, dev) => return some (.error e, dev)
          | some (.ok _, dev) =>
            return some (if dev.failed then .error .device else .ok s.processed, dev)
        else return some (if dev.failed then .error .device else .ok s.processed, dev)

/-! ## Host streams -/

/-- The variables of `pump_host_streams`, and what it read. -/
structure Pumped where
  packets : List VsockPacket
  closed : List ConnectionKey
  taken : List Event

def pumpStreams : Connections → Pumped → Device Answer Pumped
  | [], p => pure p
  | (key, conn) :: cs, p =>
    if ¬ conn.established then pumpStreams cs p
    else do
      match ← call (Call.read conn.stream HOST_READ_CHUNK) with
      | .data [] =>
        let packet := hostPacket key PacketOp.SHUTDOWN (ShutdownFlags.RCV ||| ShutdownFlags.SEND) []
          conn.fwd_cnt (some conn.stream)
        pumpStreams cs { p with packets := p.packets ++ [packet], closed := p.closed ++ [key] }
      | .data bytes =>
        let packet := hostPacket key PacketOp.RW 0 bytes conn.fwd_cnt (some conn.stream)
        pumpStreams cs
          { p with
            packets := p.packets ++ [packet]
            taken := .taken key conn.stream bytes :: p.taken }
      | .blocked => pumpStreams cs p
      | .failed =>
        let packet := hostPacket key PacketOp.RST 0 [] conn.fwd_cnt (some conn.stream)
        pumpStreams cs { p with packets := p.packets ++ [packet], closed := p.closed ++ [key] }

/-- The device once the streams were read and the connections are unlocked again. -/
def VsockDevice.pumped (dev : VsockDevice) (p : Pumped) : VsockDevice :=
  { dev with
    connections := dev.connections.filter fun c => c.1 ∉ p.closed
    history := p.taken ++ dev.history
    in_flight := dev.in_flight ++ p.packets }

def pumpHostStreams (dev : VsockDevice) :
    Device Answer (Option (Except MmioError Nat × VsockDevice)) :=
  if dev.failed then pure (some (.error .device, dev))
  else do
    let p ← pumpStreams dev.connections ⟨[], [], []⟩
    match ← processRxQueue L fuel (dev.pumped p).flush with
    | none => return none
    | some (.error e, dev) => return some (.error e, dev)
    | some (.ok _, dev) =>
      return some (if dev.failed then .error .device else .ok p.packets.length, dev)

inductive ConnectError where
  | requiresReset
  /-- `vsock connection cap reached`. -/
  | cap
  | pair
  /-- `no vsock ports`. -/
  | ports
  deriving DecidableEq

def portSpan : UInt32 := HOST_EPHEMERAL_PORT_END - HOST_EPHEMERAL_PORT_START + 1

/-- The loop over the ephemeral ports: the port found, and the counter after it. -/
def selectPort (dev : VsockDevice) (guest_port : UInt32) : Nat → UInt32 → Option UInt32 × UInt32
  | 0, seq => (none, seq)
  | left + 1, seq =>
    let port := HOST_EPHEMERAL_PORT_START + (seq - HOST_EPHEMERAL_PORT_START) % portSpan
    if Connections.containsKey dev.connections ⟨dev.guest_cid, guest_port, port⟩ then
      selectPort dev guest_port left (seq + 1)
    else (some port, seq + 1)

/-- `connect_guest_stream` up to its `REQUEST`; it answers with the number of the stream. -/
def requestGuestStream (dev : VsockDevice) (guest_port : UInt32) :
    Device Answer (Except ConnectError Nat × VsockDevice) :=
  if dev.failed then pure (.error .requiresReset, dev)
  else if MAX_CONNECTIONS ≤ dev.connections.length then pure (.error .cap, dev)
  else do
    if ← call Call.pair then
      match selectPort dev guest_port portSpan.toNat dev.next_host_port with
      | (none, seq) => return (.error .ports, { dev with next_host_port := seq })
      | (some port, seq) =>
        let key : ConnectionKey := ⟨dev.guest_cid, guest_port, port⟩
        let opened :=
          { dev with
            next_host_port := seq
            connections :=
              Connections.insert dev.connections key ⟨dev.opened, DEFAULT_BUF_ALLOC, 0, 0, false⟩
            opened := dev.opened + 1 }
        return (.ok dev.opened, opened.send (hostPacket key PacketOp.REQUEST 0 [] 0 none))
    else return (.error .pair, dev)

def connectGuestStream (dev : VsockDevice) (guest_port : UInt32) :
    Device Answer (Option (Except ConnectError Nat × VsockDevice)) := do
  match ← requestGuestStream dev guest_port with
  | (.error e, dev) => return some (.error e, dev)
  | (.ok stream, dev) =>
    match ← processRxQueue L fuel dev.flush with
    | none => return none
    | some (.error _, dev) => return some (.error .requiresReset, dev)
    | some (.ok _, dev) => return some (.ok stream, dev)

/-! ## Snapshots -/

structure VsockConnectionState where
  key : ConnectionKey
  fwd_cnt : UInt32
  deriving DecidableEq

structure VsockState where
  rx_queue : QueueState
  tx_queue : QueueState
  interrupt_status : Bool
  connections : List VsockConnectionState
  deriving DecidableEq

/-- A queue with the indices of its walker. -/
def QueueState.saved (q : QueueState) (processor : Option VirtQueueProcessor) : QueueState :=
  match processor with
  | none => q
  | some p => { q with last_avail_idx := p.last_avail_idx, last_used_idx := p.last_used_idx }

/-- `snapshot_state`; a failed device is not saved. -/
def VsockDevice.snapshotState (dev : VsockDevice) : Option VsockState :=
  if dev.failed then none
  else
    some
      { rx_queue := dev.rx_queue.saved dev.rx_processor
        tx_queue := dev.tx_queue.saved dev.tx_processor
        interrupt_status := dev.interrupt_status
        connections := dev.connections.map fun c => ⟨c.1, c.2.fwd_cnt⟩ }

def VsockDevice.applyTransportState (dev : VsockDevice) (state : VsockState) : VsockDevice :=
  { dev with
    failed := false
    rx_queue := state.rx_queue
    tx_queue := state.tx_queue
    rx_processor := none
    tx_processor := none
    pending_rx := []
    connections := []
    interrupt_status := state.interrupt_status }

def VsockDevice.queueResets (dev : VsockDevice) (connections : List VsockConnectionState) :
    VsockDevice :=
  let keys := connections.map VsockConnectionState.key
  connections.foldl
    (fun dev c => dev.enqueueRx (hostPacket c.key PacketOp.RST 0 [] c.fwd_cnt none))
    { dev with connections := dev.connections.filter fun c => c.1 ∉ keys }

def resetRestoredConnections (dev : VsockDevice) (connections : List VsockConnectionState) :
    Device Answer (Option (Except MmioError Nat × VsockDevice)) :=
  if dev.failed then pure (some (.error .device, dev))
  else if connections = [] then pure (some (.ok 0, dev))
  else do
    match ← processRxQueue L fuel (dev.queueResets connections) with
    | none => return none
    | some (.error e, dev) => return some (.error e, dev)
    | some (.ok _, dev) => return some (.ok connections.length, dev)

end Calls

/-- The guest writes 0 to the status register. -/
def VsockDevice.reset (dev : VsockDevice) : VsockDevice :=
  { dev with
    failed := false
    rx_queue := .default
    tx_queue := .default
    rx_processor := none
    tx_processor := none
    pending_rx := []
    connections := []
    interrupt_status := false
    history := .reset :: dev.history }

end Tarit.Virtio.Vsock
