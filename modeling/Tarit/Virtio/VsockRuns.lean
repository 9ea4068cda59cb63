import Tarit.Virtio.Rules
import Tarit.Virtio.Vsock

/-!
# Runs of the vsock device

The calls of the device are made of short sections: a packet of the guest is handled, the first
pending packet goes into a buffer, the host streams are read once, a packet in flight is queued, a
host stream is opened. `Step` says what one section does to the device. Every call is a run of
sections, on any guest memory and with any answers of the host, so what all sections keep holds
however the calls of several threads interleave.
-/
namespace Tarit.Virtio.Vsock

open Lib Live Snapshot Prog List

/-! ## The table of connections -/

variable {cs : Connections} {c : ConnectionKey × Connection}

namespace Connections

variable {key : ConnectionKey}

theorem mem_remove : c ∈ remove cs key ↔ c ∈ cs ∧ c.1 ≠ key := by
  simp [remove]

theorem mem_insert {conn : Connection} :
    c ∈ insert cs key conn ↔ (c ∈ cs ∧ c.1 ≠ key) ∨ c = (key, conn) := by
  simp [insert, mem_remove]

theorem mem_modify {f : Connection → Connection} (h : c ∈ modify cs key f) :
    ∃ d, (c.1, d) ∈ cs ∧ (c.2 = d ∨ c.1 = key ∧ c.2 = f d) := by
  obtain ⟨x, hx, rfl⟩ := mem_map.mp h
  split
  · next heq => exact ⟨x.2, hx, .inr ⟨heq, rfl⟩⟩
  · exact ⟨x.2, hx, .inl rfl⟩

@[simp] theorem keys_modify {f : Connection → Connection} :
    (modify cs key f).map Prod.fst = cs.map Prod.fst := by
  rw [modify, map_map]
  apply map_congr_left
  intro c _
  dsimp only [Function.comp]
  split <;> rfl

def Has (cs : Connections) (key : ConnectionKey) : Prop := key ∈ cs.map Prod.fst

theorem has_insert {conn : Connection} {k : ConnectionKey} :
    Has (insert cs key conn) k ↔ Has cs k ∨ k = key := by
  by_cases hk : k = key
  · simp [Has, insert, hk]
  · simp [Has, insert, remove, hk]

theorem has_remove {k : ConnectionKey} : Has (remove cs key) k ↔ Has cs k ∧ k ≠ key := by
  by_cases hk : k = key <;> simp [Has, remove, hk]

end Connections

/-! ## The pending queue -/

namespace VsockDevice

variable (dev : VsockDevice) (packet : VsockPacket)

@[simp] theorem enqueueRx_connections : (dev.enqueueRx packet).connections = dev.connections := by
  unfold enqueueRx
  split <;> rfl

@[simp] theorem enqueueRx_history : (dev.enqueueRx packet).history = dev.history := by
  unfold enqueueRx
  split <;> rfl

@[simp] theorem enqueueRx_opened : (dev.enqueueRx packet).opened = dev.opened := by
  unfold enqueueRx
  split <;> rfl

@[simp] theorem enqueueRx_in_flight : (dev.enqueueRx packet).in_flight = dev.in_flight := by
  unfold enqueueRx
  split <;> rfl

@[simp] theorem enqueueRx_rx_processor :
    (dev.enqueueRx packet).rx_processor = dev.rx_processor := by
  unfold enqueueRx
  split <;> rfl

@[simp] theorem send_connections : (dev.send packet).connections = dev.connections := rfl

@[simp] theorem flush_connections : dev.flush.connections = dev.connections := by
  have hflight (flight : List VsockPacket) (dev : VsockDevice) :
      (dev.enqueueFlight flight).connections = dev.connections := by
    induction flight generalizing dev with
    | nil => rfl
    | cons p ps ih => rw [enqueueFlight, ih, enqueueRx_connections]
  exact hflight _ dev

/-- A packet is queued or dropped. -/
theorem enqueueRx_pending :
    (dev.enqueueRx packet).pending_rx = dev.pending_rx ∨
      (dev.enqueueRx packet).pending_rx = dev.pending_rx ++ [packet] := by
  unfold enqueueRx
  split
  · exact .inl rfl
  · exact .inr rfl

variable {dev packet}

theorem enqueueRx_room (h : dev.pending_rx.length < MAX_PENDING_RX) :
    (dev.enqueueRx packet).pending_rx = dev.pending_rx ++ [packet] := by
  rw [enqueueRx, if_neg (by omega)]

variable {packets : List VsockPacket}

/-- What queueing a packet leaves as it is, queueing packets leaves. -/
theorem enqueueAll_kept {α : Type} (field : VsockDevice → α)
    (h : ∀ dev packet, field (dev.enqueueRx packet) = field dev) :
    field (packets.foldl enqueueRx dev) = field dev := by
  induction packets generalizing dev with
  | nil => rfl
  | cons p ps ih => rw [foldl_cons, ih, h]

@[simp] theorem enqueueAll_connections :
    (packets.foldl enqueueRx dev).connections = dev.connections :=
  enqueueAll_kept connections enqueueRx_connections

@[simp] theorem enqueueAll_history : (packets.foldl enqueueRx dev).history = dev.history :=
  enqueueAll_kept history enqueueRx_history

@[simp] theorem enqueueAll_opened : (packets.foldl enqueueRx dev).opened = dev.opened :=
  enqueueAll_kept opened enqueueRx_opened

@[simp] theorem enqueueAll_in_flight :
    (packets.foldl enqueueRx dev).in_flight = dev.in_flight :=
  enqueueAll_kept in_flight enqueueRx_in_flight

@[simp] theorem enqueueAll_rx_processor :
    (packets.foldl enqueueRx dev).rx_processor = dev.rx_processor :=
  enqueueAll_kept rx_processor enqueueRx_rx_processor

theorem enqueueAll_pending :
    ∃ queued, queued.Sublist packets ∧
      (packets.foldl enqueueRx dev).pending_rx = dev.pending_rx ++ queued := by
  induction packets generalizing dev with
  | nil => exact ⟨[], .slnil, by simp⟩
  | cons p ps ih =>
    rw [foldl_cons]
    obtain ⟨queued, hsub, heq⟩ : ∃ queued, queued.Sublist ps ∧
        (ps.foldl enqueueRx (dev.enqueueRx p)).pending_rx = (dev.enqueueRx p).pending_rx ++
          queued :=
      ih
    rw [heq]
    rcases enqueueRx_pending dev p with hp | hp
    · exact ⟨queued, hsub.cons p, by rw [hp]⟩
    · exact ⟨p :: queued, hsub.cons_cons p, by simp [hp]⟩

theorem enqueueAll_room (h : dev.pending_rx.length + packets.length ≤ MAX_PENDING_RX) :
    (packets.foldl enqueueRx dev).pending_rx = dev.pending_rx ++ packets := by
  induction packets generalizing dev with
  | nil => simp
  | cons p ps ih =>
    rw [length_cons] at h
    have hp : (dev.enqueueRx p).pending_rx = dev.pending_rx ++ [p] := enqueueRx_room (by omega)
    rw [foldl_cons, ih (by rw [hp, length_append, length_singleton]; omega), hp]
    simp

end VsockDevice

/-! ## Packets of the guest -/

/-- What handling a packet of the guest does to a device that already recorded it. -/
inductive Handled (dev : VsockDevice) (header : VsockPacketHeader) : VsockDevice → Prop where
  | refused : Handled dev header (dev.send (replyPacket header PacketOp.RST 0 0))
  | accepted (htype : header.type_ = STREAM) (hop : header.op = PacketOp.REQUEST)
      (hcap : Connections.insertWouldExceedCap dev.connections (keyFromGuest header) = false) :
      Handled dev header
        ({ dev with
            connections := Connections.insert dev.connections (keyFromGuest header)
              ⟨dev.opened, header.buf_alloc, header.fwd_cnt, 0, true⟩
            opened := dev.opened + 1 }.enqueueRx (replyPacket header PacketOp.RESPONSE 0 0))
  | reported (f : Connection → Connection) (htype : header.type_ = STREAM)
      (hop : header.op ≠ PacketOp.REQUEST ∧ header.op ≠ PacketOp.RST)
      (hstream : ∀ conn, (f conn).stream = conn.stream) :
      Handled dev header
        { dev with connections := Connections.modify dev.connections (keyFromGuest header) f }
  | credit (fwd_cnt : UInt32) (hop : header.op = PacketOp.CREDIT_REQUEST) :
      Handled dev header (dev.send (replyPacket header PacketOp.CREDIT_UPDATE 0 fwd_cnt))
  | broken (htype : header.type_ = STREAM) (hop : header.op = PacketOp.RW) :
      Handled dev header
        ({ dev with connections := Connections.remove dev.connections (keyFromGuest header) }.send
          (replyPacket header PacketOp.RST 0 0))
  | shutdown (htype : header.type_ = STREAM) (hop : header.op = PacketOp.SHUTDOWN) :
      Handled dev header
        ({ dev with connections := Connections.remove dev.connections (keyFromGuest header) }.send
          (replyPacket header PacketOp.SHUTDOWN header.flags 0))
  | closed (htype : header.type_ = STREAM) (hop : header.op = PacketOp.RST) :
      Handled dev header
        { dev with connections := Connections.remove dev.connections (keyFromGuest header) }
  | ignored (hop : header.op = PacketOp.INVALID) : Handled dev header dev

def VsockDevice.receive (dev : VsockDevice) (header : VsockPacketHeader) : VsockDevice :=
  { dev with history := .received header :: dev.history }

variable {header : VsockPacketHeader} {dev dev' : VsockDevice} {op : UInt16}
  {flags fwd_cnt : UInt32} {events : List Event}

theorem handleRequest_handled (htype : header.type_ = STREAM) (hop : header.op = PacketOp.REQUEST) :
    (handleRequest dev header).Gives (Handled dev header) := by
  unfold handleRequest
  dsimp only
  split
  · exact .refused
  split
  · exact .refused
  split
  · exact .refused
  rename_i hcap
  apply gives_skip
  intro ok
  cases ok with
  | false => exact .refused
  | true => exact .accepted htype hop (by simpa using hcap)

theorem handleRw_handled (data : Bytes) (htype : header.type_ = STREAM)
    (hop : header.op = PacketOp.RW) : (handleRw dev header data).Gives (Handled dev header) := by
  unfold handleRw
  dsimp only
  split
  · exact .broken htype hop
  apply gives_skip
  intro ok
  cases ok with
  | false => exact .broken htype hop
  | true =>
    have hne : header.op ≠ PacketOp.REQUEST ∧ header.op ≠ PacketOp.RST := by
      rw [hop]
      decide
    exact .reported _ htype hne fun _ => rfl

theorem handleTxPacket_handled (packet : VsockPacket) :
    (handleTxPacket dev packet).Gives (Handled (dev.receive packet.header) packet.header) := by
  have hne {op : UInt16} (hop : packet.header.op = op)
      (h : op ≠ PacketOp.REQUEST ∧ op ≠ PacketOp.RST) :
      packet.header.op ≠ PacketOp.REQUEST ∧ packet.header.op ≠ PacketOp.RST := hop ▸ h
  -- One branch for each packet type, in the order of the source.
  apply gives_ite
  · exact fun _ => .refused
  intro htype
  have htype : packet.header.type_ = STREAM := Decidable.not_not.mp htype
  apply gives_ite (handleRequest_handled htype)
  intro _
  apply gives_ite
  · exact fun hop => .reported _ htype (hne hop (by decide)) fun _ => rfl
  intro _
  apply gives_ite (handleRw_handled _ htype)
  intro _
  apply gives_ite
  · exact fun hop => .reported _ htype (hne hop (by decide)) fun _ => rfl
  intro _
  apply gives_ite
  · exact fun hop => .credit _ hop
  intro _
  apply gives_ite
  · exact fun hop => .shutdown htype hop
  intro _
  apply gives_ite
  · exact fun hop => .closed htype hop
  intro _
  apply gives_ite
  · exact fun hop => .ignored hop
  · exact fun _ => .refused

theorem Handled.history (h : Handled dev header dev') : dev'.history = dev.history := by
  cases h <;> first | rfl | exact VsockDevice.enqueueRx_history ..

/-- What asking for a stream to the guest does to the device. -/
inductive Requested (dev : VsockDevice) : VsockDevice → Prop where
  | refused (seq : UInt32) : Requested dev { dev with next_host_port := seq }
  | opened (key : ConnectionKey) (seq : UInt32) (hcap : dev.connections.length < MAX_CONNECTIONS) :
      Requested dev
        ({ dev with
            next_host_port := seq
            connections :=
              Connections.insert dev.connections key ⟨dev.opened, DEFAULT_BUF_ALLOC, 0, 0, false⟩
            opened := dev.opened + 1 }.send (hostPacket key PacketOp.REQUEST 0 [] 0 none))

theorem requestGuestStream_requested (guest_port : UInt32) :
    (requestGuestStream dev guest_port).Gives fun r => Requested dev r.2 := by
  unfold requestGuestStream
  split
  · exact .refused dev.next_host_port
  split
  · exact .refused dev.next_host_port
  rename_i hcap
  apply gives_skip
  intro ok
  cases ok with
  | false => exact .refused dev.next_host_port
  | true =>
    rw [if_pos rfl]
    split
    · exact .refused _
    · exact .opened _ _ (by omega)

theorem Requested.history (h : Requested dev dev') : dev'.history = dev.history := by
  cases h <;> rfl

/-! ## Packets for the guest -/

namespace VsockPacket

variable (p : VsockPacket)

def key : ConnectionKey := ⟨p.header.dst_cid, p.header.dst_port, p.header.src_port⟩

/-- The packet tells the guest that a connection is open. -/
def Opening : Prop := p.header.op = PacketOp.REQUEST ∨ p.header.op = PacketOp.RESPONSE

/-- Both directions are shut down. -/
def FullShutdown (flags : UInt32) : Prop :=
  flags &&& (ShutdownFlags.RCV ||| ShutdownFlags.SEND) = ShutdownFlags.RCV ||| ShutdownFlags.SEND

/-- The packet tells the guest that a connection is closed. -/
def Closing : Prop :=
  p.header.op = PacketOp.RST ∨ p.header.op = PacketOp.SHUTDOWN ∧ FullShutdown p.header.flags

instance : Decidable p.Opening := inferInstanceAs (Decidable (_ ∨ _))

instance (flags : UInt32) : Decidable (FullShutdown flags) := inferInstanceAs (Decidable (_ = _))

instance : Decidable p.Closing := inferInstanceAs (Decidable (_ ∨ _ ∧ _))

def payload (s : Nat) : Bytes := if p.stream = some s then p.data else []

theorem fullShutdown_both : FullShutdown (ShutdownFlags.RCV ||| ShutdownFlags.SEND) := by decide

theorem Closing.not_opening {p : VsockPacket} (h : p.Closing) : ¬ p.Opening := by
  intro ho
  rcases h with h | ⟨h, -⟩ <;> rcases ho with ho | ho <;> rw [h] at ho <;> revert ho <;> decide

end VsockPacket

section HostPacket

variable (k : ConnectionKey) (op : UInt16) (flags : UInt32) (data : Bytes) (fwd_cnt : UInt32)
  (s : Option Nat)

@[simp] theorem hostPacket_stream : (hostPacket k op flags data fwd_cnt s).stream = s := rfl

@[simp] theorem hostPacket_data : (hostPacket k op flags data fwd_cnt s).data = data := rfl

end HostPacket

def waiting (s : Nat) (packets : List VsockPacket) : Bytes := packets.flatMap fun p => p.payload s

def takenFrom (s : Nat) : List Event → Bytes
  | .taken _ stream bytes :: events =>
    takenFrom s events ++ if stream = s then bytes else []
  | _ :: events => takenFrom s events
  | [] => []

def deliveredFrom (s : Nat) : List Event → Bytes
  | .delivered packet :: events => deliveredFrom s events ++ packet.payload s
  | _ :: events => deliveredFrom s events
  | [] => []

/-! ## Reading the host streams -/

/-- What reading the streams of a table gives. -/
structure Pumped.Sound (cs : Connections) (p : Pumped) : Prop where
  packets : ∀ x ∈ p.packets, ¬ x.Opening ∧ ∃ c ∈ cs, x.stream = some c.2.stream
  closed : ∀ k ∈ p.closed, (∃ x ∈ p.packets, x.key = k ∧ x.Closing) ∧
    ∃ conn, (k, conn) ∈ cs ∧ conn.established = true
  events : ∀ e ∈ p.taken, ∃ c ∈ cs, c.2.established ∧ ∃ bytes, e = .taken c.1 c.2.stream bytes
  taken : ∀ s events, takenFrom s (p.taken ++ events) = takenFrom s events ++ waiting s p.packets

theorem Pumped.sound_nil (cs : Connections) : Pumped.Sound cs ⟨[], [], []⟩ :=
  ⟨nofun, nofun, nofun, fun s events => by simp [waiting]⟩

/-- What does not look at the bytes read is the same before and after a reading. -/
theorem Pumped.Sound.ignored {α : Type} {cs : Connections} {p : Pumped} (h : p.Sound cs)
    (f : List Event → α)
    (hf : ∀ key stream bytes events, f (.taken key stream bytes :: events) = f events) :
    f (p.taken ++ events) = f events := by
  have hevents := h.events
  generalize p.taken = taken at hevents
  induction taken with
  | nil => rfl
  | cons e es ih =>
    obtain ⟨c, -, -, bytes, rfl⟩ := hevents e (mem_cons_self ..)
    rw [cons_append, hf]
    exact ih fun e he => hevents e (mem_cons_of_mem _ he)

section Pump

variable {p : Pumped}

theorem Pumped.Sound.close (h : p.Sound cs) (hc : c ∈ cs) (hopen : c.2.established = true)
    {x : VsockPacket} (hkey : x.key = c.1) (hclosing : x.Closing)
    (hstream : x.stream = some c.2.stream) (hdata : x.data = []) :
    Pumped.Sound cs { p with packets := p.packets ++ [x], closed := p.closed ++ [c.1] } where
  packets := forall_mem_append.mpr ⟨h.packets,
    forall_mem_singleton.mpr ⟨hclosing.not_opening, c, hc, hstream⟩⟩
  closed := by
    refine forall_mem_append.mpr ⟨fun k hk => ?_,
      forall_mem_singleton.mpr ⟨⟨x, by simp, hkey, hclosing⟩, c.2, hc, hopen⟩⟩
    obtain ⟨⟨y, hy, hclosed⟩, hk⟩ := h.closed k hk
    exact ⟨⟨y, mem_append_left _ hy, hclosed⟩, hk⟩
  events := h.events
  taken s events := by
    rw [h.taken, waiting, waiting, flatMap_append]
    simp [VsockPacket.payload, hdata]

theorem Pumped.Sound.read (h : p.Sound cs) (hc : c ∈ cs) (hopen : c.2.established) (bytes : Bytes)
    (fwd_cnt : UInt32) :
    Pumped.Sound cs
      { p with
        packets := p.packets ++ [hostPacket c.1 PacketOp.RW 0 bytes fwd_cnt (some c.2.stream)]
        taken := .taken c.1 c.2.stream bytes :: p.taken } where
  packets := by
    refine forall_mem_append.mpr ⟨h.packets, forall_mem_singleton.mpr ⟨?_, c, hc, rfl⟩⟩
    change ¬ (PacketOp.RW = PacketOp.REQUEST ∨ PacketOp.RW = PacketOp.RESPONSE)
    decide
  closed k hk := by
    obtain ⟨⟨y, hy, hclosed⟩, hk⟩ := h.closed k hk
    exact ⟨⟨y, mem_append_left _ hy, hclosed⟩, hk⟩
  events := forall_mem_cons.mpr ⟨⟨c, hc, hopen, bytes, rfl⟩, h.events⟩
  taken s events := by
    have hpayload : (hostPacket c.1 PacketOp.RW 0 bytes fwd_cnt (some c.2.stream)).payload s =
        if c.2.stream = s then bytes else [] := by
      simp [VsockPacket.payload]
    rw [cons_append, takenFrom, h.taken, waiting, waiting, flatMap_append,
      flatMap_singleton, hpayload, append_assoc]

theorem pumpStreams_sound {all : Connections} (hsub : ∀ c ∈ cs, c ∈ all) (h : p.Sound all) :
    (pumpStreams cs p).Gives (Pumped.Sound all) := by
  induction cs generalizing p with
  | nil => exact h
  | cons c cs ih =>
    obtain ⟨key, conn⟩ := c
    have hc : (key, conn) ∈ all := hsub _ (mem_cons_self ..)
    have hcs : ∀ c ∈ cs, c ∈ all := fun c hc => hsub c (mem_cons_of_mem _ hc)
    unfold pumpStreams
    split
    · exact ih hcs h
    rename_i hopen
    have hopen : conn.established = true := by simpa using hopen
    apply gives_skip
    intro read
    cases read with
    | data bytes =>
      cases bytes with
      | nil =>
        exact ih hcs (h.close hc hopen rfl (.inr ⟨rfl, VsockPacket.fullShutdown_both⟩) rfl rfl)
      | cons b bytes => exact ih hcs (h.read hc hopen (b :: bytes) conn.fwd_cnt)
    | blocked => exact ih hcs h
    | failed => exact ih hcs (h.close hc hopen rfl (.inl rfl) rfl rfl)

end Pump

/-! ## Sections -/

/-- What a section starts from, besides the device. -/
inductive Action where
  /-- A packet of the guest is handled. -/
  | packet (packet : VsockPacket)
  /-- The first pending packet is put into a buffer. -/
  | deliver
  /-- The host streams are read; the packets that come of it are in flight. -/
  | pump (p : Pumped)
  /-- A packet in flight is queued. -/
  | enqueue (packet : VsockPacket)
  /-- The host asks for a stream to a port of the guest. -/
  | connect (guest_port : UInt32)
  | reset
  /-- The device is saved, restored into a fresh one, and its connections are reset. -/
  | restore
  /-- Registers, queues and walkers change, or the order in which the table is iterated. -/
  | transport

/-- The fresh device a saved one is restored into. Streams go on being counted. -/
def VsockDevice.restored (dev fresh : VsockDevice) (state : VsockState) : VsockDevice :=
  { fresh.applyTransportState state with opened := dev.opened, history := dev.history }

/-- One section. The threads queue their packets in any order; one of them alone reads the streams,
so the packets of a stream are queued in the order in which it was read. -/
inductive Step : Action → VsockDevice → VsockDevice → Prop where
  | packet {dev dev' : VsockDevice} {packet : VsockPacket}
      (h : (handleTxPacket dev packet).Can dev') : Step (.packet packet) dev dev'
  | deliver {dev : VsockDevice} : Step .deliver dev dev.popRx
  | pump {dev : VsockDevice} {p : Pumped}
      (h : (pumpStreams dev.connections ⟨[], [], []⟩).Can p) : Step (.pump p) dev (dev.pumped p)
  | enqueue {dev : VsockDevice} {packet : VsockPacket} {before after : List VsockPacket}
      (h : dev.in_flight = before ++ packet :: after)
      (horder : ∀ p ∈ before, p.stream = packet.stream → packet.stream = none) :
      Step (.enqueue packet) dev ({ dev with in_flight := before ++ after }.enqueueRx packet)
  | connect {dev dev' : VsockDevice} {guest_port : UInt32} {r : Except ConnectError Nat}
      (h : (requestGuestStream dev guest_port).Can (r, dev')) : Step (.connect guest_port) dev dev'
  | reset {dev : VsockDevice} : Step .reset dev dev.reset
  | restore {dev : VsockDevice} {state : VsockState} {guest_cid : UInt64} {listener : Bool}
      (h : dev.snapshotState = some state) :
      Step .restore dev
        ((dev.restored (.new guest_cid listener) state).queueResets state.connections)
  | transport {dev dev' : VsockDevice} (hconns : dev'.connections.Perm dev.connections)
      (hpending : dev'.pending_rx = dev.pending_rx) (hflight : dev'.in_flight = dev.in_flight)
      (hopened : dev'.opened = dev.opened) (hhistory : dev'.history = dev.history) :
      Step .transport dev dev'

/-- Runs of sections whose start has `ok`. -/
abbrev Reaches (ok : Action → VsockDevice → Prop) : VsockDevice → VsockDevice → Prop :=
  Relation.ReflTransGen fun dev dev' => ∃ a, ok a dev ∧ Step a dev dev'

/-- An invariant of all sections holds along a run. -/
theorem Reaches.invariant {ok : Action → VsockDevice → Prop} {I : VsockDevice → Prop}
    (hstep : ∀ a dev dev', ok a dev → Step a dev dev' → I dev → I dev') (h : Reaches ok dev dev')
    (hI : I dev) : I dev' := by
  induction h with
  | refl => exact hI
  | tail _ hlast ih =>
    obtain ⟨a, hok, hlast⟩ := hlast
    exact hstep a _ _ hok hlast ih

/-! ## Every call is a run of sections -/

abbrev Run : VsockDevice → VsockDevice → Prop := Reaches fun _ _ => True

theorem Step.run {a : Action} (h : Step a dev dev') : Run dev dev' := .single ⟨a, trivial, h⟩

/-- Registers and walkers are no part of the connections. -/
theorem run_transport (hconns : dev'.connections = dev.connections)
    (hpending : dev'.pending_rx = dev.pending_rx) (hflight : dev'.in_flight = dev.in_flight)
    (hopened : dev'.opened = dev.opened) (hhistory : dev'.history = dev.history) : Run dev dev' :=
  (Step.transport (.of_eq hconns) hpending hflight hopened hhistory).run

/-- Queueing everything in flight is a run of sections. -/
theorem flush_run (dev : VsockDevice) : Run dev dev.flush := by
  have hrun (flight : List VsockPacket) (dev : VsockDevice) (h : dev.in_flight = flight) :
      Run dev (dev.enqueueFlight flight) := by
    induction flight generalizing dev with
    | nil => exact .refl
    | cons packet rest ih =>
      have hfirst : Step (.enqueue packet) dev ({ dev with in_flight := rest }.enqueueRx packet) :=
        @Step.enqueue dev packet [] rest h nofun
      exact hfirst.run.trans (ih _ (VsockDevice.enqueueRx_in_flight _ _))
  exact hrun _ dev rfl

theorem txHandler_run (dev : VsockDevice) (readable writable : List Buf) :
    (txHandler dev readable writable).Gives fun r => Run dev r.2 := by
  unfold txHandler
  split
  · exact .refl
  apply gives_skip
  intro packet
  cases packet with
  | none => exact .refl
  | some packet =>
    apply gives_bind (gives_can (handleTxPacket dev packet))
    intro dev' hdev'
    exact (Step.packet hdev').run.trans (flush_run _)

theorem rxHandler_run (dev : VsockDevice) (readable writable : List Buf) :
    (rxHandler dev readable writable).Gives fun r => Run dev r.2 := by
  unfold rxHandler
  split
  · exact .refl
  dsimp only
  split
  · exact .refl
  apply gives_skip
  intro ok
  cases ok with
  | false => exact .refl
  | true => exact Step.deliver.run

section Calls

variable {L : Layout} {fuel : Nat}

def LeftBy (R : VsockDevice → Prop) {ε : Type} (r : Option (ε × VsockDevice)) : Prop :=
  ∀ e dev, r = some (e, dev) → R dev

variable {ε : Type}

theorem leftBy_some {R : VsockDevice → Prop} {e : ε} (h : R dev) : LeftBy R (some (e, dev)) := by
  intro _ _ heq
  cases heq
  exact h

theorem leftBy_none {R : VsockDevice → Prop} : LeftBy R (none : Option (ε × VsockDevice)) := by
  intro _ _ heq
  cases heq

/-- Serving a queue is a run of the device, whatever the guest memory answers. -/
theorem processRxQueue_run : (processRxQueue L fuel dev).Gives (LeftBy (Run dev)) := by
  unfold processRxQueue
  split
  · exact leftBy_some .refl
  split
  · exact leftBy_some .refl
  apply gives_bind (process_captured (fun _ => .refl)
    (fun _ _ _ h h' => h.trans h') rxHandler_run fuel _ dev)
  intro r hr
  cases r with
  | none => exact leftBy_none
  | some s =>
    apply leftBy_some
    apply (hr s rfl).trans
    split <;> exact run_transport rfl rfl rfl rfl rfl

theorem processRxQueue_then {start : VsockDevice} (h : Run start dev)
    {k : Option (Except Net.MmioError Nat × VsockDevice) → Device Answer (Option (ε × VsockDevice))}
    (hnone : (k none).Gives (LeftBy (Run start)))
    (hsome : ∀ e dev, Run start dev → (k (some (e, dev))).Gives (LeftBy (Run start))) :
    (processRxQueue L fuel dev >>= k).Gives (LeftBy (Run start)) := by
  apply gives_bind processRxQueue_run
  intro r hr
  match r with
  | none => exact hnone
  | some (e, dev') => exact hsome e dev' (h.trans (hr e dev' rfl))

/-- The packets of the guest first, then the answers to them. -/
theorem processTxQueue_run : (processTxQueue L fuel dev).Gives (LeftBy (Run dev)) := by
  unfold processTxQueue
  split
  · exact leftBy_some .refl
  split
  · exact leftBy_some .refl
  apply gives_bind (process_captured (fun _ => .refl)
    (fun _ _ _ h h' => h.trans h') txHandler_run fuel _ dev)
  intro r hr
  cases r with
  | none => exact leftBy_none
  | some s =>
    dsimp only
    split
    · have hleft : Run dev { s.captured with tx_processor := some s.queue }.triggerInterrupt :=
        (hr s rfl).trans (run_transport rfl rfl rfl rfl rfl)
      apply processRxQueue_then hleft
      · exact leftBy_none
      · intro e dev' hdev'
        cases e with
        | error e | ok n => exact leftBy_some hdev'
    · exact leftBy_some ((hr s rfl).trans (run_transport rfl rfl rfl rfl rfl))

theorem pumpHostStreams_run : (pumpHostStreams L fuel dev).Gives (LeftBy (Run dev)) := by
  unfold pumpHostStreams
  split
  · exact leftBy_some .refl
  apply gives_bind (gives_can (pumpStreams dev.connections ⟨[], [], []⟩))
  intro p hp
  apply processRxQueue_then ((Step.pump hp).run.trans (flush_run _))
  · exact leftBy_none
  · intro e dev' hdev'
    cases e with
    | error e | ok n => exact leftBy_some hdev'

theorem connectGuestStream_run (guest_port : UInt32) :
    (connectGuestStream L fuel dev guest_port).Gives (LeftBy (Run dev)) := by
  apply gives_bind (gives_can (requestGuestStream dev guest_port))
  intro r hr
  obtain ⟨e, dev'⟩ := r
  cases e with
  | error e => exact leftBy_some (Step.connect hr).run
  | ok s =>
    apply processRxQueue_then ((Step.connect hr).run.trans (flush_run _))
    · exact leftBy_none
    · intro e dev'' hdev''
      cases e with
      | error e | ok n => exact leftBy_some hdev''

end Calls

end Tarit.Virtio.Vsock
