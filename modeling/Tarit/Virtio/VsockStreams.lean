import Tarit.Virtio.VsockRuns

/-!
# What the guest gets of a host stream

The bytes read from a stream leave the host before their packet is queued, and a full queue drops
the packet: the guest then misses bytes in the middle of the stream and is told nothing. While
the queue has room whenever bytes are queued, and the driver does not reset the device with bytes
in flight, what is delivered is a prefix of what was read.
-/
namespace Tarit.Virtio.Vsock

open Lib Live Snapshot VsockDevice List

@[simp] theorem waiting_append (s : Nat) (ps qs : List VsockPacket) :
    waiting s (ps ++ qs) = waiting s ps ++ waiting s qs := flatMap_append ..

variable {s : Nat} {dev dev' : VsockDevice} {a : Action} {p : Pumped} {guest_cid : UInt64}
  {listener : Bool}

theorem waiting_eq_nil {ps : List VsockPacket} (h : ∀ p ∈ ps, p.stream ≠ some s) :
    waiting s ps = [] := by
  rw [waiting, flatMap_eq_nil_iff]
  intro p hp
  rw [VsockPacket.payload, if_neg (h p hp)]

/-- The bytes of a stream are the same when its first packet is taken out. -/
theorem waiting_first {packet : VsockPacket} {before after : List VsockPacket}
    (horder : ∀ p ∈ before, p.stream = packet.stream → packet.stream = none) :
    waiting s (before ++ packet :: after) = packet.payload s ++ waiting s (before ++ after) := by
  have hcons : waiting s (packet :: after) = packet.payload s ++ waiting s after := flatMap_cons
  rw [waiting_append, waiting_append, hcons]
  by_cases hs : packet.stream = some s
  · have hbefore : waiting s before = [] := by
      apply waiting_eq_nil
      intro p hp heq
      rw [← hs] at heq
      rw [horder p hp heq] at hs
      cases hs
    rw [hbefore, nil_append, nil_append]
  · rw [VsockPacket.payload, if_neg hs, nil_append, nil_append]

theorem waiting_sublist {ps qs : List VsockPacket} (h : ps.Sublist qs) :
    (waiting s ps).length ≤ (waiting s qs).length :=
  (h.flatMap fun p : VsockPacket => p.payload s).length_le

/-- The bytes of a stream that were read and not delivered yet. -/
def underWay (dev : VsockDevice) (s : Nat) : Bytes :=
  waiting s dev.pending_rx ++ waiting s dev.in_flight

/-! ## Sections that move no bytes -/

/-- A section that neither reads a stream nor delivers a packet, and drops none. -/
structure Quiet (dev dev' : VsockDevice) : Prop where
  opened : dev.opened ≤ dev'.opened
  connections : ∀ c ∈ dev'.connections,
    (c.2.stream = dev.opened ∧ dev.opened < dev'.opened) ∨ ∃ d ∈ dev.connections,
    d.2.stream = c.2.stream
  pending : ∃ added, dev'.pending_rx = dev.pending_rx ++ added ∧ ∀ p ∈ added, p.stream = none
  flight : ∃ added, dev'.in_flight = dev.in_flight ++ added ∧ ∀ p ∈ added, p.stream = none
  taken : ∀ s, takenFrom s dev'.history = takenFrom s dev.history
  delivered : ∀ s, deliveredFrom s dev'.history = deliveredFrom s dev.history

namespace Quiet

variable {dev'' : VsockDevice}

theorem waiting (h : Quiet dev dev') (s : Nat) :
    waiting s dev'.pending_rx = waiting s dev.pending_rx := by
  obtain ⟨added, heq, hadded⟩ := h.pending
  have hnil : Vsock.waiting s added = [] := waiting_eq_nil fun p hp => by simp [hadded p hp]
  rw [heq, waiting_append, hnil, append_nil]

theorem underWay (h : Quiet dev dev') (s : Nat) : underWay dev' s = underWay dev s := by
  obtain ⟨added, heq, hadded⟩ := h.flight
  have hnil : Vsock.waiting s added = [] := waiting_eq_nil fun p hp => by simp [hadded p hp]
  rw [Vsock.underWay, Vsock.underWay, h.waiting, heq, waiting_append, hnil, append_nil]

theorem of_table (hopened : dev.opened ≤ dev'.opened)
    (hconns : ∀ c ∈ dev'.connections, (c.2.stream = dev.opened ∧ dev.opened < dev'.opened) ∨
      ∃ d ∈ dev.connections, d.2.stream = c.2.stream)
    (hpending : dev'.pending_rx = dev.pending_rx) (hflight : dev'.in_flight = dev.in_flight)
    (hhistory : dev'.history = dev.history) : Quiet dev dev' where
  opened := hopened
  connections := hconns
  pending := ⟨[], by rw [hpending, append_nil], nofun⟩
  flight := ⟨[], by rw [hflight, append_nil], nofun⟩
  taken s := by rw [hhistory]
  delivered s := by rw [hhistory]

theorem enqueueRx (h : Quiet dev dev') {packet : VsockPacket} (hp : packet.stream = none) :
    Quiet dev (dev'.enqueueRx packet) where
  opened := by rw [enqueueRx_opened]; exact h.opened
  connections := by
    rw [enqueueRx_connections, enqueueRx_opened]
    exact h.connections
  pending := by
    obtain ⟨added, heq, hadded⟩ := h.pending
    rcases enqueueRx_pending dev' packet with h' | h'
    · exact ⟨added, h'.trans heq, hadded⟩
    · exact ⟨added ++ [packet], by rw [h', heq, append_assoc],
        forall_mem_append.mpr ⟨hadded, forall_mem_singleton.mpr hp⟩⟩
  flight := by
    rw [enqueueRx_in_flight]
    exact h.flight
  taken s := by rw [enqueueRx_history]; exact h.taken s
  delivered s := by rw [enqueueRx_history]; exact h.delivered s

theorem send (h : Quiet dev dev') {packet : VsockPacket} (hp : packet.stream = none) :
    Quiet dev (dev'.send packet) where
  opened := h.opened
  connections := h.connections
  pending := h.pending
  flight := by
    obtain ⟨added, heq, hadded⟩ := h.flight
    refine ⟨added ++ [packet], ?_, forall_mem_append.mpr ⟨hadded, forall_mem_singleton.mpr hp⟩⟩
    rw [VsockDevice.send, heq, append_assoc]
  taken := h.taken
  delivered := h.delivered

theorem refl (dev : VsockDevice) : Quiet dev dev :=
  of_table (le_refl _) (fun c hc => .inr ⟨c, hc, rfl⟩) rfl rfl rfl

theorem of_subset (hopened : dev'.opened = dev.opened)
    (hconns : ∀ c ∈ dev'.connections, c ∈ dev.connections)
    (hpending : dev'.pending_rx = dev.pending_rx) (hflight : dev'.in_flight = dev.in_flight)
    (hhistory : dev'.history = dev.history) : Quiet dev dev' :=
  of_table (le_of_eq hopened.symm)
    (fun c hc => .inr ⟨c, hconns c hc, rfl⟩) hpending hflight hhistory

theorem of_insert {key : ConnectionKey} {conn : Connection} (hopened : dev'.opened = dev.opened + 1)
    (hstream : conn.stream = dev.opened)
    (hconns : dev'.connections = Connections.insert dev.connections key conn)
    (hpending : dev'.pending_rx = dev.pending_rx) (hflight : dev'.in_flight = dev.in_flight)
    (hhistory : dev'.history = dev.history) : Quiet dev dev' := by
  apply of_table (by omega) _ hpending hflight hhistory
  intro c hc
  rw [hconns] at hc
  rcases Connections.mem_insert.mp hc with ⟨hc, -⟩ | rfl
  · exact .inr ⟨c, hc, rfl⟩
  · exact .inl ⟨hstream, by omega⟩

end Quiet

theorem Handled.quiet {header : VsockPacketHeader} (h : Handled dev header dev') :
    Quiet dev dev' := by
  have hsub (c : ConnectionKey × Connection)
      (hc : c ∈ Connections.remove dev.connections (keyFromGuest header)) : c ∈ dev.connections :=
    (Connections.mem_remove.mp hc).1
  cases h with
  | refused | credit => exact (Quiet.refl dev).send rfl
  | accepted =>
    apply Quiet.enqueueRx
    · exact .of_insert rfl rfl rfl rfl rfl rfl
    · rfl
  | reported f htype hop hstream =>
    have hconns (c : ConnectionKey × Connection)
        (hc : c ∈ Connections.modify dev.connections (keyFromGuest header) f) :
        ∃ d ∈ dev.connections, d.2.stream = c.2.stream := by
      obtain ⟨d, hd, hcd⟩ := Connections.mem_modify hc
      refine ⟨_, hd, ?_⟩
      rcases hcd with hcd | ⟨-, hcd⟩
      · rw [hcd]
      · rw [hcd, hstream]
    exact .of_table (le_refl _) (fun c hc => .inr (hconns c hc)) rfl rfl rfl
  | broken | shutdown =>
    apply Quiet.send
    · exact .of_subset rfl hsub rfl rfl rfl
    · rfl
  | closed => exact .of_subset rfl hsub rfl rfl rfl
  | ignored => exact .refl dev

theorem Quiet.receive {header : VsockPacketHeader} (h : Quiet (dev.receive header) dev') :
    Quiet dev dev' := { h with }

theorem Requested.quiet (h : Requested dev dev') : Quiet dev dev' := by
  cases h with
  | refused seq => exact .of_subset rfl (fun _ hc => hc) rfl rfl rfl
  | opened key seq hcap =>
    apply Quiet.send
    · exact .of_insert rfl rfl rfl rfl rfl rfl
    · exact hostPacket_stream ..

/-- Sections that end all connections. They reach no packet that is in flight. -/
structure Cleared (dev dev' : VsockDevice) : Prop where
  opened : dev'.opened = dev.opened
  connections : dev'.connections = []
  pending : ∀ p ∈ dev'.pending_rx, p.stream = none
  flight : dev'.in_flight.Sublist dev.in_flight
  taken : ∀ s, takenFrom s dev'.history = takenFrom s dev.history
  delivered : ∀ s, deliveredFrom s dev'.history = deliveredFrom s dev.history

theorem queueResets_eq (states : List VsockConnectionState) :
    dev.queueResets states =
      (states.map fun c => hostPacket c.key PacketOp.RST 0 [] c.fwd_cnt none).foldl
      VsockDevice.enqueueRx
        { dev with connections := dev.connections.filter fun c =>
            c.1 ∉ states.map VsockConnectionState.key } := by
  rw [VsockDevice.queueResets, foldl_map]

theorem restored_flight (state : VsockState) :
    ((dev.restored (.new guest_cid listener) state).queueResets state.connections).in_flight =
      [] := by
  rw [queueResets_eq, enqueueAll_in_flight]
  rfl

theorem restored_cleared (state : VsockState) :
    Cleared dev ((dev.restored (.new guest_cid listener) state).queueResets state.connections) where
  opened := by
    rw [queueResets_eq, enqueueAll_opened]
    rfl
  connections := by
    rw [queueResets_eq, enqueueAll_connections]
    rfl
  pending := by
    rw [queueResets_eq]
    intro p hp
    obtain ⟨queued, hsub, heq⟩ := enqueueAll_pending
    rw [heq] at hp
    rcases mem_append.mp hp with hp | hp
    · cases hp
    · obtain ⟨c, -, rfl⟩ := mem_map.mp (hsub.subset hp)
      rfl
  flight := by
    rw [restored_flight]
    exact nil_sublist _
  taken s := by
    rw [queueResets_eq, enqueueAll_history]
    rfl
  delivered s := by
    rw [queueResets_eq, enqueueAll_history]
    rfl

/-- The queue has room whenever bytes are queued, and the driver resets the device only while no
bytes are in flight. -/
def HasRoom : Action → VsockDevice → Prop
  | .enqueue packet, dev => packet.stream ≠ none → dev.pending_rx.length < MAX_PENDING_RX
  | .reset, dev => ∀ p ∈ dev.in_flight, p.stream = none
  | _, _ => True

/-- What a section does to the bytes of the streams. -/
inductive Moves (dev : VsockDevice) : Action → VsockDevice → Prop where
  | quiet {a : Action} {dev' : VsockDevice} (h : Quiet dev dev') : Moves dev a dev'
  | deliver : Moves dev .deliver dev.popRx
  | pump {p : Pumped} (h : p.Sound dev.connections) : Moves dev (.pump p) (dev.pumped p)
  | enqueue {packet : VsockPacket} {before after : List VsockPacket}
      (h : dev.in_flight = before ++ packet :: after)
      (horder : ∀ p ∈ before, p.stream = packet.stream → packet.stream = none) :
      Moves dev (.enqueue packet) ({ dev with in_flight := before ++ after }.enqueueRx packet)
  | cleared {a : Action} {dev' : VsockDevice} (h : Cleared dev dev')
      (hflight : HasRoom a dev → ∀ p ∈ dev'.in_flight, p.stream = none) : Moves dev a dev'

/-- Every section moves bytes in one of these ways. -/
theorem Step.moves (h : Step a dev dev') : Moves dev a dev' := by
  cases h with
  | packet h => exact .quiet (h _ (handleTxPacket_handled _)).quiet.receive
  | deliver => exact .deliver
  | pump h =>
    exact .pump (h _ (pumpStreams_sound (fun _ hc => hc) (Pumped.sound_nil dev.connections)))
  | enqueue h horder => exact .enqueue h horder
  | connect h => exact .quiet (h _ (requestGuestStream_requested _)).quiet
  | reset =>
    refine .cleared ⟨rfl, rfl, nofun, .refl _, fun _ => rfl, fun _ => rfl⟩ ?_
    exact fun hidle => hidle
  | restore h =>
    refine .cleared (restored_cleared _) fun _ => ?_
    rw [restored_flight]
    exact nofun
  | transport hconns hpending hflight hopened hhistory =>
    exact .quiet (.of_subset hopened (fun c hc => hconns.mem_iff.mp hc) hpending hflight hhistory)

/-! ## Streams are numbered as they are opened -/

structure Numbered (dev : VsockDevice) : Prop where
  connections : ∀ c ∈ dev.connections, c.2.stream < dev.opened
  pending : ∀ p ∈ dev.pending_rx ++ dev.in_flight, ∀ s, p.stream = some s → s < dev.opened
  taken : ∀ s, dev.opened ≤ s → takenFrom s dev.history = []

theorem numbered_new : Numbered (.new guest_cid listener) := ⟨nofun, nofun, fun _ _ => rfl⟩

theorem popRx_bytes (dev : VsockDevice) (s : Nat) :
    deliveredFrom s dev.popRx.history ++ waiting s dev.popRx.pending_rx =
      deliveredFrom s dev.history ++ waiting s dev.pending_rx := by
  unfold VsockDevice.popRx
  split
  · rfl
  · next packet rest hpending =>
    rw [hpending, deliveredFrom, waiting, waiting, flatMap_cons, append_assoc]

@[simp] theorem popRx_connections : dev.popRx.connections = dev.connections := by
  unfold VsockDevice.popRx
  split <;> rfl

@[simp] theorem popRx_in_flight : dev.popRx.in_flight = dev.in_flight := by
  unfold VsockDevice.popRx
  split <;> rfl

@[simp] theorem popRx_opened : dev.popRx.opened = dev.opened := by
  unfold VsockDevice.popRx
  split <;> rfl

theorem popRx_taken : takenFrom s dev.popRx.history = takenFrom s dev.history := by
  unfold VsockDevice.popRx
  split <;> rfl

theorem popRx_pending : dev.popRx.pending_rx = dev.pending_rx.tail := by
  unfold VsockDevice.popRx
  split <;> next h => rw [h]; rfl

/-- The guest's side of a history is not changed by what the device reads. -/
theorem Pumped.Sound.delivered {cs : Connections} (h : p.Sound cs) (s : Nat) (events : List Event) :
    deliveredFrom s (p.taken ++ events) = deliveredFrom s events :=
  h.ignored (deliveredFrom s) (fun _ _ _ _ => rfl)

theorem mem_pumped_connections {c : ConnectionKey × Connection}
    (h : c ∈ (dev.pumped p).connections) :
    c ∈ dev.connections := (mem_filter.mp h).1

theorem Pumped.Sound.untouched {cs : Connections} (h : p.Sound cs) (hs : ∀ c ∈ cs, c.2.stream ≠ s) :
    waiting s p.packets = [] := by
  apply waiting_eq_nil
  intro x hx heq
  obtain ⟨-, c, hc, hstream⟩ := h.packets x hx
  rw [hstream] at heq
  exact hs c hc (Option.some.inj heq)

/-- Every section keeps the numbering of the streams. -/
theorem Numbered.step (h : Numbered dev) (hstep : Step a dev dev') : Numbered dev' := by
  cases hstep.moves with
  | quiet hq =>
    constructor
    · intro c hc
      rcases hq.connections c hc with ⟨heq, hlt⟩ | ⟨d, hd, heq⟩
      · omega
      have := h.connections d hd
      have := hq.opened
      omega
    · obtain ⟨added, hpending, hadded⟩ := hq.pending
      obtain ⟨sent, hflight, hsent⟩ := hq.flight
      intro p hp s heq
      have hold : p ∈ dev.pending_rx ++ dev.in_flight := by
        rw [hpending, hflight] at hp
        simp only [mem_append] at hp ⊢
        rcases hp with (hp | hp) | hp | hp
        · exact .inl hp
        · rw [hadded p hp] at heq
          cases heq
        · exact .inr hp
        · rw [hsent p hp] at heq
          cases heq
      exact lt_of_lt_of_le (h.pending p hold s heq) hq.opened
    · intro s hs
      rw [hq.taken]
      exact h.taken s (le_trans hq.opened hs)
  | deliver =>
    constructor
    · rw [popRx_connections, popRx_opened]
      exact h.connections
    · rw [popRx_pending, popRx_in_flight, popRx_opened]
      intro p hp
      exact h.pending p ((tail_sublist _).append_right _ |>.subset hp)
    · rw [popRx_opened]
      exact fun s hs => (popRx_taken).trans (h.taken s hs)
  | pump hsound =>
    constructor
    · exact fun c hc => h.connections c (mem_pumped_connections hc)
    · intro x hx s heq
      change x ∈ dev.pending_rx ++ (dev.in_flight ++ _) at hx
      rw [← append_assoc] at hx
      rcases mem_append.mp hx with hx | hx
      · exact h.pending x hx s heq
      obtain ⟨-, c, hc, hstream⟩ := hsound.packets x hx
      rw [hstream] at heq
      cases heq
      exact h.connections c hc
    · intro s hs
      change takenFrom s (_ ++ dev.history) = []
      rw [hsound.taken, h.taken s hs, hsound.untouched]
      · rfl
      intro c hc
      have := h.connections c hc
      change dev.opened ≤ s at hs
      omega
  | @enqueue packet before after hflight horder =>
    constructor
    · rw [enqueueRx_connections, enqueueRx_opened]
      exact h.connections
    · rw [enqueueRx_in_flight, enqueueRx_opened]
      intro p hp
      apply h.pending p
      have hqueue : (enqueueRx { dev with in_flight := before ++ after } packet).pending_rx ⊆
          dev.pending_rx ++ [packet] := by
        rcases enqueueRx_pending { dev with in_flight := before ++ after } packet with heq | heq
        · rw [heq]
          exact subset_append_left _ _
        · rw [heq]
          exact fun _ hx => hx
      rw [hflight]
      rcases mem_append.mp hp with hp | hp
      · have := hqueue hp
        rcases mem_append.mp this with hp | hp
        · exact mem_append_left _ hp
        · rw [mem_singleton.mp hp]
          simp
      · simp only [mem_append, mem_cons] at hp ⊢
        rcases hp with hp | hp
        · exact .inr (.inl hp)
        · exact .inr (.inr (.inr hp))
    · rw [enqueueRx_history, enqueueRx_opened]
      exact h.taken
  | cleared hc =>
    constructor
    · rw [hc.connections]
      exact nofun
    · intro p hp s heq
      rw [hc.opened]
      rcases mem_append.mp hp with hp | hp
      · rw [hc.pending p hp] at heq
        cases heq
      · exact h.pending p (mem_append_right _ (hc.flight.subset hp)) s heq
    · intro s hs
      rw [hc.opened] at hs
      rw [hc.taken, h.taken s hs]

/-! ## No gap while the queue has room -/

/-- The guest was sent a reset for a connection whose stream was `s`. -/
def ResetSent (dev : VsockDevice) (s : Nat) : Prop :=
  ∃ key bytes packet, .taken key s bytes ∈ dev.history ∧ packet.key = key ∧
    packet.header.op = PacketOp.RST ∧ (packet ∈ dev.pending_rx ∨ .delivered packet ∈ dev.history)

/-- What the guest got of a stream is a prefix of what was read from it, unless it was sent a
reset. -/
def GapFree (dev : VsockDevice) (s : Nat) : Prop :=
  deliveredFrom s dev.history <+: takenFrom s dev.history ∨ ResetSent dev s

/-- The bytes of a stream are delivered or under way in order; a stream whose packets were thrown
away is not read again. -/
def InOrder (dev : VsockDevice) (s : Nat) : Prop :=
  takenFrom s dev.history = deliveredFrom s dev.history ++ underWay dev s ∨
    (deliveredFrom s dev.history <+: takenFrom s dev.history ∧ underWay dev s = [] ∧
      (∀ c ∈ dev.connections, c.2.stream ≠ s) ∧ s < dev.opened)

theorem InOrder.prefix_taken (h : InOrder dev s) :
    deliveredFrom s dev.history <+: takenFrom s dev.history := by
  rcases h with h | ⟨h, -⟩
  · rw [h]
    exact prefix_append _ _
  · exact h

theorem InOrder.quiet (h : InOrder dev s) (hq : Quiet dev dev') : InOrder dev' s := by
  rcases h with h | ⟨hpre, hnil, hconns, hs⟩
  · left
    rw [hq.taken, hq.delivered, hq.underWay]
    exact h
  right
  rw [hq.taken, hq.delivered, hq.underWay]
  refine ⟨hpre, hnil, ?_, lt_of_lt_of_le hs hq.opened⟩
  intro c hc
  rcases hq.connections c hc with ⟨heq, -⟩ | ⟨d, hd, heq⟩
  · omega
  · rw [← heq]
    exact hconns d hd

theorem InOrder.deliver (h : InOrder dev s) : InOrder dev.popRx s := by
  have hbytes : deliveredFrom s dev.popRx.history ++ underWay dev.popRx s =
      deliveredFrom s dev.history ++ underWay dev s := by
    rw [underWay, underWay, ← append_assoc, ← append_assoc, popRx_bytes, popRx_in_flight]
  rcases h with h | ⟨hpre, hnil, hconns, hs⟩
  · left
    rw [popRx_taken, hbytes, h]
  right
  have hnil' : underWay dev.popRx s = [] := by
    have hsub := waiting_sublist (s := s) (tail_sublist dev.pending_rx)
    obtain ⟨hpending, hflight⟩ := append_eq_nil_iff.mp hnil
    rw [hpending] at hsub
    rw [underWay, popRx_pending, popRx_in_flight, hflight, append_nil]
    exact length_eq_zero_iff.mp (Nat.le_zero.mp hsub)
  rw [hnil, hnil', append_nil, append_nil] at hbytes
  rw [popRx_taken, hbytes, popRx_connections, popRx_opened]
  exact ⟨hpre, hnil', hconns, hs⟩

/-- Reading the streams puts the bytes behind those that are under way. -/
theorem InOrder.pump (h : InOrder dev s) (hsound : p.Sound dev.connections) :
    InOrder (dev.pumped p) s := by
  have hbytes : underWay (dev.pumped p) s = underWay dev s ++ waiting s p.packets := by
    show waiting s dev.pending_rx ++ waiting s (dev.in_flight ++ p.packets) = _
    rw [waiting_append, ← append_assoc]
    rfl
  rcases h with h | ⟨hpre, hnil, hconns, hs⟩
  · left
    show takenFrom s (p.taken ++ dev.history) = deliveredFrom s (p.taken ++ dev.history) ++ _
    rw [hsound.taken, hsound.delivered, hbytes, h, append_assoc]
  · right
    have hnone : waiting s p.packets = [] := hsound.untouched hconns
    show deliveredFrom s (p.taken ++ dev.history) <+: takenFrom s (p.taken ++ dev.history) ∧ _
    rw [hsound.taken, hsound.delivered, hbytes, hnone, hnil, append_nil]
    exact ⟨hpre, rfl, fun c hc => hconns c (mem_pumped_connections hc), hs⟩

/-- A packet in flight that finds room is queued with its bytes. -/
theorem underWay_enqueue {packet : VsockPacket} {before after : List VsockPacket}
    (h : dev.in_flight = before ++ packet :: after)
    (horder : ∀ p ∈ before, p.stream = packet.stream → packet.stream = none)
    (hroom : packet.stream ≠ none → dev.pending_rx.length < MAX_PENDING_RX) :
    underWay ({ dev with in_flight := before ++ after }.enqueueRx packet) s = underWay dev s := by
  have hsplit : waiting s dev.in_flight = packet.payload s ++ waiting s (before ++ after) := by
    rw [h, waiting_first horder]
  rw [underWay, underWay, enqueueRx_in_flight, hsplit]
  rcases enqueueRx_pending { dev with in_flight := before ++ after } packet with heq | heq
  · have hnone : packet.payload s = [] := by
      by_cases hstream : packet.stream = none
      · rw [VsockPacket.payload, hstream, if_neg (Option.some_ne_none s).symm]
      · -- there was room, so the packet was not dropped
        have hqueued := @enqueueRx_room { dev with in_flight := before ++ after } packet
          (hroom hstream)
        rw [hqueued] at heq
        simp at heq
    rw [heq, hnone, nil_append]
  · have hone : waiting s [packet] = packet.payload s := flatMap_singleton ..
    rw [heq, waiting_append, hone, append_assoc]

theorem InOrder.enqueue {packet : VsockPacket} {before after : List VsockPacket} (h : InOrder dev s)
    (hflight : dev.in_flight = before ++ packet :: after)
    (horder : ∀ p ∈ before, p.stream = packet.stream → packet.stream = none)
    (hroom : HasRoom (.enqueue packet) dev) :
    InOrder ({ dev with in_flight := before ++ after }.enqueueRx packet) s := by
  unfold InOrder
  rw [underWay_enqueue hflight horder hroom, enqueueRx_history, enqueueRx_connections,
    enqueueRx_opened]
  exact h

theorem InOrder.cleared (h : InOrder dev s) (hn : Numbered dev) (hc : Cleared dev dev')
    (hflight : ∀ p ∈ dev'.in_flight, p.stream = none) : InOrder dev' s := by
  have hnil : underWay dev' s = [] := by
    apply append_eq_nil_iff.mpr
    constructor
    · exact waiting_eq_nil fun p hp => by simp [hc.pending p hp]
    · exact waiting_eq_nil fun p hp => by simp [hflight p hp]
  by_cases hs : s < dev.opened
  · right
    rw [hc.taken, hc.delivered, hc.connections, hc.opened]
    exact ⟨h.prefix_taken, hnil, nofun, hs⟩
  · -- Nothing was ever read from a stream that is not open yet.
    have htaken := hn.taken s (Nat.le_of_not_lt hs)
    left
    rw [hc.taken, hc.delivered, hnil, append_nil, htaken]
    have hpre := h.prefix_taken
    rw [htaken] at hpre
    exact (prefix_nil.mp hpre).symm

/-- Every section that meets `HasRoom` keeps the bytes of a stream in order. -/
theorem InOrder.step (h : InOrder dev s) (hn : Numbered dev) (hroom : HasRoom a dev)
    (hstep : Step a dev dev') : InOrder dev' s := by
  cases hstep.moves with
  | quiet hq => exact h.quiet hq
  | deliver => exact h.deliver
  | pump hsound => exact h.pump hsound
  | enqueue hflight horder => exact h.enqueue hflight horder hroom
  | cleared hc hflight => exact h.cleared hn hc (hflight hroom)

/-- In every run in which the queue has room whenever bytes are queued and the driver resets the
device only while no bytes are in flight, the guest gets a prefix of each stream. -/
theorem delivered_is_prefix (guest_cid : UInt64) (listener : Bool) {dev : VsockDevice}
    (hrun : Reaches HasRoom (.new guest_cid listener) dev) (s : Nat) : GapFree dev s := by
  have hinv : Numbered dev ∧ InOrder dev s := by
    apply Reaches.invariant _ hrun ⟨numbered_new, .inl rfl⟩
    intro a dev dev' hroom hstep h
    exact ⟨h.1.step hstep, h.2.step h.1 hroom hstep⟩
  exact .inl hinv.2.prefix_taken

/-! A guest that fills the queue with answers to its credit requests loses what is read next. -/

def guestHeader (op : UInt16) (buf_alloc : UInt32) : VsockPacketHeader where
  src_cid := 3
  dst_cid := VSOCK_HOST_CID
  src_port := 1024
  dst_port := 5000
  len := 0
  type_ := STREAM
  op := op
  flags := 0
  buf_alloc := buf_alloc
  fwd_cnt := 0

def guestPacket (op : UInt16) (buf_alloc : UInt32) :
    VsockPacket := ⟨guestHeader op buf_alloc, [], none⟩

def guestKey : ConnectionKey := ⟨3, 1024, 5000⟩

/-- A host whose connections succeed and whose streams all read as `read`. -/
def steadyHost (read : StreamRead) : (o : Op Call) → Unit → Res Answer o × Unit
  | .load _ _, _ => (none, ())
  | .store _ _, _ => (false, ())
  | .mark _ _, _ => ((), ())
  | .host (.connect _), _ => (true, ())
  | .host .pair, _ => (true, ())
  | .host (.read _ _), _ => (read, ())
  | .host (.write _ _), _ => (true, ())

/-- The guest has opened a connection and was told so. -/
def connected (buf_alloc : UInt32) : VsockDevice :=
  ((handleTxPacket (.new 3 true) (guestPacket PacketOp.REQUEST buf_alloc)).interp
    (steadyHost .blocked) ()).1.popRx

theorem reaches_connected {ok : Action → VsockDevice → Prop} (buf_alloc : UInt32)
    (hpacket : ok (.packet (guestPacket PacketOp.REQUEST buf_alloc)) (.new 3 true))
    (hdeliver : ∀ dev, ok .deliver dev) : Reaches ok (.new 3 true) (connected buf_alloc) := by
  apply Relation.ReflTransGen.tail (.single ⟨_, hpacket, .packet (Prog.interp_can _ _ _)⟩)
  exact ⟨_, hdeliver _, .deliver⟩

/-- The one connection is open, `pending` packets wait, and of the bytes `taken` from its stream
`passed` went on to the guest's queue. -/
structure Filled (buf_alloc : UInt32) (pending : Nat) (taken passed : Bytes) (dev : VsockDevice) :
    Prop where
  connections : dev.connections = [(guestKey, ⟨0, buf_alloc, 0, 0, true⟩)]
  flight : dev.in_flight = []
  length : dev.pending_rx.length = pending
  taken_eq : takenFrom 0 dev.history = taken
  passed_eq : deliveredFrom 0 dev.history ++ waiting 0 dev.pending_rx = passed
  kept : ∀ packet, packet ∈ dev.pending_rx ∨ .delivered packet ∈ dev.history →
    packet.header.op ≠ PacketOp.RST

section Filling

variable {b : UInt32} {n : Nat} {t w : Bytes}

theorem filled_connected (b : UInt32) : Filled b 0 [] [] (connected b) where
  connections := rfl
  flight := rfl
  length := rfl
  taken_eq := rfl
  passed_eq := rfl
  kept packet h := by
    rcases h with h | h
    · cases h
    rcases mem_cons.mp h with h | h
    · cases h
      show PacketOp.RESPONSE ≠ PacketOp.RST
      decide
    · rcases mem_cons.mp h with h | h <;> cases h

theorem Filled.ask (h : Filled b n t w dev) (hn : n < MAX_PENDING_RX) :
    ∃ dev', Run dev dev' ∧ Filled b (n + 1) t w dev' := by
  have hroom : dev.pending_rx.length < MAX_PENDING_RX := h.length ▸ hn
  let header := guestHeader PacketOp.CREDIT_REQUEST b
  let fwd_cnt :=
    ((Connections.get dev.connections (keyFromGuest header)).map Connection.fwd_cnt).getD 0
  let reply := replyPacket header PacketOp.CREDIT_UPDATE 0 fwd_cnt
  have hstep : Step (.packet (guestPacket PacketOp.CREDIT_REQUEST b)) dev
      ((dev.receive header).send reply) :=
    .packet (Prog.interp_can _ (steadyHost .blocked) ())
  have hflight : ((dev.receive header).send reply).in_flight = [] ++ reply :: [] := by
    show dev.in_flight ++ [reply] = _
    rw [h.flight]
  have hpending :
    (enqueueRx { (dev.receive header).send reply with in_flight := [] } reply).pending_rx =
      dev.pending_rx ++ [reply] := enqueueRx_room hroom
  refine ⟨_, hstep.run.trans (Step.enqueue hflight nofun).run, ?_⟩
  constructor
  · rw [enqueueRx_connections]
    exact h.connections
  · rw [enqueueRx_in_flight, append_nil]
  · rw [append_nil, hpending, length_append, h.length]
    rfl
  · rw [enqueueRx_history]
    exact h.taken_eq
  · have hreply : waiting 0 [reply] = [] := rfl
    rw [enqueueRx_history, append_nil, hpending, waiting_append, hreply, append_nil]
    exact h.passed_eq
  · intro packet hpacket
    rw [enqueueRx_history, append_nil, hpending] at hpacket
    rcases hpacket with hpacket | hpacket
    · rcases mem_append.mp hpacket with hpacket | hpacket
      · exact h.kept packet (.inl hpacket)
      · rw [mem_singleton.mp hpacket]
        show PacketOp.CREDIT_UPDATE ≠ PacketOp.RST
        decide
    · rcases mem_cons.mp hpacket with hpacket | hpacket
      · cases hpacket
      · exact h.kept packet (.inr hpacket)

theorem Filled.fill (h : Filled b n t w dev) (hn : n ≤ MAX_PENDING_RX) :
    ∃ dev', Run dev dev' ∧ Filled b MAX_PENDING_RX t w dev' := by
  obtain ⟨left, hleft⟩ := Nat.le.dest hn
  induction left generalizing n dev with
  | zero =>
    have hn : n = MAX_PENDING_RX := by omega
    exact ⟨dev, .refl, hn ▸ h⟩
  | succ left ih =>
    obtain ⟨dev', hrun, h'⟩ := h.ask (by omega)
    obtain ⟨dev'', hrun', h''⟩ := ih h' (by omega) (by omega)
    exact ⟨dev'', hrun.trans hrun', h''⟩

theorem Filled.pop (h : Filled b (n + 1) t w dev) :
    Run dev dev.popRx ∧ Filled b n t w dev.popRx := by
  refine ⟨Step.deliver.run, ?_⟩
  constructor
  · rw [popRx_connections]
    exact h.connections
  · rw [popRx_in_flight]
    exact h.flight
  · rw [popRx_pending, length_tail, h.length]
    rfl
  · rw [popRx_taken]
    exact h.taken_eq
  · rw [popRx_bytes]
    exact h.passed_eq
  · intro packet hpacket
    have hkept := h.kept packet
    unfold VsockDevice.popRx at hpacket
    split at hpacket
    · exact hkept hpacket
    rename_i first rest hpending
    rw [hpending] at hkept
    rcases hpacket with hpacket | hpacket
    · exact hkept (.inl (mem_cons_of_mem _ hpacket))
    rcases mem_cons.mp hpacket with hpacket | hpacket
    · cases hpacket
      exact hkept (.inl (mem_cons_self ..))
    · exact hkept (.inr hpacket)

theorem Filled.popAll (h : Filled b n t w dev) : ∃ dev', Run dev dev' ∧ Filled b 0 t w dev' := by
  induction n generalizing dev with
  | zero => exact ⟨dev, .refl, h⟩
  | succ n ih =>
    obtain ⟨hrun, h'⟩ := h.pop
    obtain ⟨dev', hrun', h''⟩ := ih h'
    exact ⟨dev', hrun.trans hrun', h''⟩

def bytePacket (byte : UInt8) : VsockPacket := hostPacket guestKey PacketOp.RW 0 [byte] 0 (some 0)

def onePump (byte : UInt8) : Pumped where
  packets := [bytePacket byte]
  closed := []
  taken := [.taken guestKey 0 [byte]]

/-- A byte was read from the stream, and its packet was queued or dropped. -/
def fed (dev : VsockDevice) (byte : UInt8) : VsockDevice :=
  { dev.pumped (onePump byte) with in_flight := [] }.enqueueRx (bytePacket byte)

theorem Filled.pump (h : Filled b n t w dev) (byte : UInt8) :
    Step (.pump (onePump byte)) dev (dev.pumped (onePump byte)) := by
  apply Step.pump
  rw [h.connections]
  exact Prog.interp_can _ (steadyHost (.data [byte])) ()

theorem Filled.enqueue (h : Filled b n t w dev) (byte : UInt8) :
    Step (.enqueue (bytePacket byte)) (dev.pumped (onePump byte)) (fed dev byte) := by
  have hflight : (dev.pumped (onePump byte)).in_flight = [] ++ bytePacket byte :: [] := by
    show dev.in_flight ++ [bytePacket byte] = _
    rw [h.flight]
  exact Step.enqueue hflight nofun

theorem Filled.fed (h : Filled b n t w dev) (byte : UInt8) :
    Filled b (if n < MAX_PENDING_RX then n + 1 else n) (t ++ [byte])
      (if n < MAX_PENDING_RX then w ++ [byte] else w) (fed dev byte) := by
  have hfull : ¬ n < MAX_PENDING_RX → (Vsock.fed dev byte).pending_rx = dev.pending_rx := by
    intro hn
    rw [Vsock.fed, enqueueRx, if_pos (by show _ ≤ dev.pending_rx.length; rw [h.length]; omega)]
    rfl
  have hroom : n < MAX_PENDING_RX →
      (Vsock.fed dev byte).pending_rx = dev.pending_rx ++ [bytePacket byte] := by
    intro hn
    exact enqueueRx_room (h.length ▸ hn)
  have hhistory : (Vsock.fed dev byte).history = .taken guestKey 0 [byte] :: dev.history :=
    enqueueRx_history ..
  constructor
  · rw [Vsock.fed, enqueueRx_connections]
    show dev.connections.filter _ = _
    rw [h.connections]
    rfl
  · rw [Vsock.fed, enqueueRx_in_flight]
  · split
    · next hn =>
      rw [hroom hn, length_append, h.length]
      rfl
    · next hn => rw [hfull hn, h.length]
  · rw [hhistory, ← h.taken_eq]
    rfl
  · have hdelivered : deliveredFrom 0 (Vsock.fed dev byte).history =
        deliveredFrom 0 dev.history := by
      rw [hhistory]
      rfl
    rw [hdelivered]
    split
    · next hn =>
      rw [hroom hn, waiting_append, ← append_assoc, h.passed_eq]
      rfl
    · next hn => rw [hfull hn, h.passed_eq]
  · intro packet hpacket
    rw [hhistory] at hpacket
    rcases hpacket with hpacket | hpacket
    · by_cases hn : n < MAX_PENDING_RX
      · rw [hroom hn] at hpacket
        rcases mem_append.mp hpacket with hpacket | hpacket
        · exact h.kept packet (.inl hpacket)
        rw [mem_singleton.mp hpacket]
        show PacketOp.RW ≠ PacketOp.RST
        decide
      · rw [hfull hn] at hpacket
        exact h.kept packet (.inl hpacket)
    · rcases mem_cons.mp hpacket with hpacket | hpacket
      · cases hpacket
      · exact h.kept packet (.inr hpacket)

theorem Filled.run_fed (h : Filled b n t w dev) (byte : UInt8) : Run dev (Vsock.fed dev byte) :=
  (h.pump byte).run.trans (h.enqueue byte).run

end Filling

/-- The byte read while the queue is full is missing from what the guest gets, and the guest is
not sent a reset. -/
theorem full_queue_leaves_gap :
    ∃ dev, Run (.new 3 true) dev ∧ takenFrom 0 dev.history = [1, 2] ∧
      deliveredFrom 0 dev.history = [2] ∧ ¬ GapFree dev 0 := by
  obtain ⟨d₁, hrun₁, h₁⟩ := (filled_connected 4096).fill (Nat.zero_le _)
  have h₂ := h₁.fed 1
  obtain ⟨hrun₃, h₃⟩ := h₂.pop
  have h₄ := h₃.fed 2
  obtain ⟨d₅, hrun₅, h₅⟩ := h₄.popAll
  have htaken : takenFrom 0 d₅.history = [1, 2] := h₅.taken_eq
  have hdelivered : deliveredFrom 0 d₅.history = [2] := by
    have hpassed := h₅.passed_eq
    rw [length_eq_zero_iff.mp h₅.length] at hpassed
    simpa [waiting, MAX_PENDING_RX] using hpassed
  refine ⟨d₅, ?_, htaken, hdelivered, ?_⟩
  · have hstart : Run (.new 3 true) (connected 4096) :=
      reaches_connected 4096 trivial fun _ => trivial
    exact hstart.trans
      (hrun₁.trans ((h₁.run_fed 1).trans (hrun₃.trans ((h₃.run_fed 2).trans hrun₅))))
  · rintro (hpre | ⟨_, _, packet, -, -, hop, hpacket⟩)
    · rw [htaken, hdelivered] at hpre
      revert hpre
      decide
    · exact h₅.kept packet hpacket hop

theorem connected_delivers_prefix :
    Reaches HasRoom (.new 3 true) (fed (connected 4096) 1).popRx ∧
      deliveredFrom 0 (fed (connected 4096) 1).popRx.history = [1] ∧
      GapFree (fed (connected 4096) 1).popRx 0 := by
  have hrun : Reaches HasRoom (.new 3 true) (fed (connected 4096) 1).popRx := by
    have hstart : Reaches HasRoom (.new 3 true) (connected 4096) :=
      reaches_connected 4096 trivial fun _ => trivial
    have hpump : Reaches HasRoom (.new 3 true) ((connected 4096).pumped (onePump 1)) :=
      hstart.tail ⟨.pump _, trivial, (filled_connected 4096).pump 1⟩
    have hfed : Reaches HasRoom (.new 3 true) (fed (connected 4096) 1) :=
      hpump.tail ⟨.enqueue _, fun _ => by decide, (filled_connected 4096).enqueue 1⟩
    exact hfed.tail ⟨.deliver, trivial, .deliver⟩
  exact ⟨hrun, by decide, delivered_is_prefix 3 true hrun 0⟩

end Tarit.Virtio.Vsock
