import Tarit.Virtio.VsockStreams

/-!
# The credit of the guest

Every packet of the guest reports how much buffer it has for a connection and how much of it was
read. `pump_host_streams` looks at neither: it sends whatever the host stream holds. The bytes sent
stay within the credit as long as a stream holds no more than the credit left when it is read.
-/
namespace Tarit.Virtio.Vsock

open Lib Live Snapshot VsockDevice Connections

def lastReport (key : ConnectionKey) : List Event → Option VsockPacketHeader
  | .received header :: events =>
    if keyFromGuest header = key ∧ header.type_ = STREAM then some header else lastReport key events
  | _ :: events => lastReport key events
  | [] => none

/-- The bytes of a stream that the device sent: delivered, or in the queue for the guest. -/
def sentOn (dev : VsockDevice) (s : Nat) : Bytes :=
  deliveredFrom s dev.history ++ waiting s dev.pending_rx

/-- No connection has more bytes under way than the guest's last report allows. -/
def WithinCredit (dev : VsockDevice) : Prop :=
  ∀ c ∈ dev.connections, c.2.established → ∀ header, lastReport c.1 dev.history = some header →
    UInt32.ofNat (sentOn dev c.2.stream).length - header.fwd_cnt ≤ header.buf_alloc

/-- The report counts, up to wrapping, some of the bytes sent, and leaves room for all bytes
read. -/
def Covers (header : VsockPacketHeader) (read sent : Nat) : Prop :=
  ∃ forwarded ≤ sent, header.fwd_cnt = UInt32.ofNat forwarded ∧
    read ≤ forwarded + header.buf_alloc.toNat

/-- The guest takes no credit back that is in use. When the streams are read, what was written to
them and is not with the guest yet is within the credit. -/
def Paced (written : Nat → Nat) : Action → VsockDevice → Prop
  | .packet packet, dev => packet.header.type_ = STREAM →
    (packet.header.op = PacketOp.REQUEST → packet.header.fwd_cnt = 0) ∧
      ∀ c ∈ dev.connections, c.1 = keyFromGuest packet.header →
        Covers packet.header (takenFrom c.2.stream dev.history).length
          (sentOn dev c.2.stream).length
  | .pump _, dev => ∀ c ∈ dev.connections, c.2.established →
    ∀ header, lastReport c.1 dev.history = some header →
      Covers header (written c.2.stream) (sentOn dev c.2.stream).length
  | _, _ => True

/-- The host applications write to the streams while the device takes its sections. A stream gives
no byte that was not written to it. -/
inductive Feeds : (Nat → Nat) × VsockDevice → (Nat → Nat) × VsockDevice → Prop where
  | write {written : Nat → Nat} {dev : VsockDevice} (stream count : Nat) :
      Feeds (written, dev) (Function.update written stream (written stream + count), dev)
  | step {written : Nat → Nat} {dev dev' : VsockDevice} {a : Action} (hpaced : Paced written a dev)
      (hstep : Step a dev dev') (hread : ∀ s, (takenFrom s dev'.history).length ≤ written s) :
      Feeds (written, dev) (written, dev')

variable {header : VsockPacketHeader} {dev dev' : VsockDevice} {c : ConnectionKey × Connection}
  {s : Nat} {written : Nat → Nat}

/-! ## What a section does to the reports -/

theorem Handled.connection (h : Handled dev header dev') (hc : c ∈ dev'.connections) :
    (∃ conn, (c.1, conn) ∈ dev.connections ∧ conn.stream = c.2.stream ∧
        (conn = c.2 ∨ c.1 = keyFromGuest header ∧ header.type_ = STREAM)) ∨
      header.type_ = STREAM ∧ header.op = PacketOp.REQUEST ∧ c.1 = keyFromGuest header ∧
        c.2.stream = dev.opened := by
  have hsame (hc : c ∈ dev.connections) : ∃ conn, (c.1, conn) ∈ dev.connections ∧
      conn.stream = c.2.stream ∧ (conn = c.2 ∨ c.1 = keyFromGuest header ∧ header.type_ = STREAM) :=
    ⟨c.2, hc, rfl, .inl rfl⟩
  cases h with
  | refused | credit => exact .inl (hsame hc)
  | accepted htype hop =>
    rw [enqueueRx_connections] at hc
    rcases mem_insert.mp hc with ⟨hc, -⟩ | rfl
    · exact .inl (hsame hc)
    · exact .inr ⟨htype, hop, rfl, rfl⟩
  | reported f htype hop hstream =>
    obtain ⟨conn, hconn, heq | ⟨hkey, heq⟩⟩ := mem_modify hc
    · exact .inl ⟨conn, hconn, by rw [heq], .inl heq.symm⟩
    · exact .inl ⟨conn, hconn, by rw [heq, hstream], .inr ⟨hkey, htype⟩⟩
  | broken | shutdown | closed => exact .inl (hsame (mem_remove.mp hc).1)
  | ignored => exact .inl (hsame hc)

/-- Established connections were there before the host asked for one. -/
theorem Requested.connection (h : Requested dev dev') (hc : c ∈ dev'.connections)
    (hopen : c.2.established) : c ∈ dev.connections := by
  cases h with
  | refused => exact hc
  | opened =>
    rcases mem_insert.mp hc with ⟨hc, -⟩ | rfl
    · exact hc
    · cases hopen

theorem Quiet.sentOn (h : Quiet dev dev') : sentOn dev' s = sentOn dev s := by
  rw [Vsock.sentOn, Vsock.sentOn, h.delivered, h.waiting]

theorem lastReport_popRx (dev : VsockDevice) (key : ConnectionKey) :
    lastReport key dev.popRx.history = lastReport key dev.history := by
  unfold VsockDevice.popRx
  split <;> rfl

/-! ## The bytes under way -/

/-- Nothing is sent that was not read, and every report covers what was read. -/
structure Credited (dev : VsockDevice) : Prop where
  numbered : Numbered dev
  sent : ∀ s, (deliveredFrom s dev.history).length + (underWay dev s).length ≤
    (takenFrom s dev.history).length
  covers : ∀ c ∈ dev.connections, c.2.established →
    ∀ header, lastReport c.1 dev.history = some header →
      Covers header (takenFrom c.2.stream dev.history).length (sentOn dev c.2.stream).length

theorem Credited.withinCredit (h : Credited dev) : WithinCredit dev := by
  intro c hc hopen header hlast
  obtain ⟨forwarded, hf, hcnt, hread⟩ := h.covers c hc hopen header hlast
  have hsent := h.sent c.2.stream
  have hpart : (sentOn dev c.2.stream).length ≤
      (deliveredFrom c.2.stream dev.history).length + (underWay dev c.2.stream).length := by
    rw [sentOn, underWay, List.length_append, List.length_append]
    omega
  -- wrapping does not matter while less than a whole turn is under way
  rw [hcnt, ← UInt32.ofNat_sub hf, UInt32.le_iff_toNat_le, UInt32.toNat_ofNat']
  omega

/-- Queueing a packet drops its bytes or sends them. -/
theorem underWay_enqueue_le {packet : VsockPacket} {before after : List VsockPacket}
    (h : dev.in_flight = before ++ packet :: after) :
    (underWay ({ dev with in_flight := before ++ after }.enqueueRx packet) s).length ≤
      (underWay dev s).length := by
  have hcons : waiting s (packet :: after) = packet.payload s ++ waiting s after :=
    List.flatMap_cons
  have hone : waiting s [packet] = packet.payload s := List.flatMap_singleton ..
  rw [underWay, underWay, enqueueRx_in_flight, h]
  rcases enqueueRx_pending { dev with in_flight := before ++ after } packet with heq | heq
  · rw [heq]
    simp only [waiting_append, hcons, List.length_append]
    omega
  · rw [heq]
    simp only [waiting_append, hcons, hone, List.length_append]
    omega

theorem sent_le_taken {a : Action} (hstep : Step a dev dev')
    (h : (deliveredFrom s dev.history).length + (underWay dev s).length ≤
      (takenFrom s dev.history).length) :
    (deliveredFrom s dev'.history).length + (underWay dev' s).length ≤
      (takenFrom s dev'.history).length := by
  cases hstep.moves with
  | quiet hq =>
    rw [hq.delivered, hq.underWay, hq.taken]
    exact h
  | deliver =>
    have hbytes := congrArg List.length (popRx_bytes dev s)
    rw [List.length_append, List.length_append] at hbytes
    rw [underWay, List.length_append] at h
    rw [popRx_taken, underWay, List.length_append, popRx_in_flight]
    omega
  | @pump p hsound =>
    show (deliveredFrom s (p.taken ++ dev.history)).length + (waiting s dev.pending_rx ++
      waiting s (dev.in_flight ++ p.packets)).length ≤ (takenFrom s (p.taken ++ dev.history)).length
    rw [underWay, List.length_append] at h
    rw [hsound.taken, hsound.delivered, waiting_append]
    simp only [List.length_append]
    omega
  | enqueue hflight horder =>
    have hle : (underWay (enqueueRx _ _) s).length ≤ _ := underWay_enqueue_le hflight
    rw [enqueueRx_history]
    exact le_trans (Nat.add_le_add_left hle _) h
  | cleared hc =>
    have hnil : waiting s dev'.pending_rx = [] :=
      waiting_eq_nil fun p hp => by simp [hc.pending p hp]
    have hle := waiting_sublist (s := s) hc.flight
    rw [underWay, List.length_append] at h
    rw [underWay, hc.taken, hc.delivered, hnil, List.nil_append]
    omega

theorem Credited.packet {packet : VsockPacket} (h : Credited dev)
    (hpaced : Paced written (.packet packet) dev)
    (hhandled : Handled (dev.receive packet.header) packet.header dev')
    (hc : c ∈ dev'.connections) (hopen : c.2.established)
    (hlast : lastReport c.1 dev'.history = some header) :
    Covers header (takenFrom c.2.stream dev'.history).length (sentOn dev' c.2.stream).length := by
  have hq : Quiet dev dev' := hhandled.quiet.receive
  have hhistory : dev'.history = .received packet.header :: dev.history := hhandled.history
  rw [hq.taken, hq.sentOn]
  rw [hhistory, lastReport] at hlast
  rcases hhandled.connection hc with ⟨conn, hconn, hstream, hkept⟩ | ⟨htype, hop, hkey, hstream⟩
  · by_cases hkey : keyFromGuest packet.header = c.1 ∧ packet.header.type_ = STREAM
    · -- The packet reports on this connection.
      rw [if_pos hkey] at hlast
      cases hlast
      rw [← hstream]
      exact (hpaced hkey.2).2 _ hconn hkey.1.symm
    · rw [if_neg hkey] at hlast
      rcases hkept with rfl | ⟨hkey', htype⟩
      · exact h.covers c hconn hopen header hlast
      · exact absurd ⟨hkey'.symm, htype⟩ hkey
  · -- A new stream: nothing was read from it.
    rw [if_pos ⟨hkey.symm, htype⟩] at hlast
    cases hlast
    have htaken : takenFrom c.2.stream dev.history = [] :=
      h.numbered.taken _ (le_of_eq hstream.symm)
    rw [htaken]
    exact ⟨0, Nat.zero_le _, (hpaced htype).1 hop, Nat.zero_le _⟩

/-- Every section that meets `Paced` keeps the bytes read within the reports. -/
theorem Credited.step {a : Action} (h : Credited dev) (hpaced : Paced written a dev)
    (hstep : Step a dev dev') (hread : ∀ s, (takenFrom s dev'.history).length ≤ written s) :
    Credited dev' := by
  refine ⟨h.numbered.step hstep, fun s => sent_le_taken hstep (h.sent s), ?_⟩
  intro c hc hopen header hlast
  cases hstep with
  | packet hcan => exact h.packet hpaced (hcan _ (handleTxPacket_handled _)) hc hopen hlast
  | deliver =>
    rw [popRx_connections] at hc
    rw [lastReport_popRx] at hlast
    rw [popRx_taken, sentOn, popRx_bytes]
    exact h.covers c hc hopen header hlast
  | @pump _ p hcan =>
    have hsound := hcan _ (pumpStreams_sound (fun _ hc => hc) (Pumped.sound_nil dev.connections))
    have hold := mem_pumped_connections hc
    have hsent : sentOn (dev.pumped p) c.2.stream = sentOn dev c.2.stream := by
      show deliveredFrom _ (p.taken ++ dev.history) ++ _ = _
      rw [hsound.delivered]
      rfl
    change lastReport c.1 (p.taken ++ dev.history) = _ at hlast
    rw [hsound.ignored (lastReport c.1) fun _ _ _ _ => rfl] at hlast
    obtain ⟨forwarded, hf, hcnt, hwritten⟩ := hpaced c hold hopen header hlast
    rw [hsent]
    exact ⟨forwarded, hf, hcnt, le_trans (hread _) hwritten⟩
  | @enqueue _ packet before after hflight horder =>
    rw [enqueueRx_connections] at hc
    rw [enqueueRx_history] at hlast ⊢
    obtain ⟨forwarded, hf, hrest⟩ := h.covers c hc hopen header hlast
    have hsent : (sentOn dev c.2.stream).length ≤
        (sentOn (enqueueRx { dev with in_flight := before ++ after } packet)
          c.2.stream).length := by
      rw [sentOn, sentOn, enqueueRx_history]
      rcases enqueueRx_pending { dev with in_flight := before ++ after } packet with heq | heq
      · rw [heq]
      · rw [heq, waiting_append]
        simp only [List.length_append]
        omega
    exact ⟨forwarded, le_trans hf hsent, hrest⟩
  | connect hcan =>
    have hreq := hcan _ (requestGuestStream_requested _)
    rw [hreq.history] at hlast
    rw [hreq.quiet.taken, hreq.quiet.sentOn]
    exact h.covers c (hreq.connection hc hopen) hopen header hlast
  | reset => cases hc
  | restore =>
    rw [(restored_cleared _).connections] at hc
    cases hc
  | transport hconns hpending hflight hopened hhistory =>
    rw [hhistory] at hlast
    rw [sentOn, hhistory, hpending]
    exact h.covers c (hconns.mem_iff.mp hc) hopen header hlast

/-- In every run in which the guest keeps the credit it granted and the host streams hold no more
than the credit left when they are read, the bytes sent are within the credit. -/
theorem paced_within_credit (guest_cid : UInt64) (listener : Bool) {written : Nat → Nat}
    {dev : VsockDevice}
    (hrun : Relation.ReflTransGen Feeds (fun _ => 0, .new guest_cid listener) (written, dev)) :
    WithinCredit dev := by
  have hinv (p : (Nat → Nat) × VsockDevice)
      (hrun : Relation.ReflTransGen Feeds (fun _ => 0, .new guest_cid listener) p) :
      Credited p.2 := by
    induction hrun with
    | refl => exact ⟨numbered_new, fun _ => le_refl _, nofun⟩
    | tail _ hlast ih =>
      cases hlast with
      | write => exact ih
      | step hpaced hstep hread => exact ih.step hpaced hstep hread
  exact (hinv _ hrun).withinCredit

/-- A guest without any buffer is sent a byte. -/
theorem no_credit_exceeded :
    Run (.new 3 true) (fed (connected 0) 1).popRx ∧
      deliveredFrom 0 (fed (connected 0) 1).popRx.history = [1] ∧
      ¬ WithinCredit (fed (connected 0) 1).popRx := by
  have hstart : Run (.new 3 true) (connected 0) := reaches_connected 0 trivial fun _ => trivial
  have hfed : Run (connected 0) (fed (connected 0) 1) := (filled_connected 0).run_fed 1
  refine ⟨hstart.trans (hfed.trans Step.deliver.run), by decide, ?_⟩
  intro h
  have := h (guestKey, ⟨0, 0, 0, 0, true⟩) (by decide) rfl
    (guestHeader PacketOp.REQUEST 0) (by decide)
  revert this
  decide

/-- A guest with a buffer of one byte gets the one byte that the host wrote. -/
theorem one_byte_within_credit :
    ∃ written, Relation.ReflTransGen Feeds (fun _ => 0, .new 3 true)
        (written, (fed (connected 1) 1).popRx) ∧
      written 0 = 1 ∧ deliveredFrom 0 (fed (connected 1) 1).popRx.history = [1] ∧
      WithinCredit (fed (connected 1) 1).popRx := by
  let written : Nat → Nat := Function.update (fun _ => 0) 0 (0 + 1)
  have hone (s : Nat) : (takenFrom s [.taken guestKey 0 [1]]).length ≤ written s := by
    by_cases hs : s = 0
    · rw [hs]
      decide
    · simp [takenFrom, Ne.symm hs]
  have hwrite : Feeds (fun _ => 0, .new 3 true) (written, .new 3 true) := .write 0 1
  have hpacket : Feeds (written, .new 3 true) (written, _) :=
    .step (a := .packet (guestPacket PacketOp.REQUEST 1))
      (fun _ => ⟨fun _ => rfl, fun _ h => by cases h⟩)
      (.packet (Prog.interp_can _ (steadyHost .blocked) ())) fun s => Nat.zero_le (written s)
  have hdeliver : Feeds (written, _) (written, connected 1) :=
    .step (a := .deliver) trivial .deliver fun s => Nat.zero_le (written s)
  have hpump : Feeds (written, connected 1) (written, (connected 1).pumped (onePump 1)) := by
    refine .step ?_ ((filled_connected 1).pump 1) hone
    intro c hc _ header hlast
    rw [(filled_connected 1).connections, List.mem_singleton] at hc
    subst hc
    have hheader : lastReport guestKey (connected 1).history =
        some (guestHeader PacketOp.REQUEST 1) := by
      decide
    rw [hheader] at hlast
    cases hlast
    exact ⟨0, Nat.zero_le _, rfl, by decide⟩
  have hqueue : Feeds (written, (connected 1).pumped (onePump 1)) (written, fed (connected 1) 1) :=
    .step (a := .enqueue (bytePacket 1)) trivial ((filled_connected 1).enqueue 1) hone
  have hlast : Feeds (written, fed (connected 1) 1) (written, (fed (connected 1) 1).popRx) :=
    .step (a := .deliver) trivial .deliver hone
  have hrun :=
    (((((Relation.ReflTransGen.single hwrite).tail hpacket).tail hdeliver).tail hpump).tail
    hqueue).tail hlast
  exact ⟨written, hrun, rfl, by decide, paced_within_credit 3 true hrun⟩

end Tarit.Virtio.Vsock
