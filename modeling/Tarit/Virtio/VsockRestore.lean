import Tarit.Virtio.Rounds
import Tarit.Virtio.VsockStreams

/-!
# Connections of a restored guest

A saved device carries its table of connections and not the packets that wait for the guest. After
a restore every connection of the table is reset. A connection that the device already forgot
while the packet that tells the guest still waited is in neither, and the guest goes on believing
in it. `considersOpen` is the guest's view: what it asked for and what it was told.
-/
namespace Tarit.Virtio.Vsock

open Lib Live Snapshot Prog VsockDevice Connections List

/-- The guest considers the connection open: it asked for it or was told that it is open, and
since then it neither was told that it is closed nor reset it itself. -/
def considersOpen (key : ConnectionKey) : List Event → Bool
  | .received header :: events =>
    if keyFromGuest header = key ∧ header.type_ = STREAM ∧ header.op = PacketOp.REQUEST then true
    else if keyFromGuest header = key ∧ header.type_ = STREAM ∧ header.op = PacketOp.RST then false
    else considersOpen key events
  | .delivered packet :: events =>
    if packet.key = key ∧ packet.Opening then true
    else if packet.key = key ∧ packet.Closing then false
    else considersOpen key events
  | .taken _ _ _ :: events => considersOpen key events
  | .reset :: _ => false
  | [] => false

/-- The queue has room for the packets that close connections. The guest shuts connections down in
both directions, resets none before it took the packet that opened it, and speaks of none whose
opening packet is in flight. The driver resets the device only while nothing is in flight, and a
device is saved only while the packets under way close no connection it forgot. -/
def Orderly : Action → VsockDevice → Prop
  | .packet packet, dev => packet.header.type_ = STREAM →
    (∀ p ∈ dev.in_flight, p.key = keyFromGuest packet.header → ¬ p.Opening) ∧
      (packet.header.op = PacketOp.SHUTDOWN → VsockPacket.FullShutdown packet.header.flags) ∧
      (packet.header.op = PacketOp.RST →
        ∀ p ∈ dev.pending_rx, p.key = keyFromGuest packet.header → ¬ p.Opening)
  | .enqueue packet, dev => packet.Closing → dev.pending_rx.length < MAX_PENDING_RX
  | .reset, dev => dev.in_flight = []
  | .restore, dev => ∀ p ∈ dev.pending_rx ++ dev.in_flight, p.Closing → dev.connections.Has p.key
  | _, _ => True

/-! ## Who accounts for a connection -/

/-- The connection is in the table, or one of the packets closes it. -/
def Covered (table : ConnectionKey → Prop) (packets : List VsockPacket) (key : ConnectionKey) :
    Prop :=
  table key ∨ ∃ p ∈ packets, p.key = key ∧ p.Closing

/-- Every pending packet that opens a connection is followed by its closing one, or the table has
the connection. What is in flight follows everything that is pending. -/
def Backed (table : ConnectionKey → Prop) (flight : List VsockPacket) : List VsockPacket → Prop
  | [] => True
  | p :: pending =>
    (p.Opening → Covered table (pending ++ flight) p.key) ∧ Backed table flight pending

/-- Every connection open for the guest, now or once it takes the packets that wait, is covered. -/
structure Accounts (isOpen : ConnectionKey → Prop) (table : ConnectionKey → Prop)
    (pending flight : List VsockPacket) : Prop where
  covered : ∀ key, isOpen key → Covered table (pending ++ flight) key
  backed : Backed table flight pending

section Accounts

variable {isOpen isOpen' table table' : ConnectionKey → Prop}
  {pending flight flight' : List VsockPacket} {key : ConnectionKey} {x : VsockPacket}

theorem Covered.subset {packets packets' : List VsockPacket} (h : Covered table packets key)
    (hsub : packets ⊆ packets') : Covered table packets' key := by
  rcases h with h | ⟨p, hp, hclosing⟩
  · exact .inl h
  · exact .inr ⟨p, hsub hp, hclosing⟩

theorem Covered.replace (h : Covered table (pending ++ flight) key)
    (hflight : Covered table flight key → Covered table' flight' key) :
    Covered table' (pending ++ flight') key := by
  have hlater (h : Covered table flight key) : Covered table' (pending ++ flight') key :=
    (hflight h).subset (subset_append_right _ _)
  rcases h with h | ⟨p, hp, hclosing⟩
  · exact hlater (.inl h)
  rcases mem_append.mp hp with hp | hp
  · exact .inr ⟨p, mem_append_left _ hp, hclosing⟩
  · exact hlater (.inr ⟨p, hp, hclosing⟩)

theorem Backed.replace (h : Backed table flight pending)
    (hflight : ∀ key, Covered table flight key → Covered table' flight' key) :
    Backed table' flight' pending := by
  induction pending with
  | nil => trivial
  | cons p pending ih => exact ⟨fun hopen => (h.1 hopen).replace (hflight p.key), ih h.2⟩

/-- The table or the packets in flight change, and cover what they covered. -/
theorem Accounts.replace (h : Accounts isOpen table pending flight)
    (hopen : ∀ key, isOpen' key → isOpen key ∨ Covered table' flight' key)
    (hflight : ∀ key, Covered table flight key → Covered table' flight' key) :
    Accounts isOpen' table' pending flight' where
  covered key hkey := by
    rcases hopen key hkey with hkey | hkey
    · exact (h.covered key hkey).replace (hflight key)
    · exact hkey.subset (subset_append_right _ _)
  backed := h.backed.replace hflight

/-- The table grows. -/
theorem Accounts.retable (h : Accounts isOpen table pending flight)
    (hopen : ∀ key, isOpen' key → isOpen key ∨ table' key)
    (htable : ∀ key, table key → table' key) : Accounts isOpen' table' pending flight :=
  h.replace (fun key hkey => (hopen key hkey).imp_right .inl) fun key hkey =>
    hkey.imp_left (htable key)

/-- A packet is built, and what leaves the table is closed by it. -/
theorem Accounts.send (h : Accounts isOpen table pending flight)
    (hopen : ∀ key, isOpen' key → isOpen key ∨ Covered table' [x] key)
    (htable : ∀ key, table key → Covered table' [x] key) :
    Accounts isOpen' table' pending (flight ++ [x]) := by
  have hlast {key : ConnectionKey} (hkey : Covered table' [x] key) :
      Covered table' (flight ++ [x]) key :=
    hkey.subset (subset_append_right _ _)
  apply h.replace
  · exact fun key hkey => (hopen key hkey).imp_right hlast
  · intro key hkey
    rcases hkey with hkey | ⟨p, hp, hclosing⟩
    · exact hlast (htable key hkey)
    · exact .inr ⟨p, mem_append_left _ hp, hclosing⟩

theorem Backed.enqueue (h : Backed table flight pending) (hsub : flight ⊆ x :: flight')
    (hx : x.Opening → table x.key) : Backed table flight' (pending ++ [x]) := by
  induction pending with
  | nil => exact ⟨fun hopen => .inl (hx hopen), trivial⟩
  | cons p pending ih =>
    refine ⟨fun hopen => (h.1 hopen).subset ?_, ih h.2⟩
    show pending ++ flight ⊆ pending ++ [x] ++ flight'
    rw [append_assoc]
    exact append_subset.mpr ⟨subset_append_left _ _, fun q hq => mem_append_right _ (hsub hq)⟩

/-- A packet goes to the end of the queue, from among those in flight or as it is built. -/
theorem Accounts.enqueue (h : Accounts isOpen table pending flight) (hsub : flight ⊆ x :: flight')
    (hx : x.Opening → table x.key) : Accounts isOpen table (pending ++ [x]) flight' where
  covered key hkey := by
    apply (h.covered key hkey).subset
    rw [append_assoc]
    exact append_subset.mpr ⟨subset_append_left _ _, fun q hq => mem_append_right _ (hsub hq)⟩
  backed := h.backed.enqueue hsub hx

/-- The guest resets a connection for which no opening packet waits. -/
theorem Accounts.forget (h : Accounts isOpen table pending flight) {gone : ConnectionKey}
    (hpending : ∀ p ∈ pending, p.key = gone → ¬ p.Opening) :
    Accounts (fun key => isOpen key ∧ key ≠ gone)
      (fun key => table key ∧ key ≠ gone) pending flight where
  covered key hkey := (h.covered key hkey.1).imp_left fun htable => ⟨htable, hkey.2⟩
  backed := by
    have hbacked := h.backed
    clear h
    induction pending with
    | nil => trivial
    | cons p pending ih =>
      refine ⟨fun hopen => ?_, ih (fun q hq => hpending q (mem_cons_of_mem _ hq)) hbacked.2⟩
      have hne : p.key ≠ gone := fun heq => hpending p (mem_cons_self ..) heq hopen
      exact (hbacked.1 hopen).imp_left fun htable => ⟨htable, hne⟩

/-- The guest takes the first packet. -/
theorem Accounts.take {p : VsockPacket} (h : Accounts isOpen table (p :: pending) flight)
    (hopen : ∀ key, isOpen' key → (p.key = key ∧ p.Opening) ∨ isOpen key ∧
      ¬ (p.key = key ∧ p.Closing)) :
    Accounts isOpen' table pending flight where
  covered key hkey := by
    rcases hopen key hkey with ⟨rfl, hp⟩ | ⟨hkey, hp⟩
    · exact h.backed.1 hp
    rcases h.covered key hkey with htable | ⟨q, hq, hclosing⟩
    · exact .inl htable
    rcases mem_cons.mp hq with rfl | hq
    · exact absurd hclosing hp
    · exact .inr ⟨q, hq, hclosing⟩
  backed := h.backed.2

theorem backed_of_not_opening (h : ∀ p ∈ pending, ¬ p.Opening) : Backed table flight pending := by
  induction pending with
  | nil => trivial
  | cons p pending ih =>
    constructor
    · exact fun hopen => absurd hopen (h p (mem_cons_self ..))
    · exact ih fun q hq => h q (mem_cons_of_mem _ hq)

end Accounts

/-- The host asked for the connection, and the guest has not answered yet. -/
def Requesting (cs : Connections) (key : ConnectionKey) : Prop :=
  cs.Has key ∧ ∀ conn, (key, conn) ∈ cs → conn.established = false

/-- The device accounts for every connection the guest considers open, and an opening packet in
flight is the request for one that the guest does not know. -/
structure Known (dev : VsockDevice) : Prop where
  accounts : Accounts (fun key => considersOpen key dev.history = true) dev.connections.Has
    dev.pending_rx dev.in_flight
  requesting : ∀ p ∈ dev.in_flight, p.Opening → Requesting dev.connections p.key

theorem Requesting.congr {cs cs' : Connections} {key : ConnectionKey} (h : Requesting cs key)
    (hkey : ∀ conn, (key, conn) ∈ cs' ↔ (key, conn) ∈ cs) : Requesting cs' key := by
  constructor
  · obtain ⟨c, hc, rfl⟩ := mem_map.mp h.1
    exact mem_map.mpr ⟨c, (hkey c.2).mpr hc, rfl⟩
  · exact fun conn hconn => h.2 conn ((hkey conn).mp hconn)

section Packet

variable {key : ConnectionKey} {header : VsockPacketHeader} {events : List Event}
  (h : considersOpen key (.received header :: events) = true)

include h

theorem considersOpen_received :
    (keyFromGuest header = key ∧ header.type_ = STREAM ∧ header.op = PacketOp.REQUEST) ∨
      considersOpen key events = true := by
  rw [considersOpen] at h
  split at h
  · exact .inl (by assumption)
  split at h
  · cases h
  · exact .inr h

theorem considersOpen_other (hop : header.op ≠ PacketOp.REQUEST) :
    considersOpen key events = true := by
  rcases considersOpen_received h with ⟨-, -, hreq⟩ | h
  · exact absurd hreq hop
  · exact h

theorem considersOpen_closed (htype : header.type_ = STREAM) (hop : header.op = PacketOp.RST) :
    considersOpen key events = true ∧ key ≠ keyFromGuest header := by
  have hne : ¬ header.op = PacketOp.REQUEST := by
    rw [hop]
    decide
  refine ⟨considersOpen_other h hne, ?_⟩
  rintro rfl
  rw [considersOpen, if_neg (fun hreq => hne hreq.2.2), if_pos ⟨rfl, htype, hop⟩] at h
  cases h

end Packet

variable {dev dev' : VsockDevice} {x : VsockPacket} {cs : Connections} {key : ConnectionKey}
  {state : VsockState}

/-- A packet of the guest changes the entries of its own key only. -/
theorem Handled.others {header : VsockPacketHeader} (h : Handled dev header dev')
    (hkey : header.type_ = STREAM → key ≠ keyFromGuest header) (conn : Connection) :
    (key, conn) ∈ dev'.connections ↔ (key, conn) ∈ dev.connections := by
  cases h with
  | refused | credit | ignored => exact .rfl
  | accepted htype =>
    rw [enqueueRx_connections, mem_insert]
    simp [hkey htype]
  | reported f htype =>
    have hkey := hkey htype
    show (key, conn) ∈ dev.connections.map _ ↔ _
    rw [mem_map]
    constructor
    · rintro ⟨c, hc, heq⟩
      split at heq
      · next hown => exact absurd ((congrArg Prod.fst heq).symm.trans hown) hkey
      · exact heq ▸ hc
    · exact fun hc => ⟨_, hc, if_neg hkey⟩
  | broken htype | shutdown htype | closed htype =>
    exact mem_remove.trans (and_iff_left (hkey htype))

/-- A packet of the guest is answered with no opening packet that is queued later. -/
theorem Handled.in_flight {header : VsockPacketHeader} (h : Handled dev header dev')
    {p : VsockPacket} (hp : p ∈ dev'.in_flight) (hopen : p.Opening) : p ∈ dev.in_flight := by
  have hsent (x : VsockPacket) (hx : ¬ x.Opening) (hp : p ∈ dev.in_flight ++ [x]) :
      p ∈ dev.in_flight := by
    rcases mem_append.mp hp with hp | hp
    · exact hp
    · rw [mem_singleton.mp hp] at hopen
      exact absurd hopen hx
  have hreply {op : UInt16} {flags fwd_cnt : UInt32}
      (hop : ¬ (op = PacketOp.REQUEST ∨ op = PacketOp.RESPONSE)) :
      ¬ (replyPacket header op flags fwd_cnt).Opening := hop
  cases h with
  | refused | broken => exact hsent _ (hreply (by decide)) hp
  | credit => exact hsent _ (hreply (by decide)) hp
  | shutdown => exact hsent _ (hreply (by decide)) hp
  | accepted =>
    rw [enqueueRx_in_flight] at hp
    exact hp
  | reported | closed | ignored => exact hp

/-- Packets of an orderly guest leave every open connection accounted for. -/
theorem Known.packet {packet : VsockPacket} (h : Known dev) (hok : Orderly (.packet packet) dev)
    (hhandled : Handled (dev.receive packet.header) packet.header dev') : Known dev' := by
  have hrst : VsockPacket.Closing (replyPacket packet.header PacketOp.RST 0 0) := .inl rfl
  -- the connection leaves the table, and the answer in flight closes it
  have hdrop {x : VsockPacket} (hx : x.key = keyFromGuest packet.header) (hclosing : x.Closing)
      (hop : packet.header.op ≠ PacketOp.REQUEST) :
      Accounts (fun k => considersOpen k (.received packet.header :: dev.history) = true)
        (Connections.remove dev.connections (keyFromGuest packet.header)).Has dev.pending_rx
        (dev.in_flight ++ [x]) := by
    apply h.accounts.send
    · exact fun k hk => .inl (considersOpen_other hk hop)
    · intro k hk
      by_cases heq : k = keyFromGuest packet.header
      · exact .inr ⟨x, mem_singleton_self x, by rw [hx, heq], hclosing⟩
      · exact .inl (has_remove.mpr ⟨hk, heq⟩)
  constructor
  · cases hhandled with
    | refused =>
      apply h.accounts.send
      · intro k hk
        rcases considersOpen_received hk with ⟨hkey, -⟩ | hk
        · exact .inr (.inr ⟨_, mem_singleton_self _, hkey, hrst⟩)
        · exact .inl hk
      · exact fun k hk => .inl hk
    | accepted htype hop hcap =>
      have htable : Accounts (fun k =>
        considersOpen k (.received packet.header :: dev.history) = true)
          (Connections.insert dev.connections (keyFromGuest packet.header)
            ⟨dev.opened, packet.header.buf_alloc, packet.header.fwd_cnt, 0, true⟩).Has
          dev.pending_rx dev.in_flight := by
        apply h.accounts.retable
        · intro k hk
          rcases considersOpen_received hk with ⟨hkey, -⟩ | hk
          · exact .inr (has_insert.mpr (.inr hkey.symm))
          · exact .inl hk
        · exact fun k hk => has_insert.mpr (.inl hk)
      rw [enqueueRx_history, enqueueRx_connections, enqueueRx_in_flight]
      rcases enqueueRx_pending _ _ with heq | heq
      · rw [heq]
        exact htable
      · rw [heq]
        exact htable.enqueue (subset_cons_self _ _) fun _ => has_insert.mpr (.inr rfl)
    | reported f htype hop hstream =>
      apply h.accounts.retable
      · exact fun k hk => .inl (considersOpen_other hk hop.1)
      · intro k hk
        rw [Connections.Has, keys_modify]
        exact hk
    | credit fwd_cnt hop =>
      apply h.accounts.send
      · exact fun k hk => .inl (considersOpen_other hk (by rw [hop]; decide))
      · exact fun k hk => .inl hk
    | broken htype hop => exact hdrop rfl hrst (by rw [hop]; decide)
    | shutdown htype hop =>
      exact hdrop rfl (.inr ⟨rfl, (hok htype).2.1 hop⟩) (by rw [hop]; decide)
    | closed htype hop =>
      apply (h.accounts.forget ((hok htype).2.2 hop)).retable
      · exact fun k hk => .inl (considersOpen_closed hk htype hop)
      · exact fun k hk => has_remove.mpr hk
    | ignored hop =>
      apply h.accounts.retable
      · exact fun k hk => .inl (considersOpen_other hk (by rw [hop]; decide))
      · exact fun k hk => hk
  · intro p hp hopen
    have hp : p ∈ dev.in_flight := hhandled.in_flight hp hopen
    apply (h.requesting p hp hopen).congr
    apply hhandled.others
    exact fun htype hkey => (hok htype).1 p hp hkey hopen

/-! ## The other sections -/

theorem Known.deliver (h : Known dev) : Known dev.popRx := by
  unfold VsockDevice.popRx
  split
  · exact h
  rename_i p rest hpending
  refine ⟨?_, h.requesting⟩
  have haccounts := h.accounts
  rw [hpending] at haccounts
  apply haccounts.take
  intro key hkey
  rw [considersOpen] at hkey
  split at hkey
  · exact .inl (by assumption)
  split at hkey
  · cases hkey
  · exact .inr ⟨hkey, by assumption⟩

/-- A connection that a reading closes leaves the table with its closing packet in flight. -/
theorem Known.pump {p : Pumped} (h : Known dev) (hsound : p.Sound dev.connections) :
    Known (dev.pumped p) := by
  constructor
  · apply h.accounts.replace
    · intro key hkey
      change considersOpen key (p.taken ++ dev.history) = true at hkey
      rw [hsound.ignored (considersOpen key) fun _ _ _ _ => rfl] at hkey
      exact .inl hkey
    · intro key hkey
      rcases hkey with hkey | ⟨x, hx, hclosing⟩
      · by_cases hclosed : key ∈ p.closed
        · obtain ⟨x, hx, hclosing⟩ := (hsound.closed key hclosed).1
          exact .inr ⟨x, mem_append_right _ hx, hclosing⟩
        · obtain ⟨c, hc, rfl⟩ := mem_map.mp hkey
          exact .inl (mem_map.mpr ⟨c, mem_filter.mpr ⟨hc, by simpa using hclosed⟩, rfl⟩)
      · exact .inr ⟨x, mem_append_left _ hx, hclosing⟩
  · intro x hx hopen
    rcases mem_append.mp hx with hx | hx
    · have hreq := h.requesting x hx hopen
      have hkept : x.key ∉ p.closed := by
        intro hclosed
        obtain ⟨conn, hconn, hest⟩ := (hsound.closed _ hclosed).2
        rw [hreq.2 conn hconn] at hest
        cases hest
      apply hreq.congr
      intro conn
      show (x.key, conn) ∈ dev.connections.filter _ ↔ _
      rw [mem_filter]
      exact and_iff_left (by simpa using hkept)
    · exact absurd hopen (hsound.packets x hx).1

/-- A closing packet that finds room covers its connection from the queue. -/
theorem Known.enqueue {before after : List VsockPacket} (h : Known dev)
    (hflight : dev.in_flight = before ++ x :: after) (hok : Orderly (.enqueue x) dev) :
    Known ({ dev with in_flight := before ++ after }.enqueueRx x) := by
  have hsub : dev.in_flight ⊆ x :: (before ++ after) := by
    rw [hflight]
    exact (perm_middle).subset
  have hx : x.Opening → dev.connections.Has x.key := by
    intro hopen
    refine (h.requesting x ?_ hopen).1
    rw [hflight]
    exact mem_append_right _ (mem_cons_self ..)
  constructor
  · rw [enqueueRx_history, enqueueRx_connections, enqueueRx_in_flight]
    rcases enqueueRx_pending { dev with in_flight := before ++ after } x with heq | heq
    · rw [heq]
      have hopen : ¬ x.Closing := by
        intro hclosing
        have hqueued := @enqueueRx_room { dev with in_flight := before ++ after } x (hok hclosing)
        rw [hqueued] at heq
        simp at heq
      apply h.accounts.replace (fun key hkey => .inl hkey)
      intro key hkey
      rcases hkey with hkey | ⟨p, hp, hkey, hclosing⟩
      · exact .inl hkey
      rcases mem_cons.mp (hsub hp) with rfl | hp
      · exact absurd hclosing hopen
      · exact .inr ⟨p, hp, hkey, hclosing⟩
    · rw [heq]
      exact h.accounts.enqueue hsub hx
  · rw [enqueueRx_connections, enqueueRx_in_flight]
    intro p hp
    apply h.requesting p
    rw [hflight]
    exact (sublist_cons_self x after).append_left before |>.subset hp

theorem Known.request (h : Known dev) (hreq : Requested dev dev') : Known dev' := by
  cases hreq with
  | refused => exact ⟨h.accounts, h.requesting⟩
  | opened key seq hcap =>
    constructor
    · apply h.accounts.send
      · exact fun k hk => .inl hk
      · exact fun k hk => .inl (has_insert.mpr (.inl hk))
    · intro p hp hopen
      have hentry (conn : Connection)
          (hconn : (p.key, conn) ∈ Connections.insert dev.connections key
            ⟨dev.opened, DEFAULT_BUF_ALLOC, 0, 0, false⟩) :
          ((p.key, conn) ∈ dev.connections ∧ p.key ≠ key) ∨ conn.established = false := by
        rcases mem_insert.mp hconn with hconn | hconn
        · exact .inl hconn
        · right
          rw [(Prod.mk.inj hconn).2]
      rcases mem_append.mp hp with hp | hp
      · have hreq := h.requesting p hp hopen
        refine ⟨has_insert.mpr (.inl hreq.1), fun conn hconn => ?_⟩
        rcases hentry conn hconn with ⟨hconn, -⟩ | hconn
        · exact hreq.2 conn hconn
        · exact hconn
      · have hkey : p.key = key := by
          rw [mem_singleton.mp hp]
          rfl
        refine ⟨has_insert.mpr (.inr hkey), fun conn hconn => ?_⟩
        rcases hentry conn hconn with ⟨-, hne⟩ | hconn
        · exact absurd hkey hne
        · exact hconn

theorem has_perm {cs' : Connections} (h : cs'.Perm cs) :
    Connections.Has cs' = Connections.Has cs := by
  funext key
  exact propext (h.map Prod.fst).mem_iff

/-! ## The table is bounded -/

theorem has_of_containsKey (h : Connections.containsKey cs key = true) : cs.Has key := by
  obtain ⟨conn, hconn⟩ := Option.isSome_iff_exists.mp h
  obtain ⟨before, after, rfl, -⟩ := lookup_eq_some_iff.mp hconn
  exact mem_map.mpr ⟨(key, conn), by simp, rfl⟩

theorem length_remove_le (cs : Connections) (key : ConnectionKey) :
    (Connections.remove cs key).length ≤ cs.length := length_filter_le _ _

theorem length_remove_lt (h : cs.Has key) : (Connections.remove cs key).length < cs.length := by
  obtain ⟨c, hc, rfl⟩ := mem_map.mp h
  apply length_filter_lt_length_iff_exists.mpr
  exact ⟨c, hc, by simp⟩

theorem length_insert_le {conn : Connection} (h : cs.length ≤ MAX_CONNECTIONS)
    (hcap : cs.length < MAX_CONNECTIONS ∨ cs.Has key) :
    (Connections.insert cs key conn).length ≤ MAX_CONNECTIONS := by
  rw [Connections.insert, length_append, length_singleton]
  rcases hcap with hcap | hcap
  · have := length_remove_le cs key
    omega
  · have := length_remove_lt hcap
    omega

theorem Handled.length {header : VsockPacketHeader} (hhandled : Handled dev header dev')
    (h : dev.connections.length ≤ MAX_CONNECTIONS) : dev'.connections.length ≤ MAX_CONNECTIONS := by
  have hremove := le_trans (length_remove_le dev.connections (keyFromGuest header)) h
  cases hhandled with
  | refused | credit => exact h
  | accepted htype hop hcap =>
    rw [enqueueRx_connections]
    apply length_insert_le h
    rw [Connections.insertWouldExceedCap, Bool.and_eq_false_iff] at hcap
    rcases hcap with hcap | hcap
    · exact .inl (by simpa using hcap)
    · exact .inr (has_of_containsKey (by simpa using hcap))
  | reported =>
    rw [Connections.modify, length_map]
    exact h
  | broken | shutdown | closed => exact hremove
  | ignored => exact h

theorem Requested.length (hreq : Requested dev dev')
    (h : dev.connections.length ≤ MAX_CONNECTIONS) : dev'.connections.length ≤ MAX_CONNECTIONS := by
  cases hreq with
  | refused => exact h
  | opened key seq hcap => exact length_insert_le h (.inl hcap)

/-- No step takes a connection beyond `MAX_CONNECTIONS`. -/
theorem Step.length {a : Action} (hstep : Step a dev dev')
    (h : dev.connections.length ≤ MAX_CONNECTIONS) : dev'.connections.length ≤ MAX_CONNECTIONS := by
  cases hstep with
  | packet hcan => exact (hcan _ (handleTxPacket_handled _)).length h
  | deliver =>
    rw [popRx_connections]
    exact h
  | pump => exact le_trans (length_filter_le _ _) h
  | enqueue =>
    rw [enqueueRx_connections]
    exact h
  | connect hcan => exact Requested.length (hcan _ (requestGuestStream_requested _)) h
  | reset => exact Nat.zero_le _
  | restore =>
    rw [(restored_cleared _).connections]
    exact Nat.zero_le _
  | transport hconns =>
    rw [hconns.length_eq]
    exact h

/-- A call came back, on any guest memory and with any answers of the host. -/
inductive Called (dev dev' : VsockDevice) : Prop where
  | rx {L fuel e} (h : (processRxQueue L fuel dev).Can (some (e, dev')))
  | tx {L fuel e} (h : (processTxQueue L fuel dev).Can (some (e, dev')))
  | pump {L fuel e} (h : (pumpHostStreams L fuel dev).Can (some (e, dev')))
  | connect {L fuel port e} (h : (connectGuestStream L fuel dev port).Can (some (e, dev')))

/-- No sequence of calls makes the table larger than its cap. -/
theorem calls_within_cap (hcalls : Relation.ReflTransGen Called dev dev')
    (h : dev.connections.length ≤ MAX_CONNECTIONS) : dev'.connections.length ≤ MAX_CONNECTIONS := by
  induction hcalls with
  | refl => exact h
  | @tail dev dev' _ hcall ih =>
    have hrun : Run dev dev' := by
      cases hcall with
      | rx hcan => exact hcan _ processRxQueue_run _ _ rfl
      | tx hcan => exact hcan _ processTxQueue_run _ _ rfl
      | pump hcan => exact hcan _ pumpHostStreams_run _ _ rfl
      | connect hcan => exact hcan _ (connectGuestStream_run _) _ _ rfl
    exact hrun.invariant (fun _ _ _ _ hstep => hstep.length) ih

theorem first_call_within_cap :
    ∃ dev, Called (.new 3 true) dev ∧ dev.connections ≠ [] ∧
      dev.connections.length ≤ MAX_CONNECTIONS := by
  have hcall : Called (.new 3 true) _ := @Called.connect _ _ onePage 0 80 _ fun _ h => h true
  exact ⟨_, hcall, by simp [Connections.insert],
    calls_within_cap (.single hcall) (Nat.zero_le _)⟩

/-! ## Restoring -/

def resets (states : List VsockConnectionState) : List VsockPacket :=
  states.map fun c => hostPacket c.key PacketOp.RST 0 [] c.fwd_cnt none

theorem snapshotState_connections (h : dev.snapshotState = some state) :
    state.connections = dev.connections.map fun c => ⟨c.1, c.2.fwd_cnt⟩ := by
  unfold VsockDevice.snapshotState at h
  split at h
  · cases h
  · cases h
    rfl

theorem queueResets_pending {fresh : VsockDevice}
    (hlength : dev.connections.length ≤ MAX_CONNECTIONS) (hsave : dev.snapshotState = some state)
    (hempty : fresh.pending_rx = []) :
    (fresh.queueResets state.connections).pending_rx = resets state.connections := by
  have hmax : MAX_CONNECTIONS ≤ MAX_PENDING_RX := by decide
  rw [queueResets_eq, enqueueAll_room]
  · rw [hempty]
    rfl
  · rw [hempty, length_map, snapshotState_connections hsave, length_map]
    simpa using le_trans hlength hmax

theorem mem_resets (hsave : dev.snapshotState = some state) (h : dev.connections.Has key) :
    ∃ p ∈ resets state.connections, p.key = key ∧ p.header.op = PacketOp.RST := by
  obtain ⟨c, hc, rfl⟩ := mem_map.mp h
  refine ⟨hostPacket c.1 PacketOp.RST 0 [] c.2.fwd_cnt none, ?_, rfl, rfl⟩
  rw [resets, snapshotState_connections hsave, map_map]
  exact mem_map.mpr ⟨c, hc, rfl⟩

/-- While no forgotten connection waits to be closed, the table has all the guest knows. -/
theorem Known.table (h : Known dev)
    (hclosing : ∀ p ∈ dev.pending_rx ++ dev.in_flight, p.Closing → dev.connections.Has p.key)
    (hkey : considersOpen key dev.history = true) : dev.connections.Has key := by
  rcases h.accounts.covered key hkey with htable | ⟨p, hp, rfl, hp'⟩
  · exact htable
  · exact hclosing p hp hp'

theorem Known.restore (guest_cid : UInt64) (listener : Bool) (h : Known dev)
    (hlength : dev.connections.length ≤ MAX_CONNECTIONS) (hsave : dev.snapshotState = some state)
    (hclosing : ∀ p ∈ dev.pending_rx ++ dev.in_flight, p.Closing → dev.connections.Has p.key) :
    Known ((dev.restored (.new guest_cid listener) state).queueResets state.connections) := by
  have hpending : ((dev.restored (.new guest_cid listener) state).queueResets
      state.connections).pending_rx = resets state.connections :=
      queueResets_pending hlength hsave rfl
  have hhistory :
    ((dev.restored (.new guest_cid listener) state).queueResets state.connections).history =
      dev.history := by
    rw [queueResets_eq, enqueueAll_history]
    rfl
  constructor
  · rw [hpending, hhistory, restored_flight]
    constructor
    · intro key hkey
      obtain ⟨p, hp, hpkey, hop⟩ := mem_resets hsave (h.table hclosing hkey)
      exact .inr ⟨p, mem_append_left _ hp, hpkey, .inl hop⟩
    · apply backed_of_not_opening
      intro p hp
      obtain ⟨c, -, rfl⟩ := mem_map.mp hp
      exact VsockPacket.Closing.not_opening (.inl rfl)
  · rw [restored_flight]
    exact nofun

/-- Every orderly section keeps the open connections accounted for. -/
theorem Known.step {a : Action} (h : Known dev)
    (hlength : dev.connections.length ≤ MAX_CONNECTIONS) (hok : Orderly a dev)
    (hstep : Step a dev dev') : Known dev' := by
  cases hstep with
  | packet hcan => exact h.packet hok (hcan _ (handleTxPacket_handled _))
  | deliver => exact h.deliver
  | pump hcan =>
    exact h.pump (hcan _ (pumpStreams_sound (fun _ hc => hc) (Pumped.sound_nil dev.connections)))
  | enqueue hflight horder => exact h.enqueue hflight hok
  | connect hcan => exact h.request (hcan _ (requestGuestStream_requested _))
  | reset =>
    refine ⟨⟨nofun, trivial⟩, ?_⟩
    intro p hp
    change p ∈ dev.in_flight at hp
    rw [show dev.in_flight = [] from hok] at hp
    cases hp
  | restore hsave => exact h.restore _ _ hlength hsave hok
  | transport hconns hpending hflight hopened hhistory =>
    constructor
    · rw [hhistory, hpending, hflight, has_perm hconns]
      exact h.accounts
    · rw [hflight]
      exact fun p hp hopen => (h.requesting p hp hopen).congr fun conn => hconns.mem_iff

/-- A packet that waits is delivered or goes on waiting. -/
theorem rxHandler_keeps (p : VsockPacket) (dev : VsockDevice) (readable writable : List Buf) :
    (rxHandler dev readable writable).Gives fun r =>
      (p ∈ dev.pending_rx ∨ .delivered p ∈ dev.history) →
        (p ∈ r.2.pending_rx ∨ .delivered p ∈ r.2.history) := by
  unfold rxHandler
  split
  · exact fun h => h
  rename_i first rest hpending
  apply gives_ite
  · exact fun _ h => h
  intro _
  apply gives_skip
  intro ok
  cases ok with
  | false => exact fun h => h
  | true =>
    intro h
    unfold VsockDevice.popRx
    rw [hpending] at h ⊢
    rcases h with h | h
    · rcases mem_cons.mp h with rfl | h
      · exact .inr (mem_cons_self ..)
      · exact .inl h
    · exact .inr (mem_cons_of_mem _ h)

/-- A device without walkers yet returns, and loses no packet that waits. -/
theorem processRxQueue_fresh {L : Layout} (fuel : Nat) (hfresh : dev.rx_processor = none) :
    (processRxQueue L (fuel + 1) dev).Gives fun r => ∃ e dev', r = some (e, dev') ∧
      ∀ p ∈ dev.pending_rx, p ∈ dev'.pending_rx ∨ .delivered p ∈ dev'.history := by
  apply gives_ite
  · exact fun _ => ⟨_, dev, rfl, fun p hp => .inl hp⟩
  intro _
  split
  · exact ⟨_, dev, rfl, fun p hp => .inl hp⟩
  rename_i cfg _
  have hplain : (attach dev.rx_processor dev.rx_queue cfg).event_idx = false := by
    rw [hfresh]
    rfl
  have hkept (p : VsockPacket) := process_captured (L := L)
    (R := fun d d' : VsockDevice => (p ∈ d.pending_rx ∨ .delivered p ∈ d.history) →
      (p ∈ d'.pending_rx ∨ .delivered p ∈ d'.history))
    (fun _ h => h) (fun _ _ _ h h' hp => h' (h hp)) (rxHandler_keeps p) (fuel + 1)
    (attach dev.rx_processor dev.rx_queue cfg) dev
  apply gives_bind (.and (process_plain fuel hplain dev) (gives_forall hkept))
  intro r hr
  obtain ⟨⟨s, rfl⟩, hcaptured⟩ := hr
  refine ⟨_, _, rfl, fun p hp => ?_⟩
  have h := hcaptured p s rfl (.inl hp)
  split
  · exact h
  · exact h

def closePacket : VsockPacket :=
  hostPacket guestKey PacketOp.SHUTDOWN (ShutdownFlags.RCV ||| ShutdownFlags.SEND) [] 0 (some 0)

def closePump : Pumped where
  packets := [closePacket]
  closed := [guestKey]
  taken := []

end Tarit.Virtio.Vsock
