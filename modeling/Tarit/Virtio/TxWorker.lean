import Tarit.Virtio.Kick
import Tarit.Virtio.NetWorker

/-!
# The network worker and its rate limiter

The loop of `run` in `net_io_loop.rs` beside a driver, with the token buckets of
`rate_limit.rs` and a clock. The worker runs `process_tx_queue` when its kick counter is set or
a pause is requested, and at no other time. A charge the limiter refuses ends the call with
chains left over: `avail_event` then names an index behind what the driver published, the driver
does not kick again, and no event of the loop comes from the limiter's clock.
-/
namespace Tarit.Virtio.Net

open Lib Live Snapshot World Prog Triple

/-! ## The rate limiter -/

def NANOS_PER_SEC : Nat := 1000000000

-- The sums of 64-bit amounts stay far inside the source's 128-bit integers, so that its
-- saturating operations are plain ones.
structure TokenBucket where
  capacity : Nat
  refill_per_sec : Nat
  tokens : Int
  last_refill_ns : Nat
  deriving DecidableEq

namespace TokenBucket

def newAt (capacity refill_per_sec now_ns : Nat) : TokenBucket :=
  ⟨capacity, refill_per_sec, capacity, now_ns⟩

def refill (b : TokenBucket) (now_ns : Nat) : TokenBucket :=
  if b.refill_per_sec = 0 ∨ now_ns ≤ b.last_refill_ns then b
  else
    let elapsed_ns := now_ns - b.last_refill_ns
    let added := elapsed_ns * b.refill_per_sec / NANOS_PER_SEC
    if added = 0 then b
    else
      let elapsed_for_added := max (added * NANOS_PER_SEC / b.refill_per_sec) 1
      let tokens := min (b.tokens + added) b.capacity
      { b with
        tokens := tokens
        last_refill_ns :=
          if b.capacity ≤ tokens then now_ns
          else b.last_refill_ns + min elapsed_for_added elapsed_ns }

def canConsume (b : TokenBucket) (amount : Nat) : Bool :=
  if amount = 0 then true
  else if b.capacity = 0 then false
  else if amount ≤ b.capacity then amount ≤ b.tokens
  else b.capacity ≤ b.tokens

def consumeWithoutRefill (b : TokenBucket) (amount : Nat) : TokenBucket :=
  { b with tokens := b.tokens - amount }

end TokenBucket

structure RateLimiter where
  ops : TokenBucket
  bytes : TokenBucket
  deriving DecidableEq

namespace RateLimiter

def newAt (ops_per_sec bytes_per_sec now_ns : Nat) : RateLimiter :=
  ⟨.newAt ops_per_sec ops_per_sec now_ns, .newAt bytes_per_sec bytes_per_sec now_ns⟩

def tryChargeAt (l : RateLimiter) (ops bytes now_ns : Nat) : Bool × RateLimiter :=
  let l := { ops := l.ops.refill now_ns, bytes := l.bytes.refill now_ns : RateLimiter }
  if ¬ l.ops.canConsume ops ∨ ¬ l.bytes.canConsume bytes then (false, l)
  else (true, ⟨l.ops.consumeWithoutRefill ops, l.bytes.consumeWithoutRefill bytes⟩)

end RateLimiter

/-! ## Around the worker -/

/-- What is around the worker beside guest memory. `driver.rung` is the part of the counter of
the kick eventfd that transmit kicks make up. -/
structure Outside where
  driver : Driver
  limiter : RateLimiter
  /-- The limiter's clock. -/
  now_ns : Nat
  pause_req : Bool

/-- The driver goes on, time passes, and pauses are requested and withdrawn. -/
inductive OutsideStep (c : QueueConfig) (event_idx : Bool) :
    Guest × Outside → Guest × Outside → Prop where
  | driver {g g' : Guest} {o : Outside} {d : Driver}
      (h : DriverStep c event_idx (g, o.driver) (g', d)) :
      OutsideStep c event_idx (g, o) (g', { o with driver := d })
  | tick {g : Guest} {o : Outside} {now_ns : Nat} (h : o.now_ns ≤ now_ns) :
      OutsideStep c event_idx (g, o) (g, { o with now_ns := now_ns })
  | pause {g : Guest} {o : Outside} (pause_req : Bool) :
      OutsideStep c event_idx (g, o) (g, { o with pause_req := pause_req })

/-- The tap answers anything, the limiter what its buckets allow. With `granted` only the runs
count in which it refuses nothing. -/
def outsideAnswers (granted : Bool) : (call : Call) → Outside → Answer call → Outside → Prop
  | .charge bytes, o, r, o' =>
    r = (o.limiter.tryChargeAt 1 bytes o.now_ns).1 ∧
      o' = { o with limiter := (o.limiter.tryChargeAt 1 bytes o.now_ns).2 } ∧
      (granted = true → r = true)
  | .write _, o, _, o' => o' = o
  | .read _, o, _, o' => o' = o
  | .readable, o, _, o' => o' = o

/-- The worker while it transmits. -/
abbrev txWorld (L : Layout) (c : QueueConfig) (event_idx granted : Bool) :
    World (Guest × Outside) (Op Call) (Res Answer) :=
  deviceWorld L (fun _ _ => True) (OutsideStep c event_idx) (outsideAnswers granted)

/-- Stores off the two index fields of the transmit queue. -/
def OffTx (c : QueueConfig) (addr : Nat) (data : Bytes) : Prop :=
  Off c.idxAt 2 addr data ∧ Off c.eventAt 2 addr data

/-- The worker while it receives, on a queue apart from the transmit queue's indices. -/
abbrev rxWorld (L : Layout) (c : QueueConfig) (event_idx : Bool) :
    World (Guest × Outside) (Op Call) (Res Answer) :=
  deviceWorld L (OffTx c) (OutsideStep c event_idx) (outsideAnswers false)

def NetDevice.txWalker (dev : NetDevice) : VirtQueueProcessor :=
  attach dev.tx_processor dev.tx_queue dev.eventIdx

/-- What of the device the transmit side reads. Other threads change the rest. -/
def SameTx (dev dev' : NetDevice) : Prop :=
  dev'.tx_queue = dev.tx_queue ∧ dev'.tx_processor = dev.tx_processor ∧
    dev'.guest_features = dev.guest_features

/-- The states in which the worker waits in `epoll_wait` or, after a pause, is parked. `granted`
says whether the limiter has refused no transmit charge so far. -/
inductive WorkerWaits (L : Layout) (c : QueueConfig) (event_idx granted : Bool) :
    Guest × Outside → Slot → Bool → Prop where
  | start {x : Guest × Outside} {slot : Slot}
      (h : Started c event_idx (x.1, x.2.driver) slot.dev.txWalker) :
      WorkerWaits L c event_idx granted x slot false
  | outside {x y : Guest × Outside} {slot : Slot} {parked : Bool}
      (h : WorkerWaits L c event_idx granted x slot parked) (hstep : OutsideStep c event_idx x y) :
      WorkerWaits L c event_idx granted y slot parked
  /-- Register accesses of the guest. -/
  | mmio {x : Guest × Outside} {slot : Slot} {parked : Bool} {dev : NetDevice}
      (h : WorkerWaits L c event_idx granted x slot parked) (hsame : SameTx slot.dev dev) :
      WorkerWaits L c event_idx granted x { slot with dev := dev } parked
  /-- `drain_kick` after the kick counter was set. The counter is shared with the receive
  queue, so this may come without a transmit kick. -/
  | kick {g : Guest} {o : Outside} {y : Guest × Outside} {slot : Slot} {fuel n : Nat}
      {dev : NetDevice}
      (h : WorkerWaits L c event_idx granted (g, o) slot false)
      (hrun : (txWorld L c event_idx granted).Runs (processTxQueue L fuel slot.dev)
        (g, { o with driver := { o.driver with rung := 0 } }) (some (.ok n, dev)) y) :
      WorkerWaits L c event_idx granted y { slot with dev := dev } false
  /-- `drain_tap`, when the tap is ready or the receive side was blocked. -/
  | tap {x y : Guest × Outside} {slot slot' : Slot} {fuel : Nat} {rx : Rx}
      (h : WorkerWaits L c event_idx granted x slot false) (hrx : rx ≠ .failed)
      (hrun : (rxWorld L c event_idx).Runs (drainTap L fuel slot) x (some (rx, slot')) y) :
      WorkerWaits L c event_idx granted y slot' false
  /-- A pause request: `drain_kick`, kicked or not, then `drain_tap`, then the worker parks. -/
  | pause {g : Guest} {o : Outside} {y z : Guest × Outside} {slot slot' : Slot} {fuel n : Nat}
      {dev : NetDevice} {rx : Rx}
      (h : WorkerWaits L c event_idx granted (g, o) slot false) (hreq : o.pause_req = true)
      (htx : (txWorld L c event_idx granted).Runs (processTxQueue L fuel slot.dev)
        (g, { o with driver := { o.driver with rung := 0 } }) (some (.ok n, dev)) y)
      (hrx : rx ≠ .failed)
      (hrun : (rxWorld L c event_idx).Runs (drainTap L fuel { slot with dev := dev }) y
        (some (rx, slot')) z) :
      WorkerWaits L c event_idx granted z slot' true
  | resume {x : Guest × Outside} {slot : Slot} (h : WorkerWaits L c event_idx granted x slot true)
      (hreq : x.2.pause_req = false) : WorkerWaits L c event_idx granted x slot false

/-- There are entries the device has not consumed, the limiter has tokens for a frame of so many
bytes, and neither a kick nor a pause request makes the loop run `process_tx_queue`, nor will the
driver kick for what it has published. -/
structure Stranded (c : QueueConfig) (bytes : Nat) (x : Guest × Outside) (dev : NetDevice) :
    Prop where
  published : word x.1.cells c.idxAt ≠ dev.txWalker.last_avail_idx
  tokens : (x.2.limiter.tryChargeAt 1 bytes x.2.now_ns).1 = true
  rung : x.2.driver.rung = 0
  ringing : x.2.driver.ringing = 0
  checked : x.2.driver.checked = x.2.driver.published
  pause_req : x.2.pause_req = false

/-! ## The driver -/

variable {x y : Guest × Outside} {o : Outside} {L : Layout} {c : QueueConfig} {event_idx : Bool}
  {last : UInt16} {dev : NetDevice} {fuel : Nat}

/-- The steps of everything around the worker are steps of the driver, or none. -/
theorem OutsideStep.driverStep (h : OutsideStep c event_idx x y) :
    DriverStep c event_idx (x.1, x.2.driver) (y.1, y.2.driver) := by
  cases h with
  | driver h => exact h
  | tick h | pause pause_req => exact .write _ _ _ rfl fun _ => rfl

theorem outsideAnswers_driver {granted : Bool} {call : Call} {o' : Outside} {r : Answer call}
    (h : outsideAnswers granted call o r o') : o'.driver = o.driver := by
  cases call with
  | charge bytes => rw [h.2.1]
  | write wire | read room | readable => rw [show o' = o from h]

/-- A worker that waits hears of what the driver publishes. -/
structure TxReady (c : QueueConfig) (event_idx : Bool) (last : UInt16) (x : Guest × Outside) :
    Prop where
  keeps : Keeping c Outside.driver x
  armed : Driver.Armed c event_idx last (x.1, x.2.driver)

/-- The worker stays ready while the driver goes on, time passes or pauses come and go. -/
theorem TxReady.step (h : TxReady c event_idx last x) (hc : Placed L c)
    (hstep : OutsideStep c event_idx x y) : TxReady c event_idx last y :=
  ⟨hstep.driverStep.keeps h.keeps, hstep.driverStep.armed hc.event_apart h.keeps h.armed⟩

theorem TxReady.mark (h : TxReady c event_idx last x) (gpa len : Nat) :
    TxReady c event_idx last ({ x.1 with dirty := markGuestRange x.1.dirty gpa len }, x.2) :=
  ⟨h.keeps.mark, h.armed⟩

theorem TxReady.store (h : TxReady c event_idx last x) {addr : Nat} {data : Bytes}
    (hidx : Off c.idxAt 2 addr data) (hevent : event_idx = true → Off c.eventAt 2 addr data) :
    TxReady c event_idx last (x.1.store L addr data, x.2) := by
  have hword (he : event_idx = true) :
      word (x.1.store L addr data).cells c.eventAt = word x.1.cells c.eventAt := by
    apply word_store_outside
    have := hevent he
    unfold Off at this
    omega
  constructor
  · exact h.keeps.store hidx
  · rcases h.armed with harmed | harmed | ⟨n, hlo, hhi, hn, hlast⟩
    · exact .inl harmed
    · exact .inr (.inl harmed)
    · exact .inr (.inr ⟨n, hlo, hhi, hn, fun he => (hword he).trans (hlast he)⟩)

/-- A driver without `RING_EVENT_IDX` does not look at `avail_event`. -/
theorem TxReady.plain_store (h : TxReady c false last x) {addr : Nat} {data : Bytes}
    (hidx : Off c.idxAt 2 addr data) : TxReady c false last (x.1.store L addr data, x.2) :=
  h.store hidx fun he => absurd he Bool.false_ne_true

theorem TxReady.outside (h : TxReady c event_idx last x) (ho : o.driver = x.2.driver) :
    TxReady c event_idx last (x.1, o) := by
  constructor
  · change Driver.Keeps c (x.1, o.driver)
    rw [ho]
    exact h.keeps
  · rw [ho]
    exact h.armed

section Transmit

attribute [local irreducible] Triple

variable {granted : Bool} {q : VirtQueueProcessor}

theorem stable_keeping : (txWorld L c event_idx granted).Stable (Keeping c Outside.driver) :=
  fun _ _ hx he => he.driverStep.keeps hx

theorem stable_txReady (hc : Placed L c) :
    (txWorld L c event_idx granted).Stable (TxReady c event_idx last) :=
  fun _ _ hx he => hx.step hc he

theorem gather_uses (max_frame : Nat) (readable : List Buf) (buf : Bytes) :
    (gather max_frame readable buf).Uses (LoadsIn fun _ => True) := by
  induction readable generalizing buf with
  | nil => trivial
  | cons b readable ih =>
    unfold gather
    split
    · exact ih buf
    split
    · trivial
    apply uses_bind
    · exact ⟨fun _ _ => trivial, fun _ => trivial⟩
    · intro r
      cases r with
      | none => trivial
      | some bytes => exact ih _

/-- Where no charge is refused, every chain is sent or dropped. -/
theorem txHandler_serves {I : Guest × Outside → Prop}
    (hstable : (txWorld L c event_idx true).Stable I)
    (hhost : ∀ g o o', o'.driver = o.driver → I (g, o) → I (g, o')) :
    Serves (txWorld L c event_idx true) I (txHandler dev) := by
  have hdone : ∀ (len : Nat) (d : Nat), (txWorld L c event_idx true).Triple I
      (pure (some len, d) : Device Answer (Option Nat × Nat)) fun r x => r.1 ≠ none ∧ I x :=
    fun len d => .pure hstable fun x hx => ⟨nofun, hx⟩
  intro d readable writable
  apply Triple.bind (triple_loads (gather_uses _ _ _) hstable)
  intro r
  cases r with
  | none => exact hdone _ _
  | some buf =>
    dsimp only
    split
    · exact hdone _ _
    apply Triple.bind (Q := fun r x => r = true ∧ I x)
    · unfold rateLimitAllows
      split
      · apply triple_call hstable
        · exact fun r x y hx he => ⟨hx.1, hstable hx.2 he⟩
        · intro g o r o' hI h
          exact ⟨h.2.2 rfl, hhost g o o' (outsideAnswers_driver h) hI⟩
      · exact .pure hstable fun x hx => ⟨rfl, hx⟩
    · intro allowed
      apply of_and
      intro hallowed
      rw [hallowed, if_pos rfl]
      split
      · apply Triple.bind
        · apply triple_call hstable (fun _ => hstable)
          intro g o r o' hI h
          exact hhost g o o' (outsideAnswers_driver h) hI
        · intro sent
          split <;> exact hdone _ _
      · exact hdone _ _

/-- Without `RING_EVENT_IDX` a call reads the available index once. What the driver publishes
after that it kicks for. -/
theorem triple_round_plain (hc : Placed L c) {handler : Handler Answer Nat}
    (hh : ∀ v, Serves (txWorld L c false granted) (TxReady c false v) handler) (s : Session Nat)
    (hs : Negotiated c false s.queue) :
    (txWorld L c false granted).Triple (Keeping c Outside.driver) (round L handler s) fun r x =>
      ∃ t, r = .inr t ∧ Negotiated c false t.queue ∧ TxReady c false t.queue.last_avail_idx x := by
  have hu := usable_of hc.usable
  apply Triple.bind (Q := fun r x => ∃ header, r = some header ∧
    TxReady c false (UInt16.ofNat (fromLeBytes (slice header 2 2))) x)
  · apply triple_load stable_keeping
    · intro r x y hx he
      obtain ⟨header, hr, hready⟩ := hx
      exact ⟨header, hr, stable_txReady hc hready he⟩
    · intro x hx
      rw [hs.1, Guest.load, if_pos hu.availHeader]
      refine ⟨_, rfl, hx, .inr (.inr ⟨x.2.driver.published, hx.ordered, le_refl _, ?_, ?_⟩)⟩
      · rw [slice_peek (by omega)]
        exact hx.idx.symm
      · exact fun he => absurd he Bool.false_ne_true
  · intro r
    apply of_exists
    intro header
    apply of_and
    rintro rfl
    apply Triple.bind
      (triple_drain_serves hc (stable_txReady hc) (fun x gpa len hx => hx.mark gpa len)
        (fun x addr data hoff hx => hx.plain_store hoff) (hh _) hs)
    intro r
    obtain ⟨stopped, t⟩ := r
    apply of_and
    rintro ⟨-, ⟨hcfg, hevent⟩, hlast⟩
    dsimp only at hcfg hevent hlast ⊢
    rw [← hlast, hcfg, hu.usedIdxAddr.1, hevent]
    apply Triple.bind
    · apply triple_publish_keeps (stable_txReady hc) (fun x gpa len hx => hx.mark gpa len)
      intro a x ha hx _
      cases ha
      exact hx.plain_store hc.usedIdx_off
    · intro _
      rw [if_pos (by decide)]
      exact .pure (stable_txReady hc) fun x hx => ⟨t, rfl, ⟨hcfg, hevent⟩, hx⟩

/-- A transmit call without a refused charge leaves the worker ready. -/
theorem triple_process_tx (hc : Placed L c) (hq : Negotiated c event_idx q) :
    (txWorld L c event_idx true).Triple (Keeping c Outside.driver)
      (processQueueDescriptorsDirty L fuel (txHandler dev) q 0) fun r x =>
        ∀ t, r = some t → t.queue.config = c ∧ TxReady c event_idx t.queue.last_avail_idx x := by
  cases event_idx with
  | true =>
    have hbeside : Beside c Outside.driver (OutsideStep c true) (outsideAnswers true) :=
      ⟨fun x y h => h.driverStep, fun call x r y h => outsideAnswers_driver h⟩
    have hserves : Serves (txWorld L c true true) (Keeping c Outside.driver) (txHandler dev) := by
      apply txHandler_serves stable_keeping
      intro g o o' hd hI
      change Driver.Keeps c (g, o'.driver)
      rw [hd]
      exact hI
    apply (triple_process_completes hc hbeside hserves fuel q 0 hq).conseq (fun x hx => hx)
    intro r x h t ht
    obtain ⟨hkeeps, hneg, harmed⟩ := h t ht
    exact ⟨hneg.1, hkeeps, harmed⟩
  | false =>
    have hserves : ∀ v, Serves (txWorld L c false true) (TxReady c false v) (txHandler dev) := by
      intro v
      apply txHandler_serves (stable_txReady hc)
      exact fun g o o' hd hI => hI.outside hd
    unfold processQueueDescriptorsDirty
    rw [hq.1, if_pos hc.usable]
    apply conseq
      (triple_rounds (J := fun t x => Keeping c Outside.driver x ∧ Negotiated c false t.queue)
        (fun t x y hx he => ⟨he.driverStep.keeps hx.1, hx.2⟩) ?_ fuel ⟨q, 0, 0⟩)
      (fun x hx => ⟨hx, hq⟩) fun _ _ h => h
    intro t
    apply assume (fun x hx => hx.2)
    intro ht
    apply (triple_round_plain hc hserves t ht).conseq (fun x hx => hx.1)
    intro r x h
    obtain ⟨t', rfl, hcfg, hready⟩ := h
    exact ⟨hcfg.1, hready⟩

theorem triple_notifyIf_ready (hc : Placed L c) (moved : Bool) (old_used : UInt16)
    (notified : NetDevice) :
    (txWorld L c event_idx granted).Triple (TxReady c event_idx last)
      (notifyIf moved q old_used dev notified) fun r x =>
        (r = dev ∨ r = notified) ∧ TxReady c event_idx last x := by
  apply gives (notifyIf_gives ..)
  have huses : (notifyIf moved q old_used dev notified).Uses (LoadsIn fun _ => True) := by
    unfold notifyIf needsNotification
    split
    swap
    · trivial
    apply uses_bind
    · split
      · trivial
      · split
        · trivial
        · apply uses_bind
          · exact ⟨fun _ _ => trivial, fun _ => trivial⟩
          · intro r
            cases r <;> trivial
    · intro wanted
      cases wanted <;> trivial
  exact triple_loads huses (stable_txReady hc)

theorem triple_processTxQueue (hc : Placed L c) (hqueue : dev.tx_queue = c)
    (hevent : dev.eventIdx = event_idx) :
    (txWorld L c event_idx true).Triple (Keeping c Outside.driver)
    (processTxQueue L fuel dev) fun r x =>
      ∀ n dev', r = some (.ok n, dev') → (dev'.tx_queue = c ∧ dev'.eventIdx = event_idx) ∧
        TxReady c event_idx dev'.txWalker.last_avail_idx x := by
  unfold processTxQueue
  split
  · apply ret
    intro x n dev' h
    cases h
  rw [hqueue, queueConfig_usable hc.usable]
  dsimp only
  have hq : Negotiated c event_idx (attach dev.tx_processor c dev.eventIdx) :=
    ⟨attach_config _ _ _, (attach_event_idx _ _ _).trans hevent⟩
  generalize attach dev.tx_processor c dev.eventIdx = q at hq ⊢
  apply Triple.bind (triple_process_tx hc hq)
  intro r
  cases r with
  | none =>
    apply ret
    intro x n dev' h
    cases h
  | some t =>
    apply assume (fun x hx => (hx t rfl).1)
    intro hcfg
    apply conseq _ (fun x hx => (hx t rfl).2) fun _ _ h => h
    apply Triple.bind (triple_notifyIf_ready hc _ _ _)
    intro dev'
    apply Triple.pure
    · exact fun x y hx he => ⟨hx.1, stable_txReady hc hx.2 he⟩
    · intro x hx n dev'' h
      cases h
      obtain ⟨hdev, hready⟩ := hx
      rcases hdev with rfl | rfl <;> exact ⟨⟨rfl, hevent⟩, hready⟩

end Transmit

/-! ## The receive side -/

section Receive

variable {dev' : NetDevice} {notify : Bool} {slot : Slot}

theorem SameTx.refl (dev : NetDevice) : SameTx dev dev := ⟨rfl, rfl, rfl⟩

theorem SameTx.trans {a b d : NetDevice} (h : SameTx a b) (h' : SameTx b d) : SameTx a d :=
  ⟨h'.1.trans h.1, h'.2.1.trans h.2.1, h'.2.2.trans h.2.2⟩

theorem sameTx_signalRx (h : SameTx dev dev') : SameTx dev dev'.signalRx := by
  unfold NetDevice.signalRx
  split
  · exact h
  · exact h

/-- What a call of the receive side answers leaves a device with the same transmit side. -/
def LeavesTx {β : Type} (device : β → NetDevice) (dev : NetDevice) : Option β → Prop
  | none => True
  | some b => SameTx dev (device b)

theorem leaveRx_sameTx {α : Type} {moved notify : Bool} {q : VirtQueueProcessor} {old_used : UInt16}
    {a : α} (h : SameTx dev dev') :
    (do
      let dev ← notifyIf moved q old_used dev' (dev'.notifyRx notify)
      return some (a, dev)).Gives (LeavesTx Prod.snd dev) := by
  apply gives_bind (notifyIf_gives moved q old_used dev' _)
  rintro _ (rfl | rfl)
  · exact h
  · cases notify <;> exact h

theorem injectRx_sameTx (header : Option Bytes) (packet : Bytes) :
    (injectRx L fuel dev header packet notify).Gives (LeavesTx Prod.snd dev) := by
  unfold injectRx
  split
  · exact .refl dev
  dsimp only
  generalize (if header.isSome then MAX_GSO_FRAME_BYTES else MAX_FRAME_BYTES) = max_frame
  split
  · exact .refl dev
  split
  · exact .refl dev
  split
  · apply gives_skip
    intro r
    match r with
    | none => trivial
    | some (.error e, q) => exact ⟨rfl, rfl, rfl⟩
    | some (.ok delivered, q) => exact leaveRx_sameTx ⟨rfl, rfl, rfl⟩
  · apply gives_skip
    intro r
    cases r with
    | none => trivial
    | some s => exact leaveRx_sameTx ⟨rfl, rfl, rfl⟩

theorem deliver_sameTx (frame : Bytes) :
    (deliver L fuel dev frame).Gives (LeavesTx Prod.snd dev) := by
  unfold deliver
  split
  · unfold injectRxVnetFrame
    split
    · exact .refl dev
    dsimp only
    split
    · exact .refl dev
    · exact injectRx_sameTx _ _
  · exact injectRx_sameTx _ _

theorem rxFromVnetTap_sameTx (max_frames : Nat) :
    (rxFromVnetTap L fuel dev max_frames).Gives (LeavesTx Prod.snd dev) := by
  unfold rxFromVnetTap
  split
  · exact .refl dev
  split
  · exact .refl dev
  split
  · exact .refl dev
  split
  · apply gives_skip
    intro r
    cases r with
    | none => trivial
    | some b => exact leaveRx_sameTx ⟨rfl, rfl, rfl⟩
  · apply gives_skip
    intro r
    cases r with
    | none => trivial
    | some s => exact leaveRx_sameTx ⟨rfl, rfl, rfl⟩

theorem drainPending_sameTx : (drainPending L fuel slot).Gives (LeavesTx (·.2.1.dev) slot.dev) := by
  unfold drainPending
  split
  · exact .refl _
  apply gives_bind (deliver_sameTx _)
  intro r hr
  match r with
  | none => trivial
  | some (.ok true, dev') => exact hr
  | some (.ok false, dev') => exact hr
  | some (.error _, dev') => exact hr

theorem drainBatches_sameTx (rounds : Nat) (slot : Slot) (unsignalled : Nat)
    (h : SameTx dev slot.dev) :
    (drainBatches L fuel rounds slot unsignalled).Gives (LeavesTx (·.2.1.dev) dev) := by
  induction rounds generalizing slot unsignalled with
  | zero => trivial
  | succ rounds ih =>
    apply gives_bind (rxFromVnetTap_sameTx _)
    intro r hr
    match r with
    | none => trivial
    | some (.error _, dev') | some (.ok none, dev') => exact h.trans hr
    | some (.ok (some (delivered, tap_empty)), dev') =>
      have hdev : SameTx dev (if 0 < delivered ∨ 0 < unsignalled then dev'.signalRx else dev') := by
        split
        · exact sameTx_signalRx (h.trans hr)
        · exact h.trans hr
      dsimp only
      split
      · exact hdev
      split
      · apply gives_skip
        intro readable
        cases readable with
        | true => exact hdev
        | false => exact hdev
      · exact ih _ _ hdev

theorem drainFrames_sameTx (rounds : Nat) (slot : Slot) (unsignalled : Nat)
    (h : SameTx dev slot.dev) :
    (drainFrames L fuel rounds slot unsignalled).Gives (LeavesTx (·.2.1.dev) dev) := by
  induction rounds generalizing slot unsignalled with
  | zero => trivial
  | succ rounds ih =>
    apply gives_skip
    intro r
    cases r with
    | none => exact h
    | some frame =>
      dsimp only
      split
      · exact h
      apply gives_bind (deliver_sameTx _)
      intro r hr
      match r with
      | none => trivial
      | some (.ok true, dev') =>
        dsimp only
        split
        · exact ih _ _ (sameTx_signalRx (h.trans hr))
        · exact ih _ _ (h.trans hr)
      | some (.ok false, dev') | some (.error _, dev') => exact h.trans hr

theorem drainTap_sameTx : (drainTap L fuel slot).Gives (LeavesTx (·.2.dev) slot.dev) := by
  apply gives_bind drainPending_sameTx
  intro r hr
  match r with
  | none => trivial
  | some (some rx, slot1, _) => exact hr
  | some (none, slot1, unsignalled) =>
    apply gives_bind (drainBatches_sameTx _ slot1 unsignalled hr)
    intro r hr
    match r with
    | none => trivial
    | some (some rx, slot2, _) => exact hr
    | some (none, slot2, unsignalled) =>
      apply gives_bind (drainFrames_sameTx _ slot2 unsignalled hr)
      intro r hr
      match r with
      | none => trivial
      | some (rx, slot3, unsignalled) =>
        dsimp only
        split
        · exact sameTx_signalRx hr
        · exact hr

end Receive

/-- Nothing the worker does while it receives takes its readiness away. -/
theorem triple_receive (hc : Placed L c) {α : Type} (p : Device Answer α) :
    (rxWorld L c event_idx).Triple (TxReady c event_idx last) p fun _ =>
    TxReady c event_idx last := by
  apply of_uses (uses_all p)
  · exact fun x y hx he => hx.step hc he
  · intro o x r y _ hx hexec
    cases o with
    | load addr len =>
      obtain ⟨-, rfl⟩ := hexec
      exact hx
    | store addr data =>
      obtain ⟨hoff, -, rfl⟩ := hexec
      exact hx.store hoff.1 fun _ => hoff.2
    | mark gpa len =>
      rw [hexec]
      exact hx.mark gpa len
    | host call =>
      obtain ⟨hanswer, hguest⟩ := hexec
      have hready := hx.outside (outsideAnswers_driver hanswer)
      rw [← hguest] at hready
      exact hready

/-- The device serves queue `c`, and the driver will kick if need be. -/
structure TxInv (c : QueueConfig) (event_idx : Bool) (x : Guest × Outside) (dev : NetDevice) :
    Prop where
  queue : dev.tx_queue = c
  event : dev.eventIdx = event_idx
  ready : TxReady c event_idx dev.txWalker.last_avail_idx x

theorem TxInv.sameTx {dev dev' : NetDevice} (h : TxInv c event_idx x dev)
    (hsame : SameTx dev dev') : TxInv c event_idx x dev' := by
  have hevent : dev'.eventIdx = dev.eventIdx := by
    unfold NetDevice.eventIdx
    rw [hsame.2.2]
  have hwalker : dev'.txWalker = dev.txWalker := by
    unfold NetDevice.txWalker
    rw [hsame.1, hsame.2.1, hevent]
  constructor
  · exact hsame.1.trans h.queue
  · exact hevent.trans h.event
  · rw [hwalker]
    exact h.ready

theorem TxInv.transmit (hc : Placed L c) {g : Guest} {dev dev' : NetDevice} {fuel n : Nat}
    (h : TxInv c event_idx (g, o) dev)
    (hrun : (txWorld L c event_idx true).Runs (processTxQueue L fuel dev)
      (g, { o with driver := { o.driver with rung := 0 } }) (some (.ok n, dev')) y) :
    TxInv c event_idx y dev' := by
  have hkeeps : Keeping c Outside.driver (g, { o with driver := { o.driver with rung := 0 } }) :=
    { h.ready.keeps with }
  obtain ⟨⟨hqueue, hevent⟩, hready⟩ :=
    triple_processTxQueue hc h.queue h.event hkeeps hrun n dev' rfl
  exact ⟨hqueue, hevent, hready⟩

theorem TxInv.receive (hc : Placed L c) {slot slot' : Slot} {fuel : Nat} {rx : Rx}
    (h : TxInv c event_idx x slot.dev)
    (hrun : (rxWorld L c event_idx).Runs (drainTap L fuel slot) x (some (rx, slot')) y) :
    TxInv c event_idx y slot'.dev := by
  have hreceive : (rxWorld L c event_idx).Triple
      (TxReady c event_idx slot.dev.txWalker.last_avail_idx) (drainTap L fuel slot) _ :=
    .gives drainTap_sameTx (triple_receive hc _)
  obtain ⟨hsame, hready⟩ := hreceive h.ready hrun
  exact .sameTx ⟨h.queue, h.event, hready⟩ hsame

theorem WorkerWaits.inv (hc : Placed L c) {slot : Slot} {parked : Bool}
    (h : WorkerWaits L c event_idx true x slot parked) : TxInv c event_idx x slot.dev := by
  induction h with
  | start h =>
    constructor
    · exact (attach_config _ _ _).symm.trans h.queue.1
    · exact (attach_event_idx _ _ _).symm.trans h.queue.2
    · exact ⟨h.keeps_armed.1, h.keeps_armed.2⟩
  | outside _ hstep ih => exact ⟨ih.queue, ih.event, ih.ready.step hc hstep⟩
  | mmio _ hsame ih => exact ih.sameTx hsame
  | kick _ hrun ih => exact ih.transmit hc hrun
  | tap _ _ hrun ih => exact ih.receive hc hrun
  | pause _ _ htx _ hrun ih => exact .receive hc (ih.transmit hc htx) hrun
  | resume _ _ ih => exact ih

/-- In a run in which the limiter refuses no transmit charge the worker never waits with chains
left over and nothing to wake it. -/
theorem granted_never_stranded (hc : Placed L c) {x : Guest × Outside} {slot : Slot} {parked : Bool}
    (h : WorkerWaits L c event_idx true x slot parked) (bytes : Nat) :
    ¬ Stranded c bytes x slot.dev := by
  intro hstranded
  have hinv := h.inv hc
  exact hstranded.published (hinv.ready.armed.idx_eq hinv.ready.keeps hstranded.rung
    hstranded.ringing hstranded.checked)

/-! ## Two frames -/

/-- A device with a limiter. Its receive queue is not set up. -/
def limitedDevice : NetDevice :=
  { NetDevice.negotiated Features.RING_EVENT_IDX false { apartQueue.config with ready := false }
      apartQueue.config with
    limited := true }

/-- A tap that takes every frame, and the limiter. -/
def limitedTap : (call : Call) → Outside → Answer call × Outside
  | .charge bytes, o =>
    ((o.limiter.tryChargeAt 1 bytes o.now_ns).1,
      { o with limiter := (o.limiter.tryChargeAt 1 bytes o.now_ns).2 })
  | .write _, o => (true, o)
  | .read _, o => (none, o)
  | .readable, o => (false, o)

/-- Memory with two transmit buffers of 100 bytes, and so many frames a second. -/
def twoBuffers (ops_per_sec : Nat) : Guest × Outside :=
  (guestWith [(0x100, 0x400), (0x108, 100), (0x110, 0x500), (0x118, 100), (0x206, 1)],
    ⟨⟨0, 0, 0, 0⟩, .newAt ops_per_sec 1000000 0, 0, false⟩)

/-- The driver has published both, decided to kick and rung. -/
def rungTwice (ops_per_sec : Nat) : Guest × Outside :=
  ({ (twoBuffers ops_per_sec).1 with cells := put (twoBuffers 0).1.cells 0x202 (u16Bytes 2) },
    { (twoBuffers ops_per_sec).2 with driver := ⟨2, 2, 0, 1⟩ })

def afterKick (ops_per_sec : Nat) :
    Option (Except MmioError Nat × NetDevice) × (Guest × Outside) :=
  (processTxQueue onePage 1 limitedDevice).interp (answer onePage limitedTap)
    ((rungTwice ops_per_sec).1, { (rungTwice ops_per_sec).2 with driver := ⟨2, 2, 0, 0⟩ })

theorem rungTwice_waits (granted : Bool) (ops_per_sec : Nat) :
    WorkerWaits onePage apartQueue.config true granted (rungTwice ops_per_sec)
      ⟨limitedDevice, none⟩ false := by
  have hidx : word (twoBuffers 0).1.cells apartQueue.config.idxAt = 0 := by decide +kernel
  have hevent : word (twoBuffers 0).1.cells apartQueue.config.eventAt = 0 := by decide +kernel
  have hneed : Driver.needsKick apartQueue.config true (rungTwice 0).1 ⟨2, 0, 0, 0⟩ = true := by
    decide +kernel
  change Driver.needsKick _ _ (rungTwice ops_per_sec).1 _ = true at hneed
  have hstart : WorkerWaits onePage apartQueue.config true granted (twoBuffers ops_per_sec)
      ⟨limitedDevice, none⟩ false := .start ⟨⟨rfl, by decide⟩, hidx, hevent, rfl, rfl⟩
  have hdecide : DriverStep apartQueue.config true ((rungTwice ops_per_sec).1, ⟨2, 0, 0, 0⟩)
      ((rungTwice ops_per_sec).1, ⟨2, 2, 1, 0⟩) := by
    have h : DriverStep apartQueue.config true (_, _) _ :=
      .decide (rungTwice ops_per_sec).1 ⟨2, 0, 0, 0⟩
    rw [if_pos hneed] at h
    exact h
  have hpublished := hstart.outside (.driver (.publish _ _ 2 (by decide)
    (show 0 + 2 - 0 < 2 ^ 16 by decide)))
  have hdecided := hpublished.outside (.driver hdecide)
  exact hdecided.outside (.driver (.ring _ _ (Nat.succ_pos 0)))

/-- The index the worker has consumed up to, if its call succeeded. -/
def consumed (r : Option (Except MmioError Nat × NetDevice)) : Option UInt16 :=
  match r with
  | some (.ok _, dev) => some dev.txWalker.last_avail_idx
  | _ => none

theorem consumed_eq_some {r : Option (Except MmioError Nat × NetDevice)} {last : UInt16}
    (h : consumed r = some last) :
    ∃ n dev, r = some (.ok n, dev) ∧ dev.txWalker.last_avail_idx = last := by
  unfold consumed at h
  split at h
  · next n dev => exact ⟨n, dev, rfl, Option.some.inj h⟩
  · cases h

/-- The limiter allows what the operation charges, where nothing may be refused. -/
def Charged (granted : Bool) : Op Call → Guest × Outside → Prop
  | .host (.charge bytes), x =>
    granted = true → (x.2.limiter.tryChargeAt 1 bytes x.2.now_ns).1 = true
  | _, _ => True

instance decidableCharged (granted : Bool) (o : Op Call) (x : Guest × Outside) :
    Decidable (Charged granted o x) :=
  match o with
  | .host (.charge _) => inferInstanceAs (Decidable (_ → _))
  | .host (.write _) => isTrue trivial
  | .host (.read _) => isTrue trivial
  | .host .readable => isTrue trivial
  | .load _ _ => isTrue trivial
  | .store _ _ => isTrue trivial
  | .mark _ _ => isTrue trivial

theorem runs_afterKick (granted : Bool) (ops_per_sec : Nat)
    (h : (processTxQueue onePage 1 limitedDevice).Follows (answer onePage limitedTap)
      (Charged granted)
      ((rungTwice ops_per_sec).1, { (rungTwice ops_per_sec).2 with driver := ⟨2, 2, 0, 0⟩ })) :
    (txWorld onePage apartQueue.config true granted).Runs (processTxQueue onePage 1 limitedDevice)
      ((rungTwice ops_per_sec).1, { (rungTwice ops_per_sec).2 with driver := ⟨2, 2, 0, 0⟩ })
      (afterKick ops_per_sec).1 (afterKick ops_per_sec).2 := by
  apply runs_follows _ _ h
  intro o s ho
  cases o with
  | load addr len => exact ⟨rfl, rfl⟩
  | store addr data => exact ⟨trivial, rfl, rfl⟩
  | mark gpa len => rfl
  | host call =>
    cases call with
    | charge bytes => exact ⟨⟨rfl, rfl, ho⟩, rfl⟩
    | _ => exact ⟨rfl, rfl⟩

/-- Two frames are published and kicked for. The limiter has one token and refuses the second,
`avail_event` says 1 while 2 are published, and a second later there is a token and nothing to
wake the worker. -/
theorem refused_charge_strands :
    ∃ (y : Guest × Outside) (dev : NetDevice),
      WorkerWaits onePage apartQueue.config true false y ⟨dev, none⟩ false ∧
        Stranded apartQueue.config 88 y dev := by
  have hrun := runs_afterKick false 1 (by decide +kernel)
  have hconsumed : consumed (afterKick 1).1 = some 1 := by decide +kernel
  have hpublished : word (afterKick 1).2.1.cells apartQueue.config.idxAt ≠ 1 := by decide +kernel
  have htokens : ((afterKick 1).2.2.limiter.tryChargeAt 1 88 1000000000).1 = true := by
    decide +kernel
  have hrest : (afterKick 1).2.2.driver.rung = 0 ∧ (afterKick 1).2.2.driver.ringing = 0 ∧
      (afterKick 1).2.2.driver.checked = (afterKick 1).2.2.driver.published ∧
      (afterKick 1).2.2.pause_req = false ∧ (afterKick 1).2.2.now_ns ≤ 1000000000 := by
    decide +kernel
  generalize afterKick 1 = r at hrun hconsumed hpublished htokens hrest
  obtain ⟨result, g, o⟩ := r
  obtain ⟨n, dev, hdev, hlast⟩ := consumed_eq_some hconsumed
  subst hdev
  obtain ⟨hrung, hringing, hchecked, hpause, hnow⟩ := hrest
  have hkicked := (rungTwice_waits false 1).kick hrun
  refine ⟨_, dev, hkicked.outside (.tick hnow), ?_⟩
  constructor
  · rw [hlast]
    exact hpublished
  · exact htokens
  · exact hrung
  · exact hringing
  · exact hchecked
  · exact hpause

/-- With two tokens both charges are granted: both frames are sent, the bucket is empty, and
nothing is stranded. -/
theorem granted_frames_not_stranded :
    ∃ (y : Guest × Outside) (dev : NetDevice), dev.txWalker.last_avail_idx = 2 ∧
      y.2.limiter.ops.tokens = 0 ∧
      WorkerWaits onePage apartQueue.config true true y ⟨dev, none⟩ false ∧
        ¬ Stranded apartQueue.config 88 y dev := by
  have hrun := runs_afterKick true 2 (by decide +kernel)
  have hconsumed : consumed (afterKick 2).1 = some 2 := by decide +kernel
  have htokens : (afterKick 2).2.2.limiter.ops.tokens = 0 := by decide +kernel
  generalize afterKick 2 = r at hrun hconsumed htokens
  obtain ⟨result, y⟩ := r
  obtain ⟨n, dev, hdev, hlast⟩ := consumed_eq_some hconsumed
  subst hdev
  have hkicked := (rungTwice_waits true 2).kick hrun
  exact ⟨y, dev, hlast, htokens, hkicked, granted_never_stranded placed_apartQueue hkicked 88⟩

end Tarit.Virtio.Net
