import Tarit.Virtio.Net

/-!
# The network worker's receive side

`drain_tap` of `net_io_loop.rs`. A frame that was read from the tap and found no buffer stays
in the slot `pending` and is tried first by the next call. The three parts of the function are
three definitions here; each answers with the outcome to return, or with nothing when the next
part is to run.
-/
namespace Tarit.Virtio.Net

open Lib Live Snapshot

def RX_BATCH : Nat := 64

/-- What `drain_tap` leaves behind. -/
inductive Rx where
  /-- The tap is empty. -/
  | drained
  /-- The guest has no free receive buffer. -/
  | blocked
  | failed
  deriving DecidableEq

/-- The device, and the frame of `buf` that waits for a guest buffer. -/
structure Slot where
  dev : NetDevice
  pending : Option Bytes
  deriving DecidableEq

def NetDevice.bufLen (dev : NetDevice) : Nat :=
  if dev.vnet_hdr then MAX_GSO_FRAME_BYTES else MAX_FRAME_BYTES

section Calls

variable (L : Layout) (fuel : Nat)

def deliver (dev : NetDevice) (frame : Bytes) :
    Device Answer (Option (Except MmioError Bool × NetDevice)) :=
  if dev.vnet_hdr then injectRxVnetFrame L fuel dev frame else injectRx L fuel dev none frame false

/-- Try the frame of the slot. The number is `unsignalled`. -/
def drainPending (slot : Slot) : Device Answer (Option (Option Rx × Slot × Nat)) :=
  match slot.pending with
  | none => pure (some (none, slot, 0))
  | some frame => do
    match ← deliver L fuel slot.dev frame with
    | none => return none
    | some (.ok true, dev) => return some (none, ⟨dev, none⟩, 1)
    | some (.ok false, dev) => return some (some .blocked, { slot with dev := dev }, 0)
    | some (.error _, dev) => return some (some .failed, { slot with dev := dev }, 0)

/-- Let the kernel write frames into the guest's buffers, as long as that way applies. -/
def drainBatches : Nat → Slot → Nat → Device Answer (Option (Option Rx × Slot × Nat))
  | 0, _, _ => pure none
  | rounds + 1, slot, unsignalled => do
    match ← rxFromVnetTap L fuel slot.dev RX_BATCH with
    | none => return none
    | some (.error _, dev) => return some (some .failed, { slot with dev := dev }, unsignalled)
    | some (.ok none, dev) => return some (none, { slot with dev := dev }, unsignalled)
    | some (.ok (some (delivered, tap_empty)), dev) =>
      let dev := if 0 < delivered ∨ 0 < unsignalled then dev.signalRx else dev
      let slot := { slot with dev := dev }
      if tap_empty then return some (some .drained, slot, 0)
      else if delivered < RX_BATCH then
        if ← call Call.readable then return some (some .blocked, slot, 0)
        else return some (some .drained, slot, 0)
      else drainBatches rounds slot 0

/-- Read frames into `buf` and copy them to the guest. -/
def drainFrames : Nat → Slot → Nat → Device Answer (Option (Rx × Slot × Nat))
  | 0, _, _ => pure none
  | rounds + 1, slot, unsignalled => do
    match ← call (Call.read slot.dev.bufLen) with
    | none => return some (.drained, slot, unsignalled)
    | some frame =>
      if frame = [] then return some (.drained, slot, unsignalled)
      match ← deliver L fuel slot.dev frame with
      | none => return none
      | some (.ok true, dev) =>
        if unsignalled + 1 = RX_BATCH then drainFrames rounds { slot with dev := dev.signalRx } 0
        else drainFrames rounds { slot with dev := dev } (unsignalled + 1)
      | some (.ok false, dev) => return some (.blocked, ⟨dev, some frame⟩, unsignalled)
      | some (.error _, dev) => return some (.failed, { slot with dev := dev }, 0)

def drainTap (slot : Slot) : Device Answer (Option (Rx × Slot)) := do
  match ← drainPending L fuel slot with
  | none => return none
  | some (some rx, slot, _) => return some (rx, slot)
  | some (none, slot, unsignalled) =>
    match ← drainBatches L fuel fuel slot unsignalled with
    | none => return none
    | some (some rx, slot, _) => return some (rx, slot)
    | some (none, slot, unsignalled) =>
      match ← drainFrames L fuel fuel slot unsignalled with
      | none => return none
      | some (rx, slot, unsignalled) =>
        let dev := if 0 < unsignalled then slot.dev.signalRx else slot.dev
        return some (rx, { slot with dev := dev })

end Calls

end Tarit.Virtio.Net
