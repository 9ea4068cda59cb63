import Tarit.Lib.Bytes

/-!
# Save and restore of the serial console

A UART of `vm-superio` with a shadow of the registers that the guest wrote. A snapshot has the
shadow and, of the UART, the status registers and the receive FIFO; a restore rebuilds the UART
from both. But the shadow starts with zeros and keeps the reserved bits of the interrupt enable
register, where the UART has power-on values and masks them.
-/
namespace Tarit.Devices

open Lib

structure SerialState where
  ier : UInt8
  fcr : UInt8
  lcr : UInt8
  mcr : UInt8
  scr : UInt8
  dll : UInt8
  dlm : UInt8

structure SerialRuntimeState where
  interrupt_identification : UInt8
  line_status : UInt8
  modem_status : UInt8
  in_buffer : Bytes

structure VmSerialState extends SerialRuntimeState where
  baud_divisor_low : UInt8
  baud_divisor_high : UInt8
  interrupt_enable : UInt8
  line_control : UInt8
  modem_control : UInt8
  scratch : UInt8

inductive Access where
  | read (offset : UInt8)
  | write (offset val : UInt8)
  | enqueueRawBytes (bytes : Bytes)

def dlab (lcr : UInt8) : Bool := lcr &&& 0x80 != 0

def SerialState.write (sh : SerialState) (offset val : UInt8) : SerialState :=
  match offset.toNat with
  | 0 => if dlab sh.lcr then { sh with dll := val } else sh
  | 1 => if dlab sh.lcr then { sh with dlm := val } else { sh with ier := val }
  | 2 => { sh with fcr := val }
  | 3 => { sh with lcr := val }
  | 4 => { sh with mcr := val }
  | 7 => { sh with scr := val }
  | _ => sh

/-- The UART with the registers that an access leaves, of which only a write changes any. -/
def VmSerialState.after (u : VmSerialState) : Access → VmSerialState
  | .write offset val =>
    match offset.toNat with
    | 0 => if dlab u.line_control then { u with baud_divisor_low := val } else u
    | 1 =>
      if dlab u.line_control then { u with baud_divisor_high := val }
      else { u with interrupt_enable := val &&& 0x0F }
    | 3 => { u with line_control := val }
    | 4 => { u with modem_control := val }
    | 7 => { u with scratch := val }
    | _ => u
  | _ => u

/-- The register that is read back at an offset, if it is one that keeps what is written. -/
def VmSerialState.kept (u : VmSerialState) (offset : UInt8) : Option UInt8 :=
  match offset.toNat with
  | 0 => if dlab u.line_control then some u.baud_divisor_low else none
  | 1 => if dlab u.line_control then some u.baud_divisor_high else some u.interrupt_enable
  | 3 => some u.line_control
  | 4 => some u.modem_control
  | 7 => some u.scratch
  | _ => none

/-- The library `vm-superio`. An access does anything to the status registers and the FIFO. -/
structure Uart where
  access : VmSerialState → Access → VmSerialState
  read : VmSerialState → UInt8 → UInt8
  access_eq : ∀ u a, ∃ runtime, access u a = { u.after a with toSerialRuntimeState := runtime }
  read_kept : ∀ u offset v, u.kept offset = some v → read u offset = v

theorem Uart.read_access (uart : Uart) {u : VmSerialState} {a : Access} {offset v : UInt8}
    (h : (u.after a).kept offset = some v) : uart.read (uart.access u a) offset = v := by
  obtain ⟨runtime, heq⟩ := uart.access_eq u a
  rw [heq]
  exact uart.read_kept _ _ _ h

structure Serial where
  inner : VmSerialState
  shadow : SerialState

namespace Serial

/-- The UART has its power-on values. -/
def new : Serial where
  inner :=
    { baud_divisor_low := 0x0C, baud_divisor_high := 0, interrupt_enable := 0
      interrupt_identification := 0x01, line_control := 0x03, line_status := 0x60
      modem_control := 0x08, modem_status := 0xB0, scratch := 0, in_buffer := [] }
  shadow := ⟨0, 0, 0, 0, 0, 0, 0⟩

def access (uart : Uart) (s : Serial) (a : Access) : Serial :=
  match a with
  | .write offset val => ⟨uart.access s.inner a, s.shadow.write offset val⟩
  | _ => ⟨uart.access s.inner a, s.shadow⟩

/-- What the guest reads. -/
def reads (uart : Uart) (s : Serial) : List Access → Bytes
  | [] => []
  | .read offset :: rest =>
    uart.read s.inner offset :: (s.access uart (.read offset)).reads uart rest
  | a :: rest => (s.access uart a).reads uart rest

def save (s : Serial) : SerialState := s.shadow

def runtimeState (s : Serial) : SerialRuntimeState := s.inner.toSerialRuntimeState

def tryRestoreSnapshot (_ : Serial) (state : SerialState) (runtime : SerialRuntimeState) :
    Serial where
  inner :=
    { runtime with
      baud_divisor_low := state.dll, baud_divisor_high := state.dlm, interrupt_enable := state.ier
      line_control := state.lcr, modem_control := state.mcr, scratch := state.scr }
  shadow := state

/-- Whether the interrupt is raised. -/
def reassertPendingInterrupt (s : Serial) : Bool := s.inner.interrupt_identification &&& 0x01 == 0

def restored (s : Serial) : Serial := new.tryRestoreSnapshot s.save s.runtimeState

/-- Whatever is done next, the guest reads the same of the restored device; its input is there, and
a pending interrupt is raised. -/
def Survives (uart : Uart) (s : Serial) : Prop :=
  (∀ accesses, s.restored.reads uart accesses = s.reads uart accesses) ∧
    s.restored.inner.in_buffer = s.inner.in_buffer ∧
    (s.inner.interrupt_identification &&& 0x01 = 0 → s.restored.reassertPendingInterrupt = true)

end Serial

/-- What the guest has written: registers with power-on values other than zero and, for `ier`,
nothing or a last value without reserved bits. -/
structure Programming where
  dlab : Bool
  lcr : Bool
  mcr : Bool
  dll : Bool
  ier : Bool

def Programming.after (p : Programming) : Access → Programming
  | .write offset val =>
    match offset.toNat with
    | 0 => { p with dll := p.dll || p.dlab }
    | 1 => { p with ier := if p.dlab then p.ier else val == val &&& 0x0F }
    | 3 => { p with lcr := true, dlab := Devices.dlab val }
    | 4 => { p with mcr := true }
    | _ => p
  | _ => p

def programming (accesses : List Access) : Programming :=
  accesses.foldl .after ⟨false, false, false, false, true⟩

/-- The registers that are what their shadows are. -/
structure Follows (p : Programming) (s : Serial) : Prop where
  dlab : dlab s.inner.line_control = p.dlab
  dlab_shadow : Devices.dlab s.shadow.lcr = p.dlab
  lcr : s.shadow.lcr = s.inner.line_control ↔ p.lcr
  mcr : s.shadow.mcr = s.inner.modem_control ↔ p.mcr
  dll : s.shadow.dll = s.inner.baud_divisor_low ↔ p.dll
  ier : s.shadow.ier = s.inner.interrupt_enable ↔ p.ier
  dlm : s.shadow.dlm = s.inner.baud_divisor_high
  scr : s.shadow.scr = s.inner.scratch

variable {uart : Uart} {p : Programming} {s : Serial}

theorem Follows.write (h : Follows p s) (offset val : UInt8) :
    Follows (p.after (.write offset val)) (s.access uart (.write offset val)) := by
  obtain ⟨runtime, heq⟩ := uart.access_eq s.inner (.write offset val)
  unfold Serial.access SerialState.write Programming.after
  dsimp only
  rw [heq]
  unfold VmSerialState.after
  dsimp only
  generalize offset.toNat = n
  rw [h.dlab, h.dlab_shadow]
  match n with
  | 0 =>
    obtain ⟨_ | _, _, _, _, _⟩ := p
    · exact { h with dll := by simpa using h.dll }
    · exact { h with dll := by simp }
  | 1 =>
    obtain ⟨_ | _, _, _, _, _⟩ := p
    · exact { h with ier := beq_iff_eq.symm }
    · exact { h with dlm := rfl }
  | 3 => exact { h with dlab := rfl, dlab_shadow := rfl, lcr := by simp }
  | 4 => exact { h with mcr := by simp }
  | 7 => exact { h with scr := rfl }
  | 2 | 5 | 6 | _ + 8 => exact { h with }

/-- The state kept beside the device follows it over any accesses. -/
theorem Follows.run (h : Follows p s) (accesses : List Access) :
    Follows (accesses.foldl .after p) (accesses.foldl (Serial.access uart) s) := by
  induction accesses generalizing p s with
  | nil => exact h
  | cons a rest ih =>
    cases a with
    | write offset val => exact ih (h.write offset val)
    | read | enqueueRawBytes =>
      obtain ⟨runtime, heq⟩ := uart.access_eq s.inner _
      apply ih
      unfold Serial.access
      rw [heq]
      exact { h with }

theorem Follows.survives_iff (h : Follows p s) :
    s.Survives uart ↔ p.lcr ∧ p.mcr ∧ p.dll ∧ p.ier := by
  rw [← h.lcr, ← h.mcr, ← h.dll, ← h.ier]
  constructor
  · intro hsame
    -- The divisor is read with DLAB set, and `ier` with DLAB cleared.
    have hwritten (lcr offset : UInt8) {v v' : UInt8}
        (hv : (s.restored.inner.after (.write 3 lcr)).kept offset = some v)
        (hv' : (s.inner.after (.write 3 lcr)).kept offset = some v') : v = v' := by
      rw [← uart.read_access hv, ← uart.read_access hv']
      exact (List.cons.inj (hsame.1 [.write 3 lcr, .read offset])).1
    have hkept (offset : UInt8) {v v' : UInt8} (hv : s.restored.inner.kept offset = some v)
        (hv' : s.inner.kept offset = some v') : v = v' := by
      rw [← uart.read_kept _ _ _ hv, ← uart.read_kept _ _ _ hv']
      exact (List.cons.inj (hsame.1 [.read offset])).1
    have hdll (u : VmSerialState) : (u.after (.write 3 0x80)).kept 0 = some u.baud_divisor_low := by
      simp [VmSerialState.after, VmSerialState.kept, Devices.dlab]
    have hier (u : VmSerialState) : (u.after (.write 3 0)).kept 1 = some u.interrupt_enable := by
      simp [VmSerialState.after, VmSerialState.kept, Devices.dlab]
    exact ⟨hkept 3 rfl rfl, hkept 4 rfl rfl, hwritten _ _ (hdll _) (hdll _),
      hwritten _ _ (hier _) (hier _)⟩
  · rintro ⟨hlcr, hmcr, hdll, hier⟩
    have hrestored : s.restored = s := by
      unfold Serial.restored Serial.tryRestoreSnapshot Serial.save Serial.runtimeState
      rw [hlcr, hmcr, hdll, hier, h.dlm, h.scr]
    unfold Serial.Survives
    rw [hrestored]
    exact ⟨fun _ => rfl, rfl, beq_iff_eq.mpr⟩

/-- A restored device is as the saved one just if the guest had written the line control, the modem
control and, with DLAB set, the low divisor register, and no reserved bits last to the interrupt
enable register. -/
theorem restored_survives_iff (uart : Uart) (accesses : List Access) :
    (accesses.foldl (Serial.access uart) Serial.new).Survives uart ↔
      (programming accesses).lcr ∧ (programming accesses).mcr ∧ (programming accesses).dll ∧
        (programming accesses).ier := by
  have hnew : Follows ⟨false, false, false, false, true⟩ .new := by
    constructor <;> decide
  exact (hnew.run accesses).survives_iff

/-- A UART whose status never changes. -/
def idleUart : Uart where
  access := .after
  read u offset := (u.kept offset).getD u.line_status
  access_eq u a := ⟨(u.after a).toSerialRuntimeState, rfl⟩
  read_kept u offset v h := by rw [h, Option.getD_some]

/-- The line control register of an untouched device is 3, and 0 after a restore. -/
theorem untouched_line_control_lost :
    Serial.new.reads idleUart [.read 3] = [3] ∧
      Serial.new.restored.reads idleUart [.read 3] = [0] := by
  decide

end Tarit.Devices
