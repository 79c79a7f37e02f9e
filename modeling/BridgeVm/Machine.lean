import Mathlib.Data.Nat.Basic

/-!
# The machine map (`machine.rs`)

The guest-physical regions of the interrupt controller and of RAM, and the affinity of a vCPU.
-/

namespace BridgeVm.Machine

/-- A guest-physical address range `[base, base + size)`. -/
structure Region where
  base : Nat
  size : Nat
deriving DecidableEq, Repr

/-- Exclusive end address. -/
def Region.endAddr (r : Region) : Nat := r.base + r.size

def Region.contains (r : Region) (addr : Nat) : Bool := decide (r.base ≤ addr) && decide (addr < r.endAddr)

/-- GICv3 distributor. -/
def gicDist : Region := ⟨0x08000000, 0x00010000⟩

/-- Contract MSI slot. -/
def gicIts : Region := ⟨0x08080000, 0x00020000⟩

/-- MSI frame register aperture. -/
def gicMsiFrame : Region := ⟨gicIts.base, 0x1000⟩

/-- First absolute INTID reserved for message-signalled interrupts, and their number. -/
def gicMsiIntidBase : Nat := 128

def gicMsiIntidCount : Nat := 64

/-- GICv3 redistributor window. -/
def gicRedist : Region := ⟨0x080A0000, 0x00F60000⟩

def gicv3RedistStride : Nat := 0x20000

/-- PCIe 64-bit MMIO window, with which the guest-physical addresses end. -/
def pcieMmio64 : Region := ⟨0x8000000000, 0x8000000000⟩

/-- Base of system RAM. -/
def ramBase : Nat := 0x40000000

/-- The affinity of vCPU `cpu`: `Aff1` counts sixteens, `Aff0` the rest. -/
def cpuMpidr (cpu : Nat) : Nat := ((cpu / 16) <<< 8) ||| (cpu % 16)

theorem cpuMpidr_of_lt {cpu : Nat} (h : cpu < 16) : cpuMpidr cpu = cpu := by
  have h0 : cpu / 16 = 0 := Nat.div_eq_of_lt h
  simp [cpuMpidr, h0, Nat.mod_eq_of_lt h]

end BridgeVm.Machine
