import Mathlib.Data.List.MinMax
import Mathlib.Order.Lattice
import Mathlib.Data.Prod.Lex
import BridgeVm.Machine

/-!
# State of the userspace GICv3 (`userspace_gic/mod.rs`, `cpu_interface.rs`)

Distributor, per-vCPU redistributors and per-vCPU CPU interfaces. 32-bit register banks are `BitVec 32`; the
banks are functions of the register index, with the source's lengths kept as constants; 8-bit priorities and INTIDs
are naturals.
-/

namespace BridgeVm.Gic

open Machine

def gicIntidCount : Nat := 256

def spiBase : Nat := 32

/-- GICv3 spurious INTID. -/
def spuriousIntid : Nat := 1023

/-- vtimer PPI INTID. -/
def vtimerIntid : Nat := 27

def gicdCtlrEnableG1ns : BitVec 32 := 1#32 <<< 1

def gicdCtlrAreNs : BitVec 32 := 1#32 <<< 4

def gicdCtlrDs : BitVec 32 := 1#32 <<< 6

def irouterIrm : BitVec 64 := 1#64 <<< 31

def iccCtlrEoimode : BitVec 64 := 1#64 <<< 1

structure ActiveInterrupt where
  intid : Nat
  priority : Nat
  priorityDropped : Bool
deriving DecidableEq, Repr

/-- Per-vCPU GICv3 CPU interface (system-register facing). -/
structure CpuInterface where
  ctlr : BitVec 64
  priorityMask : Nat
  bpr0 : Nat
  bpr1 : Nat
  group0Enabled : Bool
  group1Enabled : Bool
  /-- Acknowledged interrupts, oldest first. -/
  active : List ActiveInterrupt

def CpuInterface.new : CpuInterface where
  ctlr := 0
  priorityMask := 0
  bpr0 := 0
  bpr1 := 0
  group0Enabled := false
  group1Enabled := false
  active := []

/-- Per-vCPU redistributor: SGIs 0-15 and PPIs 16-31. -/
structure Redistributor where
  waker : BitVec 32
  propbaser : BitVec 64
  pendbaser : BitVec 64
  group0 : BitVec 32
  grpmod0 : BitVec 32
  enabled0 : BitVec 32
  pending0 : BitVec 32
  active0 : BitVec 32
  /-- Level-sensitive input for PPIs: pending while high. -/
  level0 : BitVec 32
  /-- 32 priority bytes. -/
  priority : Nat → Nat
  /-- Two configuration words. -/
  icfgr : Nat → BitVec 32

def Redistributor.new : Redistributor where
  waker := 0
  propbaser := 0
  pendbaser := 0
  group0 := 0xffffffff#32
  grpmod0 := 0
  enabled0 := 0
  pending0 := 0
  active0 := 0
  level0 := 0
  priority := fun _ => 0
  icfgr := fun _ => 0

def Redistributor.effectivePending (r : Redistributor) : BitVec 32 := r.pending0 ||| r.level0

/-- Distributor: SPIs `32 .. 256` with affinity routing. -/
structure Distributor where
  ctlr : BitVec 32
  group : Nat → BitVec 32
  grpmod : Nat → BitVec 32
  enabled : Nat → BitVec 32
  pending : Nat → BitVec 32
  active : Nat → BitVec 32
  /-- Level-sensitive input lines: pending while high. -/
  level : Nat → BitVec 32
  /-- Electrical input history, including edge-triggered SPIs held high. -/
  inputLevel : Nat → BitVec 32
  priority : Nat → Nat
  icfgr : Nat → BitVec 32
  route : Nat → BitVec 64

def Distributor.new : Distributor where
  ctlr := 0
  group := fun _ => 0xffffffff#32
  grpmod := fun _ => 0
  enabled := fun _ => 0
  pending := fun _ => 0
  active := fun _ => 0
  level := fun _ => 0
  inputLevel := fun _ => 0
  priority := fun _ => 0
  icfgr := fun _ => 0
  route := fun _ => 0

/-- Register index and bit mask of an INTID. -/
def Distributor.bit (intid : Nat) : Nat × BitVec 32 := (intid / 32, 1#32 <<< (intid % 32))

def Distributor.effectivePending (d : Distributor) (reg : Nat) : BitVec 32 := d.pending reg ||| d.level reg

structure PendingCandidate where
  intid : Nat
  priority : Nat
deriving DecidableEq, Repr

/-- The complete userspace GICv3, with the vCPU count that `new` asserts. -/
structure UserspaceGic where
  numCpus : Nat
  cpus_pos : 1 ≤ numCpus
  cpus_le : numCpus ≤ 16
  dist : Distributor
  redists : Nat → Redistributor
  ifaces : Nat → CpuInterface

/-- The controller after power-on. -/
def UserspaceGic.new (numCpus : Nat) (hpos : 1 ≤ numCpus) (hle : numCpus ≤ 16) : UserspaceGic where
  numCpus := numCpus
  cpus_pos := hpos
  cpus_le := hle
  dist := Distributor.new
  redists := fun _ => Redistributor.new
  ifaces := fun _ => CpuInterface.new

/-! ## Updates of one component -/

def UserspaceGic.setRedist (g : UserspaceGic) (cpu : Nat) (r : Redistributor) : UserspaceGic :=
  { g with redists := Function.update g.redists cpu r }

def UserspaceGic.setIface (g : UserspaceGic) (cpu : Nat) (i : CpuInterface) : UserspaceGic :=
  { g with ifaces := Function.update g.ifaces cpu i }

def UserspaceGic.setDist (g : UserspaceGic) (d : Distributor) : UserspaceGic := { g with dist := d }

section Updates

variable (g : UserspaceGic) (cpu k : Nat)

@[simp] theorem setRedist_dist (r : Redistributor) : (g.setRedist cpu r).dist = g.dist := rfl

@[simp] theorem setRedist_ifaces (r : Redistributor) : (g.setRedist cpu r).ifaces = g.ifaces := rfl

@[simp] theorem setRedist_self (r : Redistributor) : (g.setRedist cpu r).redists cpu = r := by
  simp [UserspaceGic.setRedist]

theorem setRedist_ne (r : Redistributor) {k : Nat} (h : k ≠ cpu) : (g.setRedist cpu r).redists k = g.redists k := by
  simp [UserspaceGic.setRedist, h]

@[simp] theorem setIface_numCpus (i : CpuInterface) : (g.setIface cpu i).numCpus = g.numCpus := rfl

@[simp] theorem setIface_dist (i : CpuInterface) : (g.setIface cpu i).dist = g.dist := rfl

@[simp] theorem setIface_redists (i : CpuInterface) : (g.setIface cpu i).redists = g.redists := rfl

@[simp] theorem setIface_self (i : CpuInterface) : (g.setIface cpu i).ifaces cpu = i := by
  simp [UserspaceGic.setIface]

theorem setIface_ne (i : CpuInterface) {k : Nat} (h : k ≠ cpu) : (g.setIface cpu i).ifaces k = g.ifaces k := by
  simp [UserspaceGic.setIface, h]

@[simp] theorem setDist_numCpus (d : Distributor) : (g.setDist d).numCpus = g.numCpus := rfl

@[simp] theorem setDist_dist (d : Distributor) : (g.setDist d).dist = d := rfl

@[simp] theorem setDist_redists (d : Distributor) : (g.setDist d).redists = g.redists := rfl

@[simp] theorem setDist_ifaces (d : Distributor) : (g.setDist d).ifaces = g.ifaces := rfl

end Updates

end BridgeVm.Gic
