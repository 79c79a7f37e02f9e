import BridgeVm.UserspaceGic.Delivery

/-!
# Register accesses of the userspace GICv3 (`mmio_regs.rs`, `priority_mmio.rs`, `spi_input.rs`, `mod.rs`)

The entry points of the run loop: `setSpi`, `sendMsi` and `setVtimerPpi` from devices, `mmio` for the distributor,
the redistributors and the MSI frame, `sysreg` for the trapped system registers. Each returns the new state, the
value read and the kick mask.
-/

namespace BridgeVm.Gic

open Machine

/-- Read data (zero for writes) and the vCPUs whose line must be refreshed. -/
structure AccessResult where
  value : BitVec 64
  kickMask : BitVec 64
deriving DecidableEq, Repr

/-! ## Device inputs -/

/-- Is the SPI configured edge-triggered? -/
def Distributor.edge (d : Distributor) (intid : Nat) : Bool :=
  ((d.icfgr (intid / 16) >>> (intid % 16 * 2 + 1)) &&& 1#32) != 0

/-- The input of an SPI goes high; a rising edge of an edge input latches it pending. -/
def Distributor.raiseInput (d : Distributor) (intid : Nat) : Distributor :=
  let (reg, bit) := Distributor.bit intid
  let was := (d.inputLevel reg &&& bit) != 0
  { d with
    inputLevel := Function.update d.inputLevel reg (d.inputLevel reg ||| bit),
    level := Function.update d.level reg (d.level reg ||| bit),
    pending :=
      if d.edge intid && !was then Function.update d.pending reg (d.pending reg ||| bit) else d.pending }

/-- The input of an SPI goes low. -/
def Distributor.lowerInput (d : Distributor) (intid : Nat) : Distributor :=
  let (reg, bit) := Distributor.bit intid
  { d with
    inputLevel := Function.update d.inputLevel reg (d.inputLevel reg &&& ~~~bit),
    level := Function.update d.level reg (d.level reg &&& ~~~bit) }

/-- The level line of an SPI goes low, whatever its input. -/
def Distributor.clearLevel (d : Distributor) (intid : Nat) : Distributor :=
  let (reg, bit) := Distributor.bit intid
  { d with level := Function.update d.level reg (d.level reg &&& ~~~bit) }

/-- One input sample of an SPI: an edge input never holds its level line. -/
def Distributor.sample (d : Distributor) (intid : Nat) (level : Bool) : Distributor :=
  let sampled := if level then d.raiseInput intid else d.lowerInput intid
  if d.edge intid then sampled.clearLevel intid else sampled

/-- Device SPI level; `intid` is absolute. -/
def UserspaceGic.setSpi (g : UserspaceGic) (intid : Nat) (level : Bool) : UserspaceGic × BitVec 64 :=
  if ¬(spiBase ≤ intid ∧ intid < gicIntidCount) then (g, 0)
  else
    let target := (g.routeTarget intid).map fun cpu => (cpu, g.lineAsserted cpu)
    let g' := g.setDist (g.dist.sample intid level)
    -- an edge input going low returns before the kick
    if g.dist.edge intid && !level then (g', 0) else (g', g'.kickTarget target)

/-- Offset of the doorbell register in the MSI frame. -/
def gicmSetSpiNsr : Nat := 0x040

/-- GICv2m MSI write: the data is the SPI's INTID. -/
def UserspaceGic.sendMsi (g : UserspaceGic) (address data : Nat) : UserspaceGic × BitVec 64 :=
  if address ≠ gicMsiFrame.base + gicmSetSpiNsr then (g, 0)
  else if ¬(spiBase ≤ data ∧ data < gicIntidCount) then (g, 0)
  else
    let target := (g.routeTarget data).map fun cpu => (cpu, g.lineAsserted cpu)
    let (reg, bit) := Distributor.bit data
    let g' := g.setDist { g.dist with
      pending := Function.update g.dist.pending reg (g.dist.pending reg ||| bit) }
    (g', g'.kickTarget target)

/-- The vtimer PPI of one vCPU: a fire latches it pending. -/
def UserspaceGic.setVtimerPpi (g : UserspaceGic) (cpu : Nat) (fired : Bool) : UserspaceGic × BitVec 64 :=
  let bit := 1#32 <<< vtimerIntid
  let wasLine := g.lineAsserted cpu
  let redist := g.redists cpu
  if fired then
    let was := (redist.pending0 &&& bit) != 0
    let g' := g.setRedist cpu { redist with pending0 := redist.pending0 ||| bit }
    if !was then (g', g'.kickIfLineChanged cpu wasLine) else (g', 0)
  else
    (g.setRedist cpu { redist with pending0 := redist.pending0 &&& ~~~bit, level0 := redist.level0 &&& ~~~bit }, 0)

/-! ## Register fields -/

inductive WriteMode
  | store
  | setBits
  | clearBits
deriving DecidableEq, Repr

/-- The word a write leaves behind. -/
def WriteMode.apply : WriteMode → BitVec 32 → BitVec 32 → BitVec 32
  | .store, _, value => value
  | .setBits, old, value => old ||| value
  | .clearBits, old, value => old &&& ~~~value

/-- Index of the aligned word register at `offset`, of `len` registers from `base`. -/
def fieldIndex (len base offset : Nat) : Option Nat :=
  if offset < base then none
  else if (offset - base) % 4 ≠ 0 then none
  else if (offset - base) / 4 ≥ len then none
  else some ((offset - base) / 4)

/-- The bytes of a register access, at least one and at most eight. -/
def accessWidth (width : Nat) : Nat := max 1 (min width 8)

/-- Byte `i` of a written value. -/
def valueByte (value : BitVec 64) (i : Nat) : Nat := ((value >>> (i * 8)) &&& 0xff).toNat

/-- Priority bytes `start .. start + width` after a write. -/
def writePriorities (priorities : Nat → Nat) (start width : Nat) (value : BitVec 64) : Nat → Nat := fun j =>
  if start ≤ j ∧ j < start + width then valueByte value (j - start) else priorities j

def readPriorities (priorities : Nat → Nat) (start width : Nat) : BitVec 64 :=
  (List.range width).foldl (fun v i => v ||| (BitVec.ofNat 64 (priorities (start + i)) <<< (i * 8))) 0

/-- Access to `len` priority bytes from `base`: the bytes afterwards and the value read. -/
def priorityBytesAccess (priorities : Nat → Nat) (len base offset width : Nat) (write : Option (BitVec 64)) :
    Option ((Nat → Nat) × BitVec 64) :=
  if offset < base then none
  else
    let start := offset - base
    let width := accessWidth width
    if start + width > len then none
    else
      match write with
      | some value => some (writePriorities priorities start width value, 0)
      | none => some (priorities, readPriorities priorities start width)

/-! ## Distributor -/

inductive DistReg
  | ctlr
  | typer
  | iidr
  | statusr
  | pidr2
  | other
deriving DecidableEq, Repr

def distRegs : List (Nat × DistReg) :=
  [(0x0000, .ctlr), (0x0004, .typer), (0x0008, .iidr), (0x0010, .statusr), (0xffe8, .pidr2)]

def DistReg.ofOffset (offset : Nat) : DistReg := (distRegs.lookup offset).getD .other

def gicdIpriorityr : Nat := 0x0400

def gicdIrouter : Nat := 0x6000

def iidr : BitVec 64 := 0x4252564d#64

def pidr2Gicv3 : BitVec 64 := 0x30

/-- Register banks of the distributor. -/
inductive DistBank
  | group
  | enabled
  | pending
  | active
  | icfgr
  | grpmod
deriving DecidableEq, Repr

/-- Words in a bank. -/
def DistBank.len : DistBank → Nat
  | .icfgr => gicIntidCount / 16
  | _ => gicIntidCount / 32

def Distributor.bank (d : Distributor) : DistBank → Nat → BitVec 32
  | .group => d.group
  | .enabled => d.enabled
  | .pending => d.pending
  | .active => d.active
  | .icfgr => d.icfgr
  | .grpmod => d.grpmod

def Distributor.setBank (d : Distributor) (b : DistBank) (words : Nat → BitVec 32) : Distributor :=
  match b with
  | .group => { d with group := words }
  | .enabled => { d with enabled := words }
  | .pending => { d with pending := words }
  | .active => { d with active := words }
  | .icfgr => { d with icfgr := words }
  | .grpmod => { d with grpmod := words }

/-- A row of the bank table: base offset, bank, write mode and whether a write kicks every vCPU. -/
structure BankRow where
  base : Nat
  bank : DistBank
  mode : WriteMode
  kicks : Bool

def distBankTable : List BankRow :=
  [⟨0x0080, .group, .store, true⟩, ⟨0x0100, .enabled, .setBits, true⟩, ⟨0x0180, .enabled, .clearBits, true⟩,
    ⟨0x0200, .pending, .setBits, true⟩, ⟨0x0280, .pending, .clearBits, true⟩,
    ⟨0x0300, .active, .setBits, true⟩,
    ⟨0x0380, .active, .clearBits, true⟩, ⟨0x0c00, .icfgr, .store, false⟩, ⟨0x0d00, .grpmod, .store, false⟩]

/-- One row tried at an offset; `none` goes on with the next row. -/
def UserspaceGic.tryBank (g : UserspaceGic) (row : BankRow) (offset : Nat) (write : Option (BitVec 64)) :
    Option (UserspaceGic × AccessResult) :=
  (fieldIndex row.bank.len row.base offset).map fun index =>
    let words := g.dist.bank row.bank
    match write with
    | some value =>
      (g.setDist (g.dist.setBank row.bank
          (Function.update words index (row.mode.apply (words index) (value.setWidth 32)))),
        ⟨0, if row.kicks then allCpusMask g.numCpus else 0⟩)
    | none =>
      -- pending includes an asserted level source even while active
      (g, ⟨(if row.bank = .pending then g.dist.effectivePending index else words index).setWidth 64, 0⟩)

/-- Route register write: the whole register or one of its halves. -/
def writeRoute (current : BitVec 64) (width : Nat) (highWord : Bool) (value : BitVec 64) : BitVec 64 :=
  if width ≥ 8 then value
  else if highWord then (current &&& 0xffffffff#64) ||| (value <<< 32)
  else (current &&& ~~~0xffffffff#64) ||| (value &&& 0xffffffff#64)

def readRoute (current : BitVec 64) (width : Nat) (highWord : Bool) : BitVec 64 :=
  if width ≥ 8 then current else if highWord then current >>> 32 else current &&& 0xffffffff#64

/-- The kicks of every vCPU whose line differs from `before`. -/
def UserspaceGic.kickAllChanged (g : UserspaceGic) (before : Nat → Bool) : BitVec 64 :=
  (List.range g.numCpus).foldl (fun m cpu => m ||| g.kickIfLineChanged cpu (before cpu)) 0

def UserspaceGic.distPriorityAccess (g : UserspaceGic) (offset width : Nat) (write : Option (BitVec 64)) :
    Option (UserspaceGic × AccessResult) :=
  (priorityBytesAccess g.dist.priority gicIntidCount gicdIpriorityr offset width write).map
    fun (priorities, value) =>
      let g' := g.setDist { g.dist with priority := priorities }
      -- a packed write can affect interrupts routed to different vCPUs
      (g', ⟨value, if write.isSome then g'.kickAllChanged g.lineAsserted else 0⟩)

def UserspaceGic.distBankedMmio (g : UserspaceGic) (offset width : Nat) (write : Option (BitVec 64)) :
    Option (UserspaceGic × AccessResult) :=
  if gicdIrouter ≤ offset ∧ offset < gicdIrouter + gicIntidCount * 8 then
    let rel := offset - gicdIrouter
    let intid := rel / 8
    let highWord := rel % 8 == 4
    let current := g.dist.route intid
    match write with
    | some value =>
      some (g.setDist { g.dist with
        route := Function.update g.dist.route intid (writeRoute current width highWord value) },
        ⟨0, allCpusMask g.numCpus⟩)
    | none => some (g, ⟨readRoute current width highWord, 0⟩)
  else if gicdIpriorityr ≤ offset ∧ offset < gicdIpriorityr + gicIntidCount then
    g.distPriorityAccess offset width write
  else distBankTable.findSome? fun row => g.tryBank row offset write

def UserspaceGic.distMmio (g : UserspaceGic) (offset width : Nat) (write : Option (BitVec 64)) :
    UserspaceGic × AccessResult :=
  match DistReg.ofOffset offset, write with
  | .ctlr, none => (g, ⟨(g.dist.ctlr ||| gicdCtlrAreNs ||| gicdCtlrDs).setWidth 64, 0⟩)
  | .ctlr, some value =>
    (g.setDist { g.dist with ctlr := value.setWidth 32 &&& 0x3 }, ⟨0, allCpusMask g.numCpus⟩)
  | .typer, none => (g, ⟨BitVec.ofNat 64 (gicIntidCount / 32 - 1) ||| (7#64 <<< 19), 0⟩)
  | .iidr, none => (g, ⟨iidr, 0⟩)
  | .statusr, _ => (g, ⟨0, 0⟩)
  | .pidr2, none => (g, ⟨pidr2Gicv3, 0⟩)
  | _, _ => (g.distBankedMmio offset width write).getD (g, ⟨0, 0⟩)

/-! ## Redistributors -/

inductive RedistReg
  | ctlr
  | iidr
  | typer
  | typerHigh
  | statusr
  | waker
  | propbaser
  | pendbaser
  | pidr2
  | igroupr0
  | isenabler0
  | icenabler0
  | ispendr0
  | icpendr0
  | isactiver0
  | icactiver0
  | icfgr0
  | icfgr1
  | igrpmodr0
  | other
deriving DecidableEq, Repr

def redistRegs : List (Nat × RedistReg) :=
  [(0x0000, .ctlr), (0x0004, .iidr), (0x0008, .typer), (0x000c, .typerHigh), (0x0010, .statusr), (0x0014, .waker),
    (0x0070, .propbaser), (0x0078, .pendbaser), (0xffe8, .pidr2), (0x10080, .igroupr0), (0x10100, .isenabler0),
    (0x10180, .icenabler0), (0x10200, .ispendr0), (0x10280, .icpendr0), (0x10300, .isactiver0),
    (0x10380, .icactiver0), (0x10c00, .icfgr0), (0x10c04, .icfgr1), (0x10d00, .igrpmodr0)]

def RedistReg.ofOffset (offset : Nat) : RedistReg := (redistRegs.lookup offset).getD .other

def gicrIpriorityr : Nat := 0x10400

def gicrWakerProcessorSleep : BitVec 32 := 1#32 <<< 1

def gicrWakerChildrenAsleep : BitVec 32 := 1#32 <<< 2

/-- `GICR_TYPER` of a vCPU: its affinity, its number and whether it is the last. -/
def gicrTyper (numCpus cpu : Nat) : BitVec 64 :=
  (BitVec.ofNat 64 (cpuMpidr cpu % 0x1000000) <<< 32) ||| (BitVec.ofNat 64 cpu <<< 8) |||
    (if cpu = numCpus - 1 then 1#64 <<< 4 else 0)

/-- The new redistributor and whether the write kicks its vCPU. -/
def Redistributor.write (r : Redistributor) (reg : RedistReg) (value : BitVec 64) : Redistributor × Bool :=
  let value32 := value.setWidth 32
  match reg with
  | .waker =>
    let sleeping := (value32 &&& gicrWakerProcessorSleep) != 0
    ({ r with waker := if sleeping then gicrWakerProcessorSleep ||| gicrWakerChildrenAsleep else 0 }, true)
  | .propbaser => ({ r with propbaser := value }, false)
  | .pendbaser => ({ r with pendbaser := value }, false)
  | .igroupr0 => ({ r with group0 := value32 }, true)
  | .isenabler0 => ({ r with enabled0 := r.enabled0 ||| value32 }, true)
  | .icenabler0 => ({ r with enabled0 := r.enabled0 &&& ~~~value32 }, true)
  | .ispendr0 => ({ r with pending0 := r.pending0 ||| value32 }, true)
  | .icpendr0 => ({ r with pending0 := r.pending0 &&& ~~~value32 }, true)
  | .isactiver0 => ({ r with active0 := r.active0 ||| value32 }, false)
  | .icactiver0 => ({ r with active0 := r.active0 &&& ~~~value32 }, true)
  | .icfgr0 => ({ r with icfgr := Function.update r.icfgr 0 value32 }, false)
  | .icfgr1 => ({ r with icfgr := Function.update r.icfgr 1 value32 }, false)
  | .igrpmodr0 => ({ r with grpmod0 := value32 }, false)
  | .ctlr | .iidr | .typer | .typerHigh | .statusr | .pidr2 | .other => (r, false)

def Redistributor.read (r : Redistributor) (numCpus cpu : Nat) (reg : RedistReg) (width : Nat) : BitVec 64 :=
  let typer := gicrTyper numCpus cpu
  match reg with
  | .iidr => Gic.iidr
  | .typer => if width ≥ 8 then typer else typer &&& 0xffffffff#64
  | .typerHigh => typer >>> 32
  | .waker => r.waker.setWidth 64
  | .propbaser => r.propbaser
  | .pendbaser => r.pendbaser
  | .pidr2 => pidr2Gicv3
  | .igroupr0 => r.group0.setWidth 64
  | .isenabler0 | .icenabler0 => r.enabled0.setWidth 64
  | .ispendr0 | .icpendr0 => r.effectivePending.setWidth 64
  | .isactiver0 | .icactiver0 => r.active0.setWidth 64
  | .icfgr0 => (r.icfgr 0).setWidth 64
  | .icfgr1 => (r.icfgr 1).setWidth 64
  | .igrpmodr0 => r.grpmod0.setWidth 64
  | .ctlr | .statusr | .other => 0

def UserspaceGic.redistPriorityAccess (g : UserspaceGic) (cpu offset width : Nat) (write : Option (BitVec 64)) :
    Option (UserspaceGic × AccessResult) :=
  (priorityBytesAccess (g.redists cpu).priority 32 gicrIpriorityr offset width write).map
    fun (priorities, value) =>
      let g' := g.setRedist cpu { g.redists cpu with priority := priorities }
      (g', ⟨value, if write.isSome then g'.kickIfLineChanged cpu (g.lineAsserted cpu) else 0⟩)

def UserspaceGic.redistMmio (g : UserspaceGic) (cpu offset width : Nat) (write : Option (BitVec 64)) :
    UserspaceGic × AccessResult :=
  match RedistReg.ofOffset offset, write with
  | .other, _ =>
    if gicrIpriorityr ≤ offset ∧ offset < gicrIpriorityr + 32 then
      (g.redistPriorityAccess cpu offset width write).getD (g, ⟨0, 0⟩)
    else (g, ⟨0, 0⟩)
  | reg, none => (g, ⟨(g.redists cpu).read g.numCpus cpu reg width, 0⟩)
  | reg, some value =>
    let (redist, kicks) := (g.redists cpu).write reg value
    (g.setRedist cpu redist, ⟨0, if kicks then kickMaskFor cpu else 0⟩)

/-! ## MSI frame and the address decoder -/

def UserspaceGic.msiFrameMmio (g : UserspaceGic) (offset : Nat) (write : Option (BitVec 64)) :
    UserspaceGic × AccessResult :=
  match write with
  | some value =>
    if offset = gicmSetSpiNsr then
      let (g', kickMask) := g.sendMsi (gicMsiFrame.base + gicmSetSpiNsr) (value &&& 0x3ff#64).toNat
      (g', ⟨0, kickMask⟩)
    else (g, ⟨0, 0⟩)
  | none =>
    if offset = 0x008 then
      (g, ⟨(BitVec.ofNat 64 gicMsiIntidBase <<< 16) ||| BitVec.ofNat 64 gicMsiIntidCount, 0⟩)
    else if offset = 0xfe8 then (g, ⟨0x20, 0⟩)
    else (g, ⟨0, 0⟩)

/-- MMIO access from a data abort; `write` carries the store value. -/
def UserspaceGic.mmio (g : UserspaceGic) (ipa width : Nat) (write : Option (BitVec 64)) :
    UserspaceGic × AccessResult :=
  if gicDist.contains ipa then g.distMmio (ipa - gicDist.base) width write
  else if gicRedist.contains ipa then
    let offset := ipa - gicRedist.base
    let cpu := offset / gicv3RedistStride
    let reg := offset % gicv3RedistStride
    if cpu < g.numCpus then g.redistMmio cpu reg width write else (g, ⟨0, 0⟩)
  else if gicMsiFrame.contains ipa then g.msiFrameMmio (ipa - gicMsiFrame.base) write
  else (g, ⟨0, 0⟩)

/-! ## System registers -/

inductive SysReg
  | sre
  | ctlr
  | pmr
  | bpr0
  | bpr1
  | rpr
  | igrpen0
  | igrpen1
  | iar0
  | iar1
  | hppir0
  | hppir1
  | eoir0
  | eoir1
  | dir
  | sgi1r
  | asgi1r
  | sgi0r
  /-- `ICC_AP0Rn` and `ICC_AP1Rn`. -/
  | apr (group1 : Bool) (n : Nat)
deriving DecidableEq, Repr

def sysRegs : List (Nat × SysReg) :=
  [(0xc230, .pmr), (0xc640, .iar0), (0xc641, .eoir0), (0xc642, .hppir0), (0xc643, .bpr0),
    (0xc644, .apr false 0), (0xc645, .apr false 1), (0xc646, .apr false 2), (0xc647, .apr false 3),
    (0xc648, .apr true 0), (0xc649, .apr true 1), (0xc64a, .apr true 2), (0xc64b, .apr true 3),
    (0xc659, .dir), (0xc65b, .rpr), (0xc65d, .sgi1r), (0xc65e, .asgi1r), (0xc65f, .sgi0r), (0xc660, .iar1),
    (0xc661, .eoir1), (0xc662, .hppir1), (0xc663, .bpr1), (0xc664, .ctlr), (0xc665, .sre), (0xc666, .igrpen0),
    (0xc667, .igrpen1)]

def SysReg.ofEncoding (sysReg : Nat) : Option SysReg := sysRegs.lookup sysReg

/-- One target of a software-generated interrupt. -/
def UserspaceGic.raiseSgi (g : UserspaceGic) (target intid : Nat) : UserspaceGic × BitVec 64 :=
  let redist := g.redists target
  let g' := g.setRedist target { redist with pending0 := redist.pending0 ||| (1#32 <<< intid) }
  (g', g'.kickIfLineChanged target (g.lineAsserted target))

/-- The targets in order; a broadcast skips the sender. -/
def UserspaceGic.raiseSgis (intid cpu : Nat) (irm : Bool) : List Nat → UserspaceGic → BitVec 64 →
    UserspaceGic × BitVec 64
  | [], g, kickMask => (g, kickMask)
  | target :: rest, g, kickMask =>
    if irm && target == cpu then raiseSgis intid cpu irm rest g kickMask
    else
      let (g', kick) := g.raiseSgi target intid
      raiseSgis intid cpu irm rest g' (kickMask ||| kick)

/-- Trapped system-register read; `none` when the register is not readable here. -/
def UserspaceGic.sysregRead (g : UserspaceGic) (cpu : Nat) (reg : SysReg) : Option (UserspaceGic × AccessResult) :=
  let iface := g.ifaces cpu
  let ofNat (n : Nat) : Option (UserspaceGic × AccessResult) := some (g, ⟨BitVec.ofNat 64 n, 0⟩)
  match reg with
  | .sre => ofNat 0x7
  | .ctlr => some (g, ⟨iface.ctlr ||| (7#64 <<< 8) ||| (1#64 <<< 11), 0⟩)
  | .pmr => ofNat iface.priorityMask
  | .bpr0 => ofNat iface.bpr0
  | .bpr1 => ofNat (max iface.bpr1 1)
  | .rpr => ofNat iface.runningPriority
  | .igrpen0 => ofNat iface.group0Enabled.toNat
  | .igrpen1 => ofNat iface.group1Enabled.toNat
  | .iar1 =>
    let (g', intid) := g.acknowledge cpu
    some (g', ⟨BitVec.ofNat 64 intid, 0⟩)
  | .iar0 | .hppir0 => ofNat spuriousIntid
  | .hppir1 => ofNat (g.highestPendingIntid cpu)
  | .apr group1 n => some (g, ⟨iface.activePriorities group1 n, 0⟩)
  | .eoir0 | .eoir1 | .dir | .sgi1r | .asgi1r | .sgi0r => none

/-- Trapped system-register write; `none` when the register is not writable here. -/
def UserspaceGic.sysregWrite (g : UserspaceGic) (cpu : Nat) (reg : SysReg) (value : BitVec 64) :
    Option (UserspaceGic × BitVec 64) :=
  let iface := g.ifaces cpu
  match reg with
  | .sre => some (g, 0)
  | .ctlr => some (g.setIface cpu { iface with ctlr := value &&& iccCtlrEoimode }, 0)
  | .pmr => some (g.setIface cpu { iface with priorityMask := (value &&& 0xff#64).toNat }, kickMaskFor cpu)
  | .bpr0 => some (g.setIface cpu { iface with bpr0 := (value &&& 0x7#64).toNat }, 0)
  | .bpr1 => some (g.setIface cpu { iface with bpr1 := (value &&& 0x7#64).toNat }, 0)
  | .igrpen0 => some (g.setIface cpu { iface with group0Enabled := (value &&& 1#64) != 0 }, 0)
  | .igrpen1 => some (g.setIface cpu { iface with group1Enabled := (value &&& 1#64) != 0 }, kickMaskFor cpu)
  | .eoir1 =>
    let intid := (value &&& 0xffffff#64).toNat
    if intid = spuriousIntid then some (g, 0)
    else
      let dropped := g.priorityDrop cpu intid
      if !(dropped.ifaces cpu).eoiMode then
        let (g', kick) := dropped.deactivate cpu intid
        some (g', kick ||| kickMaskFor cpu)
      else some (dropped, kickMaskFor cpu)
  | .eoir0 => some (g, 0)
  | .dir =>
    let intid := (value &&& 0xffffff#64).toNat
    if intid = spuriousIntid then some (g, 0)
    else
      let (g', kick) := g.deactivate cpu intid
      some (g', kick ||| kickMaskFor cpu)
  | .sgi1r =>
    let intid := ((value >>> 24) &&& 0xf#64).toNat
    let irm := (value &&& (1#64 <<< 40)) != 0
    some (UserspaceGic.raiseSgis intid cpu irm (g.sgi1rTargets value) g 0)
  | .asgi1r | .sgi0r => some (g, 0)
  | .apr group1 n =>
    let (iface', dropped) := iface.writeActivePriorities group1 n value
    some (g.setIface cpu iface', if dropped then kickMaskFor cpu else 0)
  | .rpr | .iar0 | .iar1 | .hppir0 | .hppir1 => none

/-- What a system-register write does: nothing, a setting of the CPU interface, an end of interrupt, a deactivation,
SGIs, or a write of an active priorities register. -/
inductive SysregWrote (g : UserspaceGic) (cpu : Nat) : UserspaceGic × BitVec 64 → Prop
  | ignored : SysregWrote g cpu (g, 0)
  | setting (iface : CpuInterface) (kick : BitVec 64) (hactive : iface.active = (g.ifaces cpu).active)
      (hmask : (g.ifaces cpu).priorityMask ≤ 0xff → iface.priorityMask ≤ 0xff) :
      SysregWrote g cpu (g.setIface cpu iface, kick)
  | drop (intid : Nat) : SysregWrote g cpu (g.priorityDrop cpu intid, kickMaskFor cpu)
  | dropDeactivate (intid : Nat) : SysregWrote g cpu (((g.priorityDrop cpu intid).deactivate cpu intid).1,
      ((g.priorityDrop cpu intid).deactivate cpu intid).2 ||| kickMaskFor cpu)
  | deactivate (intid : Nat) : SysregWrote g cpu ((g.deactivate cpu intid).1,
    (g.deactivate cpu intid).2 ||| kickMaskFor cpu)
  | sgis (intid : Nat) (irm : Bool) (targets : List Nat) (hintid : intid < 16) :
      SysregWrote g cpu (UserspaceGic.raiseSgis intid cpu irm targets g 0)
  | apr (group1 : Bool) (n : Nat) (value kick : BitVec 64) :
      SysregWrote g cpu (g.setIface cpu ((g.ifaces cpu).writeActivePriorities group1 n value).1, kick)

theorem sysregWrite_cases {g : UserspaceGic} {cpu : Nat} {reg : SysReg} {value : BitVec 64}
    {p : UserspaceGic × BitVec 64}
    (h : g.sysregWrite cpu reg value = some p) : SysregWrote g cpu p := by
  cases reg <;> unfold UserspaceGic.sysregWrite at h
  case pmr =>
    cases h
    refine .setting _ _ rfl fun _ => ?_
    show (value &&& 0xff#64).toNat ≤ 0xff
    rw [BitVec.toNat_and]
    exact Nat.and_le_right
  case eoir1 =>
    dsimp only at h
    split at h
    · cases h
      exact .ignored
    · split at h
      · cases h
        exact .dropDeactivate _
      · cases h
        exact .drop _
  case dir =>
    dsimp only at h
    split at h
    · cases h
      exact .ignored
    · cases h
      exact .deactivate _
  case sgi1r =>
    cases h
    refine .sgis _ _ _ ?_
    have hle : (value >>> 24 &&& 0xf#64).toNat ≤ 15 := by
      rw [BitVec.toNat_and]
      exact Nat.and_le_right
    omega
  case apr group1 n =>
    cases h
    exact .apr group1 n value _
  case ctlr | bpr0 | bpr1 | igrpen0 | igrpen1 =>
    cases h
    exact .setting _ _ rfl id
  case sre | eoir0 | asgi1r | sgi0r =>
    cases h
    exact .ignored
  case rpr | iar0 | iar1 | hppir0 | hppir1 => cases h

/-- Trapped system-register access; `none` when the register is not one of the controller's. -/
def UserspaceGic.sysreg (g : UserspaceGic) (cpu sysReg : Nat) (isRead : Bool) (writeValue : BitVec 64) :
    Option (UserspaceGic × AccessResult) :=
  match SysReg.ofEncoding sysReg with
  | none => none
  | some reg =>
    if isRead then g.sysregRead cpu reg
    else (g.sysregWrite cpu reg writeValue).map fun (g', kickMask) => (g', ⟨0, kickMask⟩)

end BridgeVm.Gic
