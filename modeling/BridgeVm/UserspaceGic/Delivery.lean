import BridgeVm.UserspaceGic.State

/-!
# Delivery in the userspace GICv3 (`mod.rs`, `cpu_interface.rs`, `routing.rs`, `sgi.rs`)

Which interrupt a vCPU would take (`highestCandidate`), whether its IRQ line is up (`lineAsserted`), the kick of a
vCPU whose line moved (`kickIfLineChanged`), and the operations of a CPU interface: acknowledge, priority drop,
deactivation and the active priorities registers.
-/

namespace BridgeVm.Gic

open Machine

/-! ## CPU interface -/

def CpuInterface.runningPriority (i : CpuInterface) : Nat :=
  ((i.active.filter fun a => !a.priorityDropped).map fun a => a.priority &&& 0xfe).min?.getD 0xff

/-- Priorities below this value are delivered. -/
def CpuInterface.threshold (i : CpuInterface) : Nat :=
  let running := i.runningPriority
  let preemption := if running = 0xff then 0xff else running &&& ((0xff <<< max i.bpr1 1) % 256)
  min i.priorityMask preemption

def CpuInterface.eoiMode (i : CpuInterface) : Bool := (i.ctlr &&& iccCtlrEoimode) != 0

/-- One word of the active priorities registers. -/
def CpuInterface.activePriorities (i : CpuInterface) (group1 : Bool) (n : Nat) : BitVec 64 :=
  if !group1 then 0
  else
    (((i.active.filter fun a => !a.priorityDropped).map fun a => a.priority >>> 1).filter
      fun bit => bit / 32 == n).foldl (fun word bit => word ||| (1#64 <<< (bit % 32))) 0

/-- Does a write of `value` to word `n` drop the priority of this entry? -/
def ActiveInterrupt.droppedBy (a : ActiveInterrupt) (group1 : Bool) (n : Nat) (value : BitVec 64) : Bool :=
  let bit := a.priority >>> 1
  group1 && !a.priorityDropped && (bit / 32 == n && (value &&& (1#64 <<< (bit % 32))) == 0)

/-- Clearing a reported bit drops that priority; the flag says whether one dropped. -/
def CpuInterface.writeActivePriorities (i : CpuInterface) (group1 : Bool) (n : Nat) (value : BitVec 64) :
    CpuInterface × Bool :=
  ({ i with
      active := i.active.map fun a => if a.droppedBy group1 n value then { a with priorityDropped := true } else a },
    i.active.any fun a => a.droppedBy group1 n value)

/-- Marks the newest entry of an INTID as priority-dropped (`rfind`). -/
def dropNewest (intid : Nat) : List ActiveInterrupt → List ActiveInterrupt
  | [] => []
  | a :: rest =>
    if rest.any fun b => b.intid == intid then a :: dropNewest intid rest
    else if a.intid = intid then { a with priorityDropped := true } :: rest
    else a :: rest

/-- Removes the newest entry of an INTID (`rposition`, `remove`). -/
def removeNewest (intid : Nat) : List ActiveInterrupt → List ActiveInterrupt
  | [] => []
  | a :: rest =>
    if rest.any fun b => b.intid == intid then a :: removeNewest intid rest
    else if a.intid = intid then rest
    else a :: rest

/-! ## Routing -/

/-- The levels `Aff1:Aff0` of a route register. -/
def irouterAffinity (value : BitVec 64) : Nat := (value &&& 0xffff).toNat

/-- The vCPU an SPI is routed to; interrupt routing mode chooses vCPU 0. -/
def UserspaceGic.routeTarget (g : UserspaceGic) (intid : Nat) : Option Nat :=
  let route := g.dist.route intid
  if (route &&& irouterIrm) != 0 then some 0
  else (List.range g.numCpus).find? fun cpu => cpuMpidr cpu == irouterAffinity route

def UserspaceGic.spiRoutesToCpu (g : UserspaceGic) (intid cpu : Nat) : Bool :=
  if cpu ≥ g.numCpus then false
  else
    let route := g.dist.route intid
    if (route &&& irouterIrm) != 0 then cpu == 0 else cpuMpidr cpu == irouterAffinity route

/-- Targets of a software-generated interrupt; with the broadcast bit the caller leaves itself out. -/
def UserspaceGic.sgi1rTargets (g : UserspaceGic) (value : BitVec 64) : List Nat :=
  if (value &&& (1#64 <<< 40)) != 0 then List.range g.numCpus
  else
    let targetList := value &&& 0xffff
    let aff1 := ((value >>> 16) &&& 0xff).toNat
    let aff2 := ((value >>> 32) &&& 0xff).toNat
    (List.range g.numCpus).filter fun c =>
      let mpidr := cpuMpidr c
      let cpuAff1 := (mpidr >>> 8) &&& 0xff
      let cpuAff2 := (mpidr >>> 16) &&& 0xff
      let cpuAff0 := mpidr &&& 0xff
      cpuAff2 == aff2 && cpuAff1 == aff1 && decide (cpuAff0 < 16) &&
        (targetList &&& (1#64 <<< cpuAff0)) != 0

/-! ## Candidates and the IRQ line -/

/-- Group 1, enabled, pending and not active, at the redistributor. -/
def Redistributor.ready (r : Redistributor) (intid : Nat) : Bool :=
  let bit := 1#32 <<< intid
  let group1 := (r.group0 &&& bit) != 0
  let enabled := (r.enabled0 &&& bit) != 0
  let pending := (r.effectivePending &&& bit) != 0
  let active := (r.active0 &&& bit) != 0
  group1 && enabled && pending && !active

/-- Group 1, enabled, pending and not active, at the distributor. -/
def Distributor.ready (d : Distributor) (intid : Nat) : Bool :=
  let (reg, bit) := Distributor.bit intid
  let group1 := (d.group reg &&& bit) != 0
  let enabled := (d.enabled reg &&& bit) != 0
  let pending := (d.effectivePending reg &&& bit) != 0
  let active := (d.active reg &&& bit) != 0
  group1 && enabled && pending && !active

/-- `min_by_key` on `(priority, intid)`. -/
def minCandidate (cs : List PendingCandidate) : Option PendingCandidate :=
  cs.argmin fun c => toLex (c.priority, c.intid)

def UserspaceGic.spiCandidateForCpu (g : UserspaceGic) (cpu threshold : Nat) : Option PendingCandidate :=
  minCandidate <| (List.range' spiBase (gicIntidCount - spiBase)).filterMap fun intid =>
    if !g.dist.ready intid then none
    else if !g.spiRoutesToCpu intid cpu then none
    else
      let priority := g.dist.priority intid
      if priority < threshold then some ⟨intid, priority⟩ else none

def UserspaceGic.localCandidateForCpu (g : UserspaceGic) (cpu threshold : Nat) : Option PendingCandidate :=
  let redist := g.redists cpu
  minCandidate <| (List.range 32).filterMap fun intid =>
    if !redist.ready intid then none
    else
      let priority := redist.priority intid
      if priority < threshold then some ⟨intid, priority⟩ else none

def UserspaceGic.highestCandidate (g : UserspaceGic) (cpu threshold : Nat) : Option PendingCandidate :=
  if (g.dist.ctlr &&& gicdCtlrEnableG1ns) == 0 then none
  else minCandidate ([g.localCandidateForCpu cpu threshold, g.spiCandidateForCpu cpu threshold].filterMap id)

/-- Should this vCPU's IRQ line be asserted right now? -/
def UserspaceGic.lineAsserted (g : UserspaceGic) (cpu : Nat) : Bool :=
  let iface := g.ifaces cpu
  iface.group1Enabled && (g.highestCandidate cpu iface.threshold).isSome

def allCpusMask (numCpus : Nat) : BitVec 64 := (1#64 <<< numCpus) - 1

/-- The mask of one vCPU. -/
def kickMaskFor (cpu : Nat) : BitVec 64 := 1#64 <<< cpu

/-- Kick a vCPU whose line level changed; `g` is the state after the mutation. -/
def UserspaceGic.kickIfLineChanged (g : UserspaceGic) (cpu : Nat) (wasAsserted : Bool) : BitVec 64 :=
  if wasAsserted != g.lineAsserted cpu then kickMaskFor cpu else 0

/-- The kick of an optional routed target with its level before the mutation. -/
def UserspaceGic.kickTarget (g : UserspaceGic) : Option (Nat × Bool) → BitVec 64
  | some (cpu, was) => g.kickIfLineChanged cpu was
  | none => 0

/-! ## Operations of a CPU interface -/

/-- Mark an INTID acknowledged: clear its latch and set its active bit. -/
def UserspaceGic.activate (g : UserspaceGic) (cpu intid : Nat) : UserspaceGic :=
  if intid < 32 then
    let redist := g.redists cpu
    let bit := 1#32 <<< intid
    g.setRedist cpu { redist with pending0 := redist.pending0 &&& ~~~bit, active0 := redist.active0 ||| bit }
  else
    let (reg, bit) := Distributor.bit intid
    g.setDist { g.dist with
      pending := Function.update g.dist.pending reg (g.dist.pending reg &&& ~~~bit),
      active := Function.update g.dist.active reg (g.dist.active reg ||| bit) }

/-- Interrupt acknowledgement (`ICC_IAR1_EL1`). -/
def UserspaceGic.acknowledge (g : UserspaceGic) (cpu : Nat) : UserspaceGic × Nat :=
  let iface := g.ifaces cpu
  if !iface.group1Enabled then (g, spuriousIntid)
  else
    match g.highestCandidate cpu iface.threshold with
    | none => (g, spuriousIntid)
    | some candidate =>
      let g' := g.activate cpu candidate.intid
      let active := iface.active.filter fun e => !(e.priorityDropped && e.intid == candidate.intid)
      (g'.setIface cpu { iface with active := active ++ [⟨candidate.intid, candidate.priority, false⟩] },
        candidate.intid)

/-- Enabled pending work, independent of the priority mask. -/
def UserspaceGic.highestPendingIntid (g : UserspaceGic) (cpu : Nat) : Nat :=
  if !(g.ifaces cpu).group1Enabled then spuriousIntid
  else ((g.highestCandidate cpu 0xff).map fun candidate => candidate.intid).getD spuriousIntid

def UserspaceGic.priorityDrop (g : UserspaceGic) (cpu intid : Nat) : UserspaceGic :=
  g.setIface cpu { g.ifaces cpu with active := dropNewest intid (g.ifaces cpu).active }

/-- Clear the active bit of an INTID. -/
def UserspaceGic.clearActive (g : UserspaceGic) (cpu intid : Nat) : UserspaceGic :=
  if intid < 32 then
    g.setRedist cpu { g.redists cpu with active0 := (g.redists cpu).active0 &&& ~~~(1#32 <<< intid) }
  else if intid < gicIntidCount then
    let (reg, bit) := Distributor.bit intid
    g.setDist { g.dist with active := Function.update g.dist.active reg (g.dist.active reg &&& ~~~bit) }
  else g

/-- Deactivation, with a kick for the current target of a shared interrupt. -/
def UserspaceGic.deactivate (g : UserspaceGic) (cpu intid : Nat) : UserspaceGic × BitVec 64 :=
  let target :=
    if spiBase ≤ intid ∧ intid < gicIntidCount then
      (g.routeTarget intid).map fun target => (target, g.lineAsserted target)
    else none
  let g' := (g.setIface cpu { g.ifaces cpu with active := removeNewest intid (g.ifaces cpu).active }).clearActive
    cpu intid
  (g', g'.kickTarget target)

end BridgeVm.Gic
