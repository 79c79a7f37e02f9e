import BridgeVm.Xhci.ControlTransfer
import BridgeVm.Xhci.EventOrder
import Mathlib.Data.List.Forall2

/-!
# Doorbells of EP0

The consumer of a transfer ring walks from TRB to TRB, in a cycle state that a Link TRB may toggle; it owns the TRBs
that carry this state. EP0 executes what lies at its dequeue pointer whether it owns it or not. A run whose doorbells
are `Orderly` executes each TD of the walk once (`orderly_doorbells_exactly_once`); a doorbell after the ring has
wrapped executes the TD of the previous lap again (`stale_td_executed_again`).
-/

namespace BridgeVm.Xhci

open Lib

/-! ## The walk of the consumer -/

/-- A place in a transfer ring, and the cycle state of its consumer there. -/
structure RingPosition where
  gpa : Nat
  cycle : Bool
deriving DecidableEq

/-- The place behind a TRB: the next one, or where a Link TRB points. -/
def RingPosition.after (p : RingPosition) (trb : TransferTrb) : RingPosition :=
  if trb.trbType = trbTypeLink then ⟨trb.linkPointer, p.cycle ^^ trb.togglesCycle⟩
  else ⟨trb.gpa + trbSizeBytes, p.cycle⟩

/-- TRBs the consumer owns, one behind the other. -/
inductive Consumes (mem : GuestMemory) : RingPosition → List TransferTrb → RingPosition → Prop
  | nil (p : RingPosition) : Consumes mem p [] p
  | cons {p q : RingPosition} {trb : TransferTrb} {trbs : List TransferTrb}
      (hread : readTransferTrb mem p.gpa = some trb) (howned : trb.cycle = p.cycle)
      (hrest : Consumes mem (p.after trb) trbs q) : Consumes mem p (trb :: trbs) q

/-- A place, or where the Link TRB there leads. -/
def RingPosition.landing (mem : GuestMemory) (p : RingPosition) : RingPosition :=
  match readTransferTrb mem p.gpa with
  | some trb => if trb.trbType = trbTypeLink then p.after trb else p
  | none => p

/-- The TRBs of a walk from an address, whoever owns them. -/
inductive Chained (mem : GuestMemory) : Nat → List TransferTrb → Nat → Prop
  | nil (gpa : Nat) : Chained mem gpa [] gpa
  | link {gpa stop : Nat} {trb : TransferTrb} {trbs : List TransferTrb} (hread : readTransferTrb mem gpa = some trb)
      (htype : trb.trbType = trbTypeLink) (hrest : Chained mem trb.linkPointer trbs stop) :
      Chained mem gpa (trb :: trbs) stop
  | next {gpa stop : Nat} {trb : TransferTrb} {trbs : List TransferTrb} (hread : readTransferTrb mem gpa = some trb)
      (htype : trb.trbType ≠ trbTypeLink) (hrest : Chained mem (trb.gpa + trbSizeBytes) trbs stop) :
      Chained mem gpa (trb :: trbs) stop

/-- Whether TRBs carry the cycle state of a walk that starts in one. -/
def ownedFrom : Bool → List TransferTrb → Bool
  | _, [] => true
  | cycle, trb :: trbs => trb.cycle == cycle && ownedFrom (cycle ^^ trb.togglesCycle) trbs

/-- The cycle state behind TRBs. -/
def cycleBehind (cycle : Bool) (trbs : List TransferTrb) : Bool :=
  trbs.foldl (fun cycle trb => cycle ^^ trb.togglesCycle) cycle

section Walk

variable {mem : GuestMemory} {a b c : Nat} {xs ys : List TransferTrb}

theorem Chained.append (h : Chained mem a xs b) (h' : Chained mem b ys c) : Chained mem a (xs ++ ys) c := by
  induction h with
  | nil _ => exact h'
  | link hread htype _ ih => exact .link hread htype (ih h')
  | next hread htype _ ih => exact .next hread htype (ih h')

theorem Chained.consumes (h : Chained mem a xs b) :
    ∀ {cycle : Bool}, ownedFrom cycle xs = true → Consumes mem ⟨a, cycle⟩ xs ⟨b, cycleBehind cycle xs⟩ := by
  induction h with
  | nil gpa => exact fun _ => .nil _
  | link hread htype _ ih =>
    intro cycle howned
    obtain ⟨hcycle, hafter⟩ := Bool.and_eq_true_iff.mp howned
    refine .cons hread (beq_iff_eq.mp hcycle) ?_
    rw [RingPosition.after, if_pos htype]
    exact ih hafter
  | @next gpa stop trb trbs hread htype hrest ih =>
    intro cycle howned
    obtain ⟨hcycle, hafter⟩ := Bool.and_eq_true_iff.mp howned
    have hsame : (cycle ^^ trb.togglesCycle) = cycle := by
      rw [TransferTrb.togglesCycle, beq_eq_false_iff_ne.mpr htype, Bool.false_and, Bool.xor_false]
    rw [cycleBehind, List.foldl_cons, hsame]
    rw [hsame] at hafter
    refine .cons hread (beq_iff_eq.mp hcycle) ?_
    rw [RingPosition.after, if_neg htype]
    exact ih hafter

theorem chained_readTdTrb {gpa : Nat} {t : TdTrb} (h : readTdTrb mem gpa = some t)
    (htype : t.trb.trbType ≠ trbTypeLink) :
    Chained mem gpa t.trbs (t.trb.gpa + trbSizeBytes) := by
  unfold readTdTrb at h
  cases hread : readTransferTrb mem gpa with
  | none =>
    rw [hread] at h
    cases h
  | some trb =>
    simp only [hread] at h
    split at h
    · rename_i hne
      obtain rfl := Option.some.inj h
      exact .next hread hne (.nil _)
    · rename_i hlink
      obtain ⟨target, htarget, rfl⟩ := Option.map_eq_some_iff.mp h
      exact .link hread (not_not.mp hlink) (.next htarget htype (.nil _))

end Walk

/-! ## The TD that is found -/

/-- The last TRB of a completion is one that asks for its event. -/
def ControlCompletion.endsRequested (c : ControlCompletion) : Bool :=
  match c.trbs.getLast? with
  | some last => last.trbType == trbTypeStatusStage || last.control &&& trbIoc != 0
  | none => false

section Found

variable {mem : GuestMemory}

/-- TRBs that end where a completion does. -/
structure CompletionSpan (mem : GuestMemory) (gpa : Nat) (c : ControlCompletion) (stop : Nat) : Prop where
  chained : Chained mem gpa c.trbs stop
  last : c.endsRequested = true → c.lastTdTrbGpa + trbSizeBytes = stop

theorem statusCompletion_span {before : List TransferTrb} {eventData : Option TransferTrb} {gpa middle : Nat}
    {status : TdTrb} {c : ControlCompletion} (hbefore : Chained mem gpa before middle)
    (hread : readTdTrb mem middle = some status) (htype : status.trb.trbType = trbTypeStatusStage)
    (h : statusCompletion mem before eventData status = some c) : ∃ stop, CompletionSpan mem gpa c stop := by
  have hstatus := hbefore.append (chained_readTdTrb hread (by rw [htype]; decide))
  unfold statusCompletion at h
  split at h
  · obtain rfl := Option.some.inj h
    exact ⟨_, hstatus, fun _ => rfl⟩
  · obtain ⟨trailing, htrailing, rfl⟩ := Option.map_eq_some_iff.mp h
    unfold findTrailingEventData at htrailing
    cases hgpa : checkedAdd status.trb.gpa trbSizeBytes with
    | none =>
      rw [hgpa] at htrailing
      cases htrailing
    | some trailingGpa =>
      simp only [hgpa] at htrailing
      obtain rfl := checkedAdd_some hgpa
      cases hread' : readTdTrb mem (status.trb.gpa + trbSizeBytes) with
      | none =>
        rw [hread'] at htrailing
        cases htrailing
      | some t =>
        simp only [hread'] at htrailing
        split at htrailing
        · cases htrailing
        · rename_i hevent
          obtain rfl := Option.some.inj htrailing
          have hevent := not_not.mp hevent
          refine ⟨_, hstatus.append (chained_readTdTrb hread' (by rw [hevent]; decide)), fun hend => ?_⟩
          have hlast : (before ++ status.trbs ++ t.trbs).getLast? = some t.trb := by
            simp only [TdTrb.trbs, ← List.append_assoc, List.getLast?_concat]
          have hioc : (t.trb.control &&& trbIoc != 0) = true := by
            rw [ControlCompletion.endsRequested, hlast] at hend
            simpa [hevent, trbTypeEventData, trbTypeStatusStage] using hend
          rw [ControlCompletion.lastTdTrbGpa, requested, if_pos hioc]

theorem findControlCompletion_span {gpa : Nat} {c : ControlCompletion} (h : findControlCompletion mem gpa = some c) :
    ∃ stop, CompletionSpan mem gpa c stop := by
  unfold findControlCompletion at h
  cases hfirst : readTdTrb mem gpa with
  | none =>
    rw [hfirst] at h
    cases h
  | some first =>
    simp only [hfirst] at h
    split at h
    · rename_i htype
      exact statusCompletion_span (.nil gpa) hfirst htype h
    · split at h
      · rename_i hevent
        cases hgpa : checkedAdd first.trb.gpa trbSizeBytes with
        | none =>
          rw [hgpa] at h
          cases h
        | some secondGpa =>
          simp only [hgpa] at h
          obtain rfl := checkedAdd_some hgpa
          cases hsecond : readTdTrb mem (first.trb.gpa + trbSizeBytes) with
          | none =>
            rw [hsecond] at h
            cases h
          | some second =>
            simp only [hsecond] at h
            split at h
            · rename_i htype
              exact statusCompletion_span (chained_readTdTrb hfirst (by rw [hevent]; decide)) hsecond htype h
            · cases h
      · cases h

theorem dataStages_span {setup : TransferTrb} {data : TdTrb} {c : ControlCompletion}
    (htype : data.trb.trbType = trbTypeDataStage) (h : dataStages mem setup = some (data, c)) :
    ∃ middle stop, Chained mem (setup.gpa + trbSizeBytes) data.trbs middle ∧ CompletionSpan mem middle c stop := by
  unfold dataStages at h
  cases hdata : checkedAdd setup.gpa trbSizeBytes with
  | none =>
    rw [hdata] at h
    cases h
  | some dataGpa =>
    simp only [hdata] at h
    obtain rfl := checkedAdd_some hdata
    cases hread : readTdTrb mem (setup.gpa + trbSizeBytes) with
    | none =>
      rw [hread] at h
      cases h
    | some found =>
      simp only [hread] at h
      cases hcompletion : checkedAdd found.trb.gpa trbSizeBytes with
      | none =>
        rw [hcompletion] at h
        cases h
      | some completionGpa =>
        simp only [hcompletion] at h
        obtain rfl := checkedAdd_some hcompletion
        obtain ⟨completion, hfound, heq⟩ := Option.map_eq_some_iff.mp h
        obtain ⟨rfl, rfl⟩ := Prod.mk.inj heq
        obtain ⟨stop, hspan⟩ := findControlCompletion_span hfound
        exact ⟨_, stop, chained_readTdTrb hread (by rw [htype]; decide), hspan⟩

/-- The TRBs of a control TD, up to where its completion ends. -/
def TransferSpan (mem : GuestMemory) (gpa : Nat) (t : ControlTransfer) : Prop :=
  ∃ stop, Chained mem gpa t.trbs stop ∧
    (t.request.completion.endsRequested = true → t.request.completion.lastTdTrbGpa + trbSizeBytes = stop)

theorem transferSpan {gpa middle stop : Nat} {setup : TdTrb} {stages : List TransferTrb} {c : ControlCompletion}
    {t : ControlTransfer} (hsetup : Chained mem gpa setup.trbs (setup.trb.gpa + trbSizeBytes))
    (hstages : Chained mem (setup.trb.gpa + trbSizeBytes) stages middle) (hspan : CompletionSpan mem middle c stop)
    (htrbs : t.trbs = setup.trbs ++ stages ++ c.trbs) (hcompletion : t.request.completion = c) :
    TransferSpan mem gpa t := by
  refine ⟨stop, ?_, ?_⟩
  · rw [htrbs]
    exact (hsetup.append hstages).append hspan.chained
  · rw [hcompletion]
    exact hspan.last

theorem dataOutControlTransfer_span {gpa : Nat} {setup : TdTrb} {t : ControlTransfer}
    (hsetup : Chained mem gpa setup.trbs (setup.trb.gpa + trbSizeBytes))
    (h : dataOutControlTransfer mem setup = some t) : TransferSpan mem gpa t := by
  unfold dataOutControlTransfer at h
  cases hstages : dataStages mem setup.trb with
  | none =>
    rw [hstages] at h
    cases h
  | some stages =>
    obtain ⟨data, completion⟩ := stages
    simp only [hstages] at h
    split at h
    · cases h
    · rename_i htype
      obtain ⟨middle, stop, hdata, hspan⟩ := dataStages_span (not_not.mp htype) hstages
      split at h
      · cases h
      · split at h
        · cases h
        · split at h
          · cases h
          · obtain rfl := Option.some.inj h
            exact transferSpan hsetup hdata hspan rfl rfl

theorem dataInControlTransfer_span {gpa : Nat} {setup : TdTrb} {usbConfiguration : UInt8} {t : ControlTransfer}
    (hsetup : Chained mem gpa setup.trbs (setup.trb.gpa + trbSizeBytes))
    (h : dataInControlTransfer mem setup usbConfiguration = some t) : TransferSpan mem gpa t := by
  unfold dataInControlTransfer at h
  cases hstages : dataStages mem setup.trb with
  | none =>
    rw [hstages] at h
    cases h
  | some stages =>
    obtain ⟨data, completion⟩ := stages
    simp only [hstages] at h
    split at h
    · cases h
    · split at h
      · cases h
      · rename_i htype
        obtain ⟨middle, stop, hdata, hspan⟩ := dataStages_span (not_not.mp htype) hstages
        split at h
        · cases h
        · split at h
          · cases h
          · split at h
            · cases h
            · obtain rfl := Option.some.inj h
              exact transferSpan hsetup hdata hspan rfl rfl

theorem noDataControlTransfer_span {gpa : Nat} {setup : TdTrb} {t : ControlTransfer}
    (hsetup : Chained mem gpa setup.trbs (setup.trb.gpa + trbSizeBytes))
    (h : noDataControlTransfer mem setup = some t) : TransferSpan mem gpa t := by
  unfold noDataControlTransfer at h
  cases hgpa : checkedAdd setup.trb.gpa trbSizeBytes with
  | none =>
    rw [hgpa] at h
    cases h
  | some completionGpa =>
    simp only [hgpa] at h
    obtain rfl := checkedAdd_some hgpa
    obtain ⟨completion, hfound, rfl⟩ := Option.map_eq_some_iff.mp h
    obtain ⟨stop, hspan⟩ := findControlCompletion_span hfound
    exact transferSpan hsetup (.nil _) hspan (by rw [List.append_nil]) rfl

theorem controlTransfer_span {gpa : Nat} {usbConfiguration : UInt8} {t : ControlTransfer}
    (h : controlTransfer mem gpa usbConfiguration = some t) : TransferSpan mem gpa t := by
  unfold controlTransfer at h
  split at h
  · cases h
  · cases hsetup : controlSetup mem gpa with
    | none =>
      rw [hsetup] at h
      cases h
    | some setup =>
      simp only [hsetup] at h
      split at h
      · cases h
      · rename_i htype
        have hchained := chained_readTdTrb hsetup (by rw [not_not.mp htype]; decide)
        split at h
        · exact noDataControlTransfer_span hchained h
        · split at h
          · exact dataOutControlTransfer_span hchained h
          · exact dataInControlTransfer_span hchained h

/-- The dequeue pointer after a TD is where the place behind it leads. -/
theorem nextControlDequeue_landing {last next : Nat} {p : RingPosition} (hp : last + trbSizeBytes = p.gpa)
    (h : nextControlDequeue mem last = some next) : (p.landing mem).gpa = next := by
  unfold nextControlDequeue at h
  cases hgpa : checkedAdd last trbSizeBytes with
  | none =>
    rw [hgpa] at h
    cases h
  | some nextGpa =>
    simp only [hgpa] at h
    have hnext : nextGpa = p.gpa := (checkedAdd_some hgpa).trans hp
    rw [hnext] at h
    unfold RingPosition.landing
    cases hread : readTransferTrb mem p.gpa with
    | none =>
      simp only [hread] at h
      exact Option.some.inj h
    | some trb =>
      simp only [hread] at h ⊢
      split at h
      · rename_i hlink
        rw [if_pos hlink, RingPosition.after, if_pos hlink]
        exact Option.some.inj h
      · rename_i hlink
        rw [if_neg hlink]
        exact Option.some.inj h

end Found

/-! ## What a TD does -/

/-- The event of a TRB as it was posted. -/
def PostedFor (event : CompletionEvent) (trace : EventPostTrace) : Prop :=
  trace.parameter = event.parameter ∧ trace.status = event.status ∧
    trace.control = event.control ||| cycleBit trace.cycle

/-- The event rings take events, one after the other. -/
def eventRingsTake (c : XhciController) (mem : GuestMemory) : List CompletionEvent → Bool
  | [] => true
  | event :: events =>
    match c.postEventToInterrupter mem event.interrupter event.parameter event.status event.control with
    | (c, mem, some _) => eventRingsTake c mem events
    | (_, _, none) => false

/-- The memory after the data of an IN stage was written. -/
def ControlTransfer.dataWritten (t : ControlTransfer) (mem : GuestMemory) : GuestMemory :=
  match t.dataIn with
  | some (gpa, bytes) => (mem.writeBytes gpa bytes).1
  | none => mem

/-- A transfer that does nothing: its data buffer is not backed, or without data nothing lies behind its TD or the
event rings take not even its first event. -/
def Ep0.inert (e : Ep0) (mem : GuestMemory) (t : ControlTransfer) : Bool :=
  match t.dataIn with
  | some (gpa, bytes) => !(mem.writeBytes gpa bytes).2
  | none =>
    (nextControlDequeue mem t.request.completion.lastTdTrbGpa).isNone ||
      !eventRingsTake e.xhci mem (t.request.events.take 1)

/-- A transfer the driver handed over: its TRBs carry the cycle state and end in one that asks for its event, and the
event rings take all of its events. -/
def Ep0.handedOver (e : Ep0) (mem : GuestMemory) (cycle : Bool) (t : ControlTransfer) : Bool :=
  ownedFrom cycle t.trbs && t.request.completion.endsRequested &&
    (nextControlDequeue (t.dataWritten mem) t.request.completion.lastTdTrbGpa).isSome &&
    eventRingsTake e.xhci (t.dataWritten mem) t.request.events

section Effects

variable {e : Ep0} {mem : GuestMemory} {t : ControlTransfer}

theorem postEvents_taken {c : XhciController} {events : List CompletionEvent} (h : eventRingsTake c mem events = true) :
    List.Forall₂ PostedFor events (postEvents c mem events).2.2 := by
  induction events generalizing c mem with
  | nil => exact .nil
  | cons event events ih =>
    unfold eventRingsTake at h
    unfold postEvents
    rcases hpost : c.postEventToInterrupter mem event.interrupter event.parameter event.status event.control
      with ⟨c', mem', result⟩
    rw [hpost] at h
    cases result with
    | none => cases h
    | some trace =>
      obtain ⟨-, -, hnone⟩ | ⟨trace', htrace, hposted⟩ := XhciController.postEventToInterrupter_cases hpost
      · cases hnone
      · obtain rfl := Option.some.inj htrace
        exact .cons ⟨hposted.sent.1, hposted.sent.2, hposted.control⟩ (ih h)

theorem postEvents_refused {c : XhciController} {events : List CompletionEvent}
    (h : eventRingsTake c mem (events.take 1) = false) : (postEvents c mem events).2.2 = [] := by
  cases events with
  | nil => rfl
  | cons event events =>
    rw [List.take_succ_cons, List.take_zero] at h
    unfold eventRingsTake at h
    unfold postEvents
    rcases hpost : c.postEventToInterrupter mem event.interrupter event.parameter event.status event.control
      with ⟨c', mem', result⟩
    rw [hpost] at h
    cases result with
    | none => rfl
    | some trace => cases h

theorem events_ne_nil (r : ControlEventRequest) : r.events ≠ [] := by
  unfold ControlEventRequest.events
  cases r.completion.eventData <;> simp

theorem postControlCompletionEvents_taken {next : Nat} (wrote : Bool)
    (hnext : nextControlDequeue mem t.request.completion.lastTdTrbGpa = some next)
    (htake : eventRingsTake e.xhci mem t.request.events = true) :
    (e.postControlCompletionEvents mem wrote t).1.slot1Ep0Dequeue = next ∧
      ∃ posted, (e.postControlCompletionEvents mem wrote t).2.2 = ⟨wrote, posted, true⟩ ∧
        List.Forall₂ PostedFor t.request.events posted := by
  have hposted := postEvents_taken htake
  unfold Ep0.postControlCompletionEvents
  simp only [hnext, if_pos hposted.length_eq.symm]
  exact ⟨trivial, _, rfl, hposted⟩

theorem postControlCompletionEvents_refused
    (h : (nextControlDequeue mem t.request.completion.lastTdTrbGpa).isNone = true ∨
      eventRingsTake e.xhci mem (t.request.events.take 1) = false) (wrote : Bool) :
    (e.postControlCompletionEvents mem wrote t).1.slot1Ep0Dequeue = e.slot1Ep0Dequeue ∧
      (e.postControlCompletionEvents mem wrote t).2.2 = ⟨wrote, [], false⟩ := by
  unfold Ep0.postControlCompletionEvents
  cases hnext : nextControlDequeue mem t.request.completion.lastTdTrbGpa with
  | none => exact ⟨rfl, rfl⟩
  | some next =>
    have hrefused : (postEvents e.xhci mem t.request.events).2.2 = [] := by
      rcases h with hnone | hfirst
      · rw [hnext] at hnone
        cases hnone
      · exact postEvents_refused hfirst
    have hshort : ¬(postEvents e.xhci mem t.request.events).2.2.length = t.request.events.length := by
      rw [hrefused]
      exact fun hlen => events_ne_nil _ (List.length_eq_zero_iff.mp hlen.symm)
    simp only [if_neg hshort]
    exact ⟨trivial, by rw [hrefused]⟩

theorem execute_inert (h : e.inert mem t = true) :
    (e.execute mem t).1.slot1Ep0Dequeue = e.slot1Ep0Dequeue ∧ (e.execute mem t).2.2 = ⟨false, [], false⟩ := by
  unfold Ep0.inert at h
  unfold Ep0.execute
  cases hdata : t.dataIn with
  | none =>
    simp only [hdata, Bool.or_eq_true, Bool.not_eq_true'] at h
    exact postControlCompletionEvents_refused h false
  | some data =>
    simp only [hdata] at h
    simp only [if_pos h]
    exact ⟨trivial, trivial⟩

/-- A transfer handed over is executed as a whole. -/
theorem execute_handedOver {cycle : Bool} (hinert : e.inert mem t = false) (h : e.handedOver mem cycle t = true) :
    nextControlDequeue (t.dataWritten mem) t.request.completion.lastTdTrbGpa =
        some (e.execute mem t).1.slot1Ep0Dequeue ∧
      ∃ posted, (e.execute mem t).2.2 = ⟨t.dataIn.isSome, posted, true⟩ ∧
        List.Forall₂ PostedFor t.request.events posted := by
  simp only [Ep0.handedOver, Bool.and_eq_true, Option.isSome_iff_exists] at h
  obtain ⟨⟨-, next, hnext⟩, htake⟩ := h
  rw [hnext]
  unfold Ep0.inert at hinert
  unfold ControlTransfer.dataWritten at hnext htake
  unfold Ep0.execute
  cases hdata : t.dataIn with
  | none =>
    simp only [hdata] at hnext htake ⊢
    obtain ⟨hdequeue, hposted⟩ := postControlCompletionEvents_taken false hnext htake
    exact ⟨congrArg some hdequeue.symm, hposted⟩
  | some data =>
    simp only [hdata] at hinert hnext htake ⊢
    simp only [hinert, Bool.false_eq_true, if_false]
    obtain ⟨hdequeue, hposted⟩ := postControlCompletionEvents_taken true hnext htake
    exact ⟨congrArg some hdequeue.symm, hposted⟩

end Effects

/-! ## Runs -/

/-- What a doorbell did for the TD it found: where the consumer was, the memory it read, and where it is then. -/
structure Execution where
  start : RingPosition
  mem : GuestMemory
  transfer : ControlTransfer
  effects : Effects
  stop : RingPosition

/-- EP0 from the capture of its dequeue pointer on, with the cycle state of its consumer and what its doorbells did,
newest first. -/
structure Ep0Run where
  ep0 : Ep0
  mem : GuestMemory
  cycle : Bool
  log : List Execution

/-- A doorbell of EP0, or anything that happens elsewhere. -/
inductive Ep0Op
  | doorbell
  | other (xhci : XhciController) (mem : GuestMemory) (usbConfiguration : UInt8)

namespace Ep0Run

def start (ep0 : Ep0) (mem : GuestMemory) : Ep0Run := ⟨ep0, mem, ep0.slot1Ep0Dcs, []⟩

def position (s : Ep0Run) : RingPosition := ⟨s.ep0.slot1Ep0Dequeue, s.cycle⟩

/-- The memory in which a doorbell looks for its TD. -/
def found (s : Ep0Run) : GuestMemory := (s.ep0.resume s.mem).getD s.mem

/-- The cycle state of the consumer behind a TD. -/
def cycleAfter (s : Ep0Run) (t : ControlTransfer) : Bool :=
  (RingPosition.landing (t.dataWritten s.found)
    ⟨t.request.completion.lastTdTrbGpa + trbSizeBytes, cycleBehind s.cycle t.trbs⟩).cycle

def doorbell (s : Ep0Run) : Ep0Run :=
  match s.ep0.processDoorbell s.mem with
  | (ep0, mem, none) => { s with ep0, mem }
  | (ep0, mem, some (t, effects)) =>
    let cycle := if effects.done then s.cycleAfter t else s.cycle
    ⟨ep0, mem, cycle, ⟨s.position, s.found, t, effects, ⟨ep0.slot1Ep0Dequeue, cycle⟩⟩ :: s.log⟩

def step (s : Ep0Run) : Ep0Op → Ep0Run
  | .doorbell => s.doorbell
  | .other xhci mem usbConfiguration => { s with ep0 := { s.ep0 with xhci, usbConfiguration }, mem }

def run (s : Ep0Run) (ops : List Ep0Op) : Ep0Run := ops.foldl step s

/-- A doorbell that finds no TD, one that does nothing, or one the driver handed over. -/
def orderly (s : Ep0Run) : Bool :=
  match s.ep0.resume s.mem with
  | none => true
  | some mem =>
    match controlTransfer mem s.ep0.slot1Ep0Dequeue s.ep0.usbConfiguration with
    | none => true
    | some t => s.ep0.inert mem t || s.ep0.handedOver mem s.cycle t

/-- Every doorbell of a run is. -/
def Orderly : Ep0Run → List Ep0Op → Prop
  | _, [] => True
  | s, .doorbell :: ops => s.orderly = true ∧ Orderly (s.step .doorbell) ops
  | s, .other xhci mem usbConfiguration :: ops => Orderly (s.step (.other xhci mem usbConfiguration)) ops

end Ep0Run

/-- A TD was executed: data written, an event posted, or the dequeue pointer and the configuration changed. -/
def Execution.Executed (x : Execution) : Prop :=
  x.effects.wrote = true ∨ x.effects.posted ≠ [] ∨ x.effects.done = true

/-- A TD executed as it should be: its TRBs are the consumer's, its data was written, each of its events was posted
once, and the consumer is behind its last TRB. -/
structure ExecutedOnce (x : Execution) : Prop where
  owned : ∃ behind, Consumes x.mem x.start x.transfer.trbs behind ∧
    x.stop = behind.landing (x.transfer.dataWritten x.mem)
  wrote : x.effects.wrote = x.transfer.dataIn.isSome
  posted : List.Forall₂ PostedFor x.transfer.request.events x.effects.posted
  done : x.effects.done = true

/-- Where the executions of a log left the consumer. -/
def lastStop (origin : RingPosition) : List Execution → RingPosition
  | [] => origin
  | x :: _ => x.stop

/-- An execution goes on where the one before it ended, and moves the consumer exactly when its TD is executed. -/
structure Continues (origin : RingPosition) (x : Execution) (earlier : List Execution) : Prop where
  start : x.start = lastStop origin earlier
  executed : x.Executed → ExecutedOnce x
  idle : ¬x.Executed → x.stop = x.start

/-- The executions of a run follow the walk of the consumer, each TD of it executed once. -/
def ExactlyOnce (origin : RingPosition) (s : Ep0Run) : Prop :=
  s.position = lastStop origin s.log ∧ Traced (Continues origin) s.log

section Runs

variable {s : Ep0Run} {origin : RingPosition}

theorem doorbell_found {mem : GuestMemory} {t : ControlTransfer} (hresume : s.ep0.resume s.mem = some mem)
    (hfound : controlTransfer mem s.ep0.slot1Ep0Dequeue s.ep0.usbConfiguration = some t) :
    s.found = mem ∧ s.ep0.processDoorbell s.mem =
      ((s.ep0.execute mem t).1, (s.ep0.execute mem t).2.1, some (t, (s.ep0.execute mem t).2.2)) := by
  constructor
  · rw [Ep0Run.found, hresume, Option.getD_some]
  · unfold Ep0.processDoorbell Ep0.processControlTransfer
    simp only [hresume, hfound]

theorem continues_inert {mem : GuestMemory} {t : ControlTransfer} (hs : s.position = lastStop origin s.log)
    (h : s.ep0.inert mem t = true) :
    Continues origin
      ⟨s.position, s.found, t, (s.ep0.execute mem t).2.2,
        ⟨(s.ep0.execute mem t).1.slot1Ep0Dequeue,
          if (s.ep0.execute mem t).2.2.done then s.cycleAfter t else s.cycle⟩⟩ s.log := by
  obtain ⟨hdequeue, heffects⟩ := execute_inert h
  refine ⟨hs, fun hexecuted => ?_, fun _ => ?_⟩
  · rcases hexecuted with hwrote | hposted | hdone
    · rw [heffects] at hwrote
      cases hwrote
    · exact absurd (congrArg Effects.posted heffects) hposted
    · rw [heffects] at hdone
      cases hdone
  · rw [heffects, hdequeue]
    rfl

/-- The execution of a TD the driver handed over. -/
theorem continues_handedOver {mem : GuestMemory} {t : ControlTransfer} (hs : s.position = lastStop origin s.log)
    (hspan : TransferSpan mem s.ep0.slot1Ep0Dequeue t) (hinert : s.ep0.inert mem t = false)
    (h : s.ep0.handedOver mem s.cycle t = true) (hfound : s.found = mem) :
    Continues origin
      ⟨s.position, s.found, t, (s.ep0.execute mem t).2.2,
        ⟨(s.ep0.execute mem t).1.slot1Ep0Dequeue,
          if (s.ep0.execute mem t).2.2.done then s.cycleAfter t else s.cycle⟩⟩ s.log := by
  obtain ⟨hnext, posted, heffects, hposted⟩ := execute_handedOver hinert h
  simp only [Ep0.handedOver, Bool.and_eq_true] at h
  obtain ⟨⟨⟨howned, hend⟩, -⟩, -⟩ := h
  obtain ⟨stop, hchained, hlast⟩ := hspan
  have hstop := hlast hend
  have hwalk := hchained.consumes howned
  have hlanding := nextControlDequeue_landing (p := ⟨stop, cycleBehind s.cycle t.trbs⟩) hstop hnext
  refine ⟨hs, fun _ => ⟨⟨_, by rw [hfound]; exact hwalk, ?_⟩, ?_, ?_, ?_⟩, fun hidle => ?_⟩
  · rw [heffects]
    simp only [if_true, Ep0Run.cycleAfter, hfound, hstop, ← hlanding]
  · rw [heffects]
  · rw [heffects]
    exact hposted
  · rw [heffects]
  · exact absurd (Or.inr (Or.inr (by rw [heffects]))) hidle

theorem doorbell_exactlyOnce (hs : ExactlyOnce origin s) (h : s.orderly = true) : ExactlyOnce origin s.doorbell := by
  obtain ⟨hposition, htraced⟩ := hs
  unfold Ep0Run.orderly at h
  cases hresume : s.ep0.resume s.mem with
  | none =>
    have hnothing : s.ep0.processDoorbell s.mem = (s.ep0, s.mem, none) := by
      rw [Ep0.processDoorbell, hresume]
    rw [Ep0Run.doorbell, hnothing]
    exact ⟨hposition, htraced⟩
  | some mem =>
    simp only [hresume] at h
    cases hfound : controlTransfer mem s.ep0.slot1Ep0Dequeue s.ep0.usbConfiguration with
    | none =>
      have hnothing : s.ep0.processDoorbell s.mem = (s.ep0, mem, none) := by
        unfold Ep0.processDoorbell Ep0.processControlTransfer
        simp only [hresume, hfound]
      rw [Ep0Run.doorbell, hnothing]
      exact ⟨hposition, htraced⟩
    | some t =>
      simp only [hfound] at h
      obtain ⟨hmem, hdoorbell⟩ := doorbell_found hresume hfound
      rw [Ep0Run.doorbell, hdoorbell]
      refine ⟨rfl, ?_, htraced⟩
      cases hinert : s.ep0.inert mem t with
      | true => exact continues_inert hposition hinert
      | false =>
        rw [hinert, Bool.false_or] at h
        exact continues_handedOver hposition (controlTransfer_span hfound) hinert h hmem

theorem run_exactlyOnce {ops : List Ep0Op} (hs : ExactlyOnce origin s) (h : s.Orderly ops) :
    ExactlyOnce origin (s.run ops) := by
  induction ops generalizing s with
  | nil => exact hs
  | cons op ops ih =>
    cases op with
    | doorbell => exact ih (doorbell_exactlyOnce hs h.1) h.2
    | other xhci mem usbConfiguration => exact ih hs h

/-- **Orderly doorbells execute each TD once**: the executions of a run follow the walk of the consumer from the
captured dequeue pointer and cycle state. -/
theorem orderly_doorbells_exactly_once (ep0 : Ep0) (mem : GuestMemory) (ops : List Ep0Op)
    (h : (Ep0Run.start ep0 mem).Orderly ops) :
    ExactlyOnce ⟨ep0.slot1Ep0Dequeue, ep0.slot1Ep0Dcs⟩ ((Ep0Run.start ep0 mem).run ops) :=
  run_exactlyOnce ⟨rfl, trivial⟩ h

end Runs

/-! ## A ring of one TD -/

/-- RAM with the event ring of `segmentTable`, and an EP0 ring at `0x1000`: SET_CONFIGURATION(1) as a Setup and a Status
Stage, and a Link TRB back that toggles the cycle state. -/
def ep0Ring : GuestMemory :=
  let trb (parameter control : Nat) := toLeBytes 8 parameter ++ toLeBytes 4 0 ++ toLeBytes 4 control
  Machine.segmentTable.store 0x1000 (trb 0x10900 0x801 ++ trb 0 0x1001 ++ trb 0x1000 0x1803)

/-- EP0 captured there in the cycle state one. -/
def ep0AtRing : Ep0 where
  xhci := ((Machine.powerOn ep0Ring).run Machine.programRing).xhci
  slot1Ep0Dequeue := 0x1000
  slot1Ep0Dcs := true
  usbConfiguration := 0

/-- After one doorbell. -/
def firstLap : Ep0Run := (Ep0Run.start ep0AtRing ep0Ring).run [.doorbell]

/-- A doorbell; SET_CONFIGURATION(0) in the cycle state of the next lap, with the Link TRB back; and another
doorbell. -/
def twoLaps : List Ep0Op :=
  let trb (parameter control : Nat) := toLeBytes 8 parameter ++ toLeBytes 4 0 ++ toLeBytes 4 control
  [.doorbell,
    .other firstLap.ep0.xhci (firstLap.mem.store 0x1000 (trb 0x900 0x800 ++ trb 0 0x1000 ++ trb 0x1000 0x1802)) 1,
    .doorbell]

/-- Two doorbells execute a TD each: the consumer is at the start of the ring, twice in the other cycle state. -/
theorem two_doorbells_exactly_once :
    ExactlyOnce ⟨0x1000, true⟩ ((Ep0Run.start ep0AtRing ep0Ring).run twoLaps) ∧
      ((Ep0Run.start ep0AtRing ep0Ring).run twoLaps).position = ⟨0x1000, true⟩ ∧
      ((Ep0Run.start ep0AtRing ep0Ring).run twoLaps).log.map (fun x => x.effects.done) = [true, true] ∧
      ((Ep0Run.start ep0AtRing ep0Ring).run twoLaps).ep0.usbConfiguration = 0 :=
  ⟨orderly_doorbells_exactly_once ep0AtRing ep0Ring twoLaps ⟨by decide +kernel, by decide +kernel, trivial⟩,
    by decide +kernel, by decide +kernel, by decide +kernel⟩

theorem Consumes.first_owned {mem : GuestMemory} {p q : RingPosition} {trbs : List TransferTrb}
    (h : Consumes mem p trbs q) : ∀ trb ∈ trbs.head?, trb.cycle = p.cycle := by
  cases h with
  | nil p => simp
  | cons hread howned hrest => simp [howned]

theorem ExactlyOnce.first_owned {origin : RingPosition} {s : Ep0Run} (h : ExactlyOnce origin s) :
    ∀ x ∈ s.log.head?, x.effects.done = true → ∀ trb ∈ x.transfer.trbs.head?, trb.cycle = x.start.cycle := by
  intro x hx hdone trb htrb
  obtain ⟨-, htraced⟩ := h
  cases hlog : s.log with
  | nil =>
    rw [hlog] at hx
    cases hx
  | cons y earlier =>
    rw [hlog] at hx htraced
    obtain rfl := Option.some.inj hx
    obtain ⟨behind, hwalk, -⟩ := (htraced.1.executed (Or.inr (Or.inr hdone))).owned
    exact hwalk.first_owned trb htrb

/-- A second doorbell, with nothing queued, executes the TD again: it carries the cycle state of the lap before. -/
theorem stale_td_executed_again : ¬ ∀ ep0 mem ops,
    ExactlyOnce ⟨ep0.slot1Ep0Dequeue, ep0.slot1Ep0Dcs⟩ ((Ep0Run.start ep0 mem).run ops) := by
  intro h
  have howned := (h ep0AtRing ep0Ring [.doorbell, .doorbell]).first_owned
  have hstale : ∃ x ∈ ((Ep0Run.start ep0AtRing ep0Ring).run [.doorbell, .doorbell]).log.head?,
      x.effects.done = true ∧ ∃ trb ∈ x.transfer.trbs.head?, trb.cycle ≠ x.start.cycle := by
    decide +kernel
  obtain ⟨x, hx, hdone, trb, htrb, hne⟩ := hstale
  exact hne (howned x hx hdone trb htrb)

end BridgeVm.Xhci
