import BridgeVm.Hda.Controller
import BridgeVm.Lib.EventLog

/-!
# HDA messages

With the message latch drained after every step, a source of INTSTS that rises between two drains sends a message at the
second (`rises_sent`): with the microphone each of the three sources for itself, without it the level of them all. What
a source is an `or` of is not told apart (`rirb_hides_corb`).
-/

namespace BridgeVm.Hda

open Lib

universe u v

variable {σ : Type u} {κ : Type v}

/-! ## Runs -/

/-- A register write, a poll with what the elapsed time allows each stream to move, or the guest writing its memory.
Reads change nothing. -/
inductive HdaOp
  | mmioWrite (offset size : Nat) (value : UInt64)
  | poll (capture playback : Option Nat)
  | memory (mem : GuestMemory)

/-- `none` is an overflow. -/
def HdaSystem.step [HdaCodec κ] (source : PcmSource σ) (codec : κ) (h : HdaSystem σ κ) : HdaOp →
    Option (HdaSystem σ κ)
  | .mmioWrite offset size value => some (h.mmioWrite source codec offset size value)
  | .poll capture playback => (h.pollCapture source capture).bind fun h => h.pollPlayback playback
  | .memory mem => some { h with mem }

/-- A drain: the controller then, and what was sent. -/
structure Drained (σ : Type u) (κ : Type v) where
  ctrl : HdaController σ κ
  sent : List MsiMessage

/-- A controller whose latch is drained after every step, with the drains so far, newest first. -/
structure Serviced (σ : Type u) (κ : Type v) where
  hda : HdaSystem σ κ
  log : List (Drained σ κ)

namespace Serviced

/-- The drain after a step, MSI enabled. -/
def drain (address : UInt64) (data : UInt32) (s : Serviced σ κ) (h : HdaSystem σ κ) : Serviced σ κ :=
  let (ctrl, sent) := h.ctrl.drainPendingMsiInto true address data []
  ⟨{ h with ctrl }, ⟨ctrl, sent⟩ :: s.log⟩

def step [HdaCodec κ] (source : PcmSource σ) (codec : κ) (address : UInt64) (data : UInt32) (s : Serviced σ κ)
    (op : HdaOp) : Option (Serviced σ κ) :=
  (s.hda.step source codec op).map (s.drain address data)

def run [HdaCodec κ] (source : PcmSource σ) (codec : κ) (address : UInt64) (data : UInt32) (s : Serviced σ κ)
    (ops : List HdaOp) : Option (Serviced σ κ) := ops.foldlM (step source codec address data) s

/-- A new controller. -/
def start (pcmSink : PcmSink) (pcmSource : Option σ) (microphone : Bool) (codec : κ) (mem : GuestMemory) :
    Serviced σ κ := ⟨⟨.new pcmSink pcmSource microphone codec, mem⟩, []⟩

end Serviced

/-! ## What rises -/

/-- The sources that the latch tells apart, as they request an interrupt. -/
def latchedSources (microphone : Bool) : List (HdaController σ κ → Bool) :=
  if microphone then
    [intctlCaptureStream, intctlPlaybackStream, intstsCis].map fun bit c => c.requested &&& bit != 0
  else [fun c => c.requested != 0]

/-- A source that rises sends a message at the drain. -/
def RiseSent (sources : List (HdaController σ κ → Bool)) (d : Drained σ κ) (earlier : List (Drained σ κ)) :
    Prop :=
  ∀ source ∈ sources, source d.ctrl = true → (earlier.head?.any fun e => source e.ctrl) = false → d.sent ≠ []

instance (sources : List (HdaController σ κ → Bool)) (d : Drained σ κ) (earlier : List (Drained σ κ)) :
    Decidable (RiseSent sources d earlier) := List.decidableBAll _ _

/-! ## The latch -/

/-- Only a controller reset touches the latch, and it clears it. -/
structure KeepsLatch (c c' : HdaController σ κ) : Prop where
  microphone : c'.microphone = c.microphone
  latch : (c'.interruptAsserted = c.interruptAsserted ∧ c'.interruptPending = c.interruptPending) ∨
    (c'.interruptAsserted = 0 ∧ c'.interruptPending = false)

theorem KeepsLatch.refl (c : HdaController σ κ) : KeepsLatch c c := ⟨rfl, .inl ⟨rfl, rfl⟩⟩

theorem KeepsLatch.trans {c₁ c₂ c₃ : HdaController σ κ} (h₁ : KeepsLatch c₁ c₂)
    (h₂ : KeepsLatch c₂ c₃) :
    KeepsLatch c₁ c₃ := by
  refine ⟨h₂.microphone.trans h₁.microphone, ?_⟩
  rcases h₂.latch with ⟨hasserted, hpending⟩ | hcleared
  · rw [hasserted, hpending]
    exact h₁.latch
  · exact Or.inr hcleared

theorem KeepsLatch.of_eq {c c' : HdaController σ κ} (hmicrophone : c'.microphone = c.microphone)
    (hasserted : c'.interruptAsserted = c.interruptAsserted) (hpending : c'.interruptPending = c.interruptPending) :
    KeepsLatch c c' := ⟨hmicrophone, .inl ⟨hasserted, hpending⟩⟩

theorem KeepsLatch.ite {p : Prop} [Decidable p] {c a b : HdaController σ κ} (ha : KeepsLatch c a)
    (hb : KeepsLatch c b) : KeepsLatch c (if p then a else b) := by
  split
  · exact ha
  · exact hb

theorem writeGctl_keepsLatch (source : PcmSource σ) (codec : κ) (c : HdaController σ κ) (next : UInt32) :
    KeepsLatch c (c.writeGctl source codec next) := by
  unfold HdaController.writeGctl
  split
  · exact ⟨rfl, .inr ⟨rfl, rfl⟩⟩
  · dsimp only
    split <;> exact .of_eq rfl rfl rfl

theorem writeStreamCtl_keepsLatch (c : HdaController σ κ) (next : UInt32) : KeepsLatch c (c.writeStreamCtl next) := by
  unfold HdaController.writeStreamCtl
  split <;> exact .of_eq rfl rfl rfl

theorem streamRegisters_keepLatch {base : Nat} {get : HdaController σ κ → StreamDescriptor}
    {set : HdaController σ κ → StreamDescriptor → HdaController σ κ}
    {control : HdaController σ κ → UInt32 → HdaController σ κ} (hset : ∀ c s, KeepsLatch c (set c s))
    (hcontrol : ∀ c next, KeepsLatch c (control c next)) :
    ∀ r ∈ streamRegisters base get set control, ∀ c next, KeepsLatch c (r.write c next) := by
  intro r hr c next
  simp only [streamRegisters, List.mem_cons, List.not_mem_nil, or_false] at hr
  rcases hr with rfl | rfl | rfl | rfl | rfl | rfl | rfl
  · exact hcontrol _ _
  · exact hset _ _
  all_goals exact .ite (hset _ _) (.refl c)

theorem controllerRegisters_keepLatch [HdaCodec κ] (source : PcmSource σ) (codec : κ) :
    ∀ r ∈ controllerRegisters source codec, ∀ c next, KeepsLatch c (r.write c next) := by
  intro r hr c next
  simp only [controllerRegisters, List.mem_cons, List.not_mem_nil, or_false] at hr
  rcases hr with rfl | rfl | rfl | rfl | rfl | rfl | rfl | rfl | rfl | rfl | rfl | rfl | rfl | rfl | rfl | rfl | rfl |
    rfl | rfl | rfl | rfl | rfl
  · exact writeGctl_keepsLatch source codec c next.toUInt32
  all_goals dsimp only
  all_goals first
    | exact .of_eq rfl rfl rfl
    | (split <;> exact .of_eq rfl rfl rfl)
    | (split <;> split <;> exact .of_eq rfl rfl rfl)

theorem hdaRegisters_keepLatch [HdaCodec κ] (source : PcmSource σ) (codec : κ) :
    ∀ r ∈ hdaRegisters source codec, ∀ c next, KeepsLatch c (r.write c next) := by
  intro r hr
  have hcapture : ∀ (c : HdaController σ κ) (s : StreamDescriptor), KeepsLatch c { c with capture := s } :=
    fun _ _ => .of_eq rfl rfl rfl
  have hstream : ∀ (c : HdaController σ κ) (s : StreamDescriptor), KeepsLatch c { c with stream := s } :=
    fun _ _ => .of_eq rfl rfl rfl
  have hcontrol : ∀ (c : HdaController σ κ) (next : UInt32), KeepsLatch c (c.writeCaptureCtl source next) :=
    fun _ _ => .of_eq rfl rfl rfl
  rcases List.mem_append.mp hr with hr | hr
  · rcases List.mem_append.mp hr with hr | hr
    · exact controllerRegisters_keepLatch source codec r hr
    · exact streamRegisters_keepLatch hcapture hcontrol r hr
  · exact streamRegisters_keepLatch hstream writeStreamCtl_keepsLatch r hr

theorem apply_keepsLatch {r : HdaRegister σ κ} (hr : ∀ c next, KeepsLatch c (r.write c next))
    (written : Nat → Option UInt8) (c : HdaController σ κ) : KeepsLatch c (r.apply written c) := by
  unfold HdaRegister.apply
  split
  · exact .refl c
  · exact hr _ _

theorem foldl_keepsLatch {rs : List (HdaRegister σ κ)} (hrs : ∀ r ∈ rs, ∀ c next, KeepsLatch c (r.write c next))
    (written : Nat → Option UInt8) (c : HdaController σ κ) :
    KeepsLatch c (rs.foldl (HdaRegister.apply written) c) := by
  induction rs generalizing c with
  | nil => exact .refl c
  | cons r rs ih =>
    obtain ⟨hr, hrs⟩ := List.forall_mem_cons.mp hrs
    exact (apply_keepsLatch hr written c).trans (ih hrs _)

theorem pushRirb_keepsLatch {h h' : HdaSystem σ κ} {response : UInt32} {codec : UInt8} {pushed : Bool}
    (hpush : h.pushRirb response codec = (h', pushed)) : KeepsLatch h.ctrl h'.ctrl := by
  unfold HdaSystem.pushRirb at hpush
  dsimp only at hpush
  split at hpush
  · obtain ⟨rfl, rfl⟩ := Prod.mk.inj hpush
    exact .of_eq rfl rfl rfl
  · split at hpush
    · obtain ⟨rfl, rfl⟩ := Prod.mk.inj hpush
      exact .of_eq rfl rfl rfl
    · obtain ⟨rfl, rfl⟩ := Prod.mk.inj hpush
      exact .ite (.of_eq rfl rfl rfl) (.of_eq rfl rfl rfl)

theorem pollCapture_keepsLatch {source : PcmSource σ} {h h' : HdaSystem σ κ} {budget : Option Nat}
    (hpoll : h.pollCapture source budget = some h') : KeepsLatch h.ctrl h'.ctrl := by
  unfold HdaSystem.pollCapture at hpoll
  dsimp only at hpoll
  split at hpoll
  · obtain rfl := Option.some.inj hpoll
    exact .refl _
  · split at hpoll
    · obtain rfl := Option.some.inj hpoll
      exact .refl _
    · split at hpoll
      · obtain rfl := Option.some.inj hpoll
        exact .of_eq rfl rfl rfl
      · obtain ⟨p, -, rfl⟩ := Option.map_eq_some_iff.mp hpoll
        exact .of_eq rfl rfl rfl

theorem pollPlayback_keepsLatch {h h' : HdaSystem σ κ}
    {budget : Option Nat} (hpoll : h.pollPlayback budget = some h') :
    KeepsLatch h.ctrl h'.ctrl := by
  unfold HdaSystem.pollPlayback at hpoll
  dsimp only at hpoll
  split at hpoll
  · obtain rfl := Option.some.inj hpoll
    exact .refl _
  · split at hpoll
    · obtain rfl := Option.some.inj hpoll
      exact .refl _
    · split at hpoll
      · obtain rfl := Option.some.inj hpoll
        exact .of_eq rfl rfl rfl
      · obtain ⟨p, -, rfl⟩ := Option.map_eq_some_iff.mp hpoll
        exact .of_eq rfl rfl rfl

section Commands

variable [HdaCodec κ]

theorem corbLoop_keepsLatch (guard : Nat) (h : HdaSystem σ κ) : KeepsLatch h.ctrl (h.corbLoop guard).1.ctrl := by
  induction guard generalizing h with
  | zero => exact .refl _
  | succ guard ih =>
    unfold HdaSystem.corbLoop
    dsimp only
    split
    · exact .refl _
    · split
      · exact .of_eq rfl rfl rfl
      · split
        · rename_i heq
          have hpush := pushRirb_keepsLatch heq
          exact ⟨hpush.microphone, hpush.latch⟩
        · rename_i heq
          have hpush := (pushRirb_keepsLatch heq).trans (ih _)
          exact ⟨hpush.microphone, hpush.latch⟩

theorem processCorb_keepsLatch (h : HdaSystem σ κ) : KeepsLatch h.ctrl h.processCorb.ctrl := by
  have hloop := corbLoop_keepsLatch (h.ctrl.corbPointerMask.toNat + 1) h
  unfold HdaSystem.processCorb
  dsimp only
  split
  · exact .refl _
  · split
    · exact hloop.trans (.of_eq rfl rfl rfl)
    · exact hloop

theorem step_keepsLatch {source : PcmSource σ} {codec : κ} {h h' : HdaSystem σ κ} {op : HdaOp}
    (hstep : h.step source codec op = some h') : KeepsLatch h.ctrl h'.ctrl := by
  cases op with
  | mmioWrite offset size value =>
    obtain rfl := Option.some.inj hstep
    have hwritten := foldl_keepsLatch (hdaRegisters_keepLatch source codec)
      (h.ctrl.writtenBytes offset size value) h.ctrl
    let written : HdaSystem σ κ :=
      { h with ctrl := (hdaRegisters source codec).foldl (HdaRegister.apply
        (h.ctrl.writtenBytes offset size value)) h.ctrl }
    have hring : KeepsLatch written.ctrl written.processCorb.ctrl := processCorb_keepsLatch written
    exact hwritten.trans hring
  | poll capture playback =>
    obtain ⟨between, hcapture, hplayback⟩ := Option.bind_eq_some_iff.mp hstep
    exact (pollCapture_keepsLatch hcapture).trans (pollPlayback_keepsLatch hplayback)
  | memory mem =>
    obtain rfl := Option.some.inj hstep
    exact .refl _

end Commands

/-! ## A drain -/

theorem and_not_ne_zero {a b m : UInt32} (ha : a &&& m ≠ 0) (hb : b &&& m = 0) : a &&& ~~~b ≠ 0 := by
  intro h
  refine ha (UInt32.toBitVec_inj.mp (BitVec.eq_of_getLsbD_eq fun i hi => ?_))
  have hb' := congrArg (fun x : UInt32 => x.toBitVec.getLsbD i) hb
  have h' := congrArg (fun x : UInt32 => x.toBitVec.getLsbD i) h
  simp [hi] at hb' h' ⊢
  intro hai
  exact hb' (h' hai)

section Drains

variable {c c' : HdaController σ κ}

theorem drain_spec (address : UInt64) (data : UInt32) (hpending : c.interruptPending = false) :
    (c.drainPendingMsiInto true address data []).1 =
        { c with interruptAsserted := c.requested, interruptPending := false } ∧
      ((c.drainPendingMsiInto true address data []).2 ≠ [] ↔ c.rising ≠ 0) := by
  unfold HdaController.drainPendingMsiInto
  by_cases hrising : c.rising = 0 <;> simp [hpending, hrising]

/-- The latch holds what is requested, and nothing is pending. -/
structure Latched (c : HdaController σ κ) : Prop where
  asserted : c.interruptAsserted = c.requested
  pending : c.interruptPending = false

/-- A source the latch tells apart is down before a step and up after it: it rises. -/
theorem rising_of_source (hc : Latched c) (hkeeps : KeepsLatch c c') {source : HdaController σ κ → Bool}
    (hsource : source ∈ latchedSources c.microphone) (hdown : source c = false) (hup : source c' = true) :
    c'.rising ≠ 0 := by
  have hasserted : c'.interruptAsserted = c.requested ∨ c'.interruptAsserted = 0 := by
    rcases hkeeps.latch with h | h
    · exact Or.inl (h.1.trans hc.asserted)
    · exact Or.inr h.1
  unfold latchedSources at hsource
  unfold HdaController.rising
  rw [hkeeps.microphone]
  cases hmic : c.microphone with
  | true =>
    rw [hmic, if_pos rfl] at hsource
    obtain ⟨bit, -, rfl⟩ := List.mem_map.mp hsource
    rw [if_pos rfl]
    have hlow : c'.interruptAsserted &&& bit = 0 := by
      rcases hasserted with h | h
      · rw [h]
        simpa using hdown
      · rw [h, UInt32.zero_and]
    exact and_not_ne_zero (by simpa using hup) hlow
  | false =>
    rw [hmic, if_neg (by simp), List.mem_singleton] at hsource
    subst hsource
    have hzero : c'.interruptAsserted = 0 := by
      rcases hasserted with h | h
      · rw [h]
        simpa using hdown
      · exact h
    rw [if_neg (by simp), if_pos hzero]
    simpa using hup

end Drains

/-! ## Runs of drains -/

namespace Serviced

/-- The latch is that of the last drain, and every source that rose sent a message. -/
structure Good (mic : Bool) (s : Serviced σ κ) : Prop where
  microphone : s.hda.ctrl.microphone = mic
  latched : Latched s.hda.ctrl
  last : ∀ d ∈ s.log.head?, d.ctrl = s.hda.ctrl
  first : s.log = [] → s.hda.ctrl.requested = 0
  rises : Traced (RiseSent (latchedSources mic)) s.log

theorem Good.down {microphone : Bool} {s : Serviced σ κ} (hs : s.Good microphone)
    {source : HdaController σ κ → Bool}
    (hsource : source ∈ latchedSources microphone) (h : (s.log.head?.any fun d => source d.ctrl) = false) :
    source s.hda.ctrl = false := by
  cases hlog : s.log with
  | nil =>
    have hzero := hs.first hlog
    cases microphone with
    | true =>
      obtain ⟨bit, -, rfl⟩ := List.mem_map.mp hsource
      simp [hzero]
    | false =>
      obtain rfl := List.mem_singleton.mp hsource
      simp [hzero]
  | cons d earlier =>
    have hd := hs.last d (by simp [hlog])
    rw [hlog] at h
    rw [← hd]
    simpa using h

variable {microphone : Bool} {address : UInt64} {data : UInt32}

theorem start_good (pcmSink : PcmSink) (pcmSource : Option σ) (microphone : Bool) (codec : κ) (mem : GuestMemory) :
    (start pcmSink pcmSource microphone codec mem).Good microphone where
  microphone := rfl
  latched := ⟨by simp [start, HdaController.new, HdaController.requested], rfl⟩
  last := by simp [start]
  first := by simp [start, HdaController.new, HdaController.requested]
  rises := trivial

theorem drain_good {s : Serviced σ κ} {h : HdaSystem σ κ} (hs : s.Good microphone)
    (hkeeps : KeepsLatch s.hda.ctrl h.ctrl) :
    (s.drain address data h).Good microphone := by
  have hpending : h.ctrl.interruptPending = false := by
    rcases hkeeps.latch with hsame | hcleared
    · exact hsame.2.trans hs.latched.pending
    · exact hcleared.2
  obtain ⟨hctrl, hsent⟩ := drain_spec address data hpending
  refine ⟨?_, ?_, ?_, ?_, ?_, hs.rises⟩
  · show (h.ctrl.drainPendingMsiInto true address data []).1.microphone = microphone
    rw [hctrl]
    exact hkeeps.microphone.trans hs.microphone
  · show Latched (h.ctrl.drainPendingMsiInto true address data []).1
    rw [hctrl]
    exact ⟨rfl, rfl⟩
  · intro d hd
    obtain rfl := Option.some.inj hd
    rfl
  · intro hnil
    cases hnil
  · intro source hsource hup hbefore
    refine hsent.mpr ?_
    have hsource' : source ∈ latchedSources s.hda.ctrl.microphone := by rw [hs.microphone]; exact hsource
    refine rising_of_source hs.latched hkeeps hsource' (hs.down hsource hbefore) ?_
    have hsame : source { h.ctrl with interruptAsserted := h.ctrl.requested, interruptPending := false } =
        source h.ctrl := by
      cases microphone with
      | true =>
        obtain ⟨bit, -, rfl⟩ := List.mem_map.mp hsource
        rfl
      | false =>
        obtain rfl := List.mem_singleton.mp hsource
        rfl
    rw [← hsame, ← hctrl]
    exact hup

variable [HdaCodec κ] {source : PcmSource σ} {codec : κ}

theorem run_good {ops : List HdaOp} {s s' : Serviced σ κ} (hs : s.Good microphone)
    (hrun : s.run source codec address data ops = some s') : s'.Good microphone := by
  induction ops generalizing s with
  | nil =>
    obtain rfl := Option.some.inj hrun
    exact hs
  | cons op ops ih =>
    obtain ⟨between, hstep, hrest⟩ := Option.bind_eq_some_iff.mp hrun
    obtain ⟨h, hop, rfl⟩ := Option.map_eq_some_iff.mp hstep
    exact ih (drain_good hs (step_keepsLatch hop)) hrest

/-- **No rise is lost**: at every drain of a run, each source the latch tells apart that is up and was down at the drain
before sends a message; so a source that is up has sent one at the drain at which it rose. -/
theorem rises_sent (pcmSink : PcmSink) (pcmSource : Option σ) (microphone : Bool) (mem : GuestMemory)
    (source : PcmSource σ) (codec : κ) (address : UInt64) (data : UInt32) (ops : List HdaOp) :
    ∀ s ∈ (start pcmSink pcmSource microphone codec mem).run source codec address data ops,
      Traced (RiseSent (latchedSources microphone)) s.log ∧
        ∀ level ∈ latchedSources microphone, (s.log.head?.any fun d => level d.ctrl) = true →
          ∃ later d earlier, s.log = later ++ d :: earlier ∧ (∀ e ∈ later, level e.ctrl = true) ∧
            level d.ctrl = true ∧ (earlier.head?.any fun e => level e.ctrl) = false ∧ d.sent ≠ [] := by
  intro s hs
  have hgood := run_good (start_good pcmSink pcmSource microphone codec mem) hs
  refine ⟨hgood.rises, fun level hlevel hup => ?_⟩
  obtain ⟨later, d, earlier, hlog, hlater, hrise, hdown⟩ := exists_rise hup
  have htraced := hgood.rises
  rw [hlog] at htraced
  exact ⟨later, d, earlier, hlog, hlater, hrise, hdown, htraced.at level hlevel hrise hdown⟩

end Serviced

/-! ## Sources of one level -/

/-- A source that its level in INTCTL and GIE let through. -/
def letThrough (level : UInt32) (up : HdaController σ κ → Bool) (c : HdaController σ κ) : Bool :=
  up c && c.intctl &&& level != 0 && c.intctl &&& intctlGie != 0

/-- The sources of a stream's interrupt, each with its enable bit. -/
def streamSources (stream : HdaController σ κ → StreamDescriptor) : List (HdaController σ κ → Bool) :=
  [fun c => (stream c).sts &&& sdstsBcis != 0 && (stream c).ctl &&& sdctlIoce != 0,
    fun c => (stream c).sts &&& sdstsFifoe != 0 && (stream c).ctl &&& sdctlFeie != 0,
    fun c => (stream c).sts &&& sdstsDese != 0 && (stream c).ctl &&& sdctlDeie != 0]

/-- The sources of the interrupt. -/
def interruptSourceList : List (HdaController σ κ → Bool) :=
  (streamSources HdaController.capture).map (letThrough intctlCaptureStream) ++
    (streamSources HdaController.stream).map (letThrough intctlPlaybackStream) ++
    ([fun c => c.rirbSts &&& rirbstsRintfl != 0 && c.rirbCtl &&& rirbctlRintctl != 0,
      fun c => c.rirbSts &&& rirbstsOis != 0 && c.rirbCtl &&& rirbctlOic != 0,
      fun c => c.corbSts &&& corbstsCmei != 0 && c.corbCtl &&& corbctlCmeie != 0] :
      List (HdaController σ κ → Bool)).map (letThrough intctlCie)

/-- A codec without state that answers zero, and a source of silence. -/
instance : HdaCodec Unit := ⟨fun codec _ => (0, codec)⟩

def silence : PcmSource Unit := ⟨fun _ _ s => ([], s), id, id⟩

/-- RAM that ends at `0x2000` and cannot be written. -/
def readOnlyRam : GuestMemory := ⟨fun _ => 0, fun gpa len => decide (gpa + len ≤ 0x2000), fun _ _ => false⟩

/-- The controller runs its rings with all interrupts enabled; the response to the first verb cannot be written, and the
second verb lies beyond the RAM. -/
def overrunThenMemoryError : List HdaOp :=
  [.mmioWrite 0x08 4 1, .mmioWrite 0x20 4 0xc0000000, .mmioWrite 0x5c 1 6, .mmioWrite 0x4c 1 3, .mmioWrite 0x48 2 1,
    .mmioWrite 0x40 4 0x4000, .mmioWrite 0x48 2 2]

/-- The overrun was up at the last drain, so a drain before has sent its message. -/
theorem rises_sent_overrun : ∃ s, (Serviced.start none none true () readOnlyRam).run silence () 0xfee00000 0x41
    overrunThenMemoryError = some s ∧ ∃ d ∈ s.log, d.sent ≠ [] := by
  obtain ⟨s, hs, hup⟩ : ∃ s, (Serviced.start none none true () readOnlyRam).run silence () 0xfee00000 0x41
      overrunThenMemoryError = some s ∧ (s.log.head?.any fun d => d.ctrl.requested &&& intstsCis != 0) = true :=
    ⟨_, rfl, by decide +kernel⟩
  obtain ⟨later, d, earlier, hlog, -, -, -, hsent⟩ :=
    (Serviced.rises_sent none none true readOnlyRam silence () 0xfee00000 0x41 overrunThenMemoryError s hs).2
      _ (List.mem_map_of_mem (by simp)) hup
  exact ⟨s, hs, d, by simp [hlog], hsent⟩

/-- RIRB keeps CIS up, so that the rise of CORB sends nothing, with a microphone and without. -/
theorem rirb_hides_corb : ¬ ∃ microphone : Bool, ∀ (mem : GuestMemory) (address : UInt64) (data : UInt32)
    (ops : List HdaOp), ∀ s ∈ (Serviced.start none none microphone () mem).run silence () address data ops,
      Traced (RiseSent interruptSourceList) s.log := by
  rintro ⟨microphone, h⟩
  have hrun : ∃ s, (Serviced.start none none microphone () readOnlyRam).run silence () 0xfee00000 0x41
      overrunThenMemoryError = some s ∧ ¬Traced (RiseSent interruptSourceList) s.log := by
    refine ⟨_, rfl, ?_⟩
    cases microphone <;> decide +kernel
  obtain ⟨s, hs, hlost⟩ := hrun
  exact hlost (h readOnlyRam 0xfee00000 0x41 overrunThenMemoryError s hs)

end BridgeVm.Hda
