import Mathlib.Tactic.Ring
import BridgeVm.Hda.StreamRuns
import BridgeVm.Lib.Transition

/-!
# Pacing of the streams (`hda/hdapcmsink.rs`, `hda/capture_dma.rs`, `hda/stream_control.rs`)

A poll turns the host time since the last one into bytes, then into whole frames, and carries what is left of both
roundings into the next poll. The two roundings are one division with carry by the time of a frame, so a run hands the
DMA loop the frames that its whole time covers, however it was cut.
-/

namespace BridgeVm.Hda

open Lib

universe u

/-! ## A poll -/

/-- `stream_frame_bytes`. -/
def streamFrameBytes (fmt : UInt16) : Option Nat :=
  if (fmt >>> 4) &&& 7 = 1 then some (2 * ((fmt &&& 15).toNat + 1)) else none

/-- `stream_bytes_per_second`. -/
def streamBytesPerSecond (fmt : UInt16) : Option Nat :=
  (streamSampleRate fmt).bind fun rate => (streamFrameBytes fmt).map fun frame => rate * frame

/-- `MAX_POLL_ELAPSED`, in nanoseconds. -/
def maxPollElapsed : Nat := 100000000

def nanosPerSecond : Nat := 1000000000

/-- A value of a 128-bit computation; `none` is an overflow. -/
def u128 (n : Nat) : Option Nat := if n < 2 ^ 128 then some n else none

/-- The budget of a poll and the remainder after it. -/
def pace (bytesPerSecond frameBytes remainder elapsed : Nat) : Option (Nat × Nat) :=
  (u128 (elapsed * bytesPerSecond)).bind fun time =>
    (u128 (time + remainder)).bind fun numerator =>
      let wholeBytes := numerator / nanosPerSecond
      let budget := wholeBytes % 2 ^ 64 / frameBytes * frameBytes
      if wholeBytes < budget then none
      else
        (u128 ((wholeBytes - budget) * nanosPerSecond)).bind fun rest =>
          (u128 (numerator % nanosPerSecond + rest)).map fun next => (budget, next % 2 ^ 64)

/-- A stream and what paces it. -/
structure Paced (ε : Type u) where
  /-- `GCTL_CRST`. -/
  crst : Bool
  dma : Dma ε
  byteTimeRemainder : Nat
  /-- The elapsed time and the budget of each poll, newest first; read by no function. -/
  polls : List (Nat × Nat)

namespace Paced

variable {ε : Type u}

/-- `poll_for_duration` and `poll_capture_for_duration`. -/
def pollForDuration (d : Direction ε) (p : Paced ε) (elapsed : Nat) : Option (Paced ε) :=
  if ¬p.dma.running ∨ ¬p.crst then some p
  else
    match streamBytesPerSecond p.dma.stream.fmt with
    | none => some { p with dma :=
      { p.dma with stream := { p.dma.stream with sts := p.dma.stream.sts ||| sdstsDese } } }
    | some bytesPerSecond =>
      (pace bytesPerSecond ((streamFrameBytes p.dma.stream.fmt).getD 1) p.byteTimeRemainder elapsed).bind
        fun (budget, byteTimeRemainder) =>
          (p.dma.dma d budget).map fun r =>
            { p with dma := r.1, byteTimeRemainder, polls := (elapsed, budget) :: p.polls }

/-- The remainder after a write of CTL: playback drops it with SRST and when RUN rises, capture whenever RUN changes. -/
def controlRemainder (isCapture : Bool) (p : Paced ε) (next : UInt32) : Nat :=
  let srst := next &&& sdctlSrst != 0
  let running := !srst && next &&& sdctlRun != 0
  let drops := if isCapture then running != p.dma.running else srst || (running && !p.dma.running)
  if drops then 0 else p.byteTimeRemainder

/-- `write_stream_ctl`, `write_capture_ctl`. -/
def writeCtl (d : Direction ε) (isCapture : Bool) (p : Paced ε) (next : UInt32) : Paced ε :=
  { p with
    dma := if next &&& sdctlSrst != 0 then p.dma.streamReset d else p.dma.writeCtl d next
    byteTimeRemainder := p.controlRemainder isCapture next }

/-- A poll with the time since the last one, or what the guest does between polls. -/
inductive Op
  | poll (elapsed : Nat)
  | memory (mem : GuestMemory)
  | control (next : UInt32)
  | acknowledge (bits : UInt8)
  | positionBase (base : UInt64)

def step (d : Direction ε) (isCapture : Bool) (p : Paced ε) : Op → Option (Paced ε)
  | .poll elapsed => p.pollForDuration d elapsed
  | .memory mem => some { p with dma := { p.dma with mem } }
  | .control next => some (p.writeCtl d isCapture next)
  | .acknowledge bits =>
    some { p with dma := { p.dma with stream := { p.dma.stream with sts := p.dma.stream.sts &&& ~~~bits } } }
  | .positionBase dpBase => some { p with dma := { p.dma with dpBase } }

/-- Polls find the stream running, none later than the limit, and the guest leaves RUN set. -/
def KeepsRunning (p : Paced ε) : Op → Prop
  | .poll elapsed => p.dma.running = true ∧ elapsed ≤ maxPollElapsed
  | .control next => p.dma.running = true ∧ next &&& sdctlRun ≠ 0 ∧ next &&& sdctlSrst = 0
  | _ => True

instance (p : Paced ε) (op : Op) : Decidable (p.KeepsRunning op) := by
  unfold KeepsRunning
  split <;> infer_instance

/-- The time of the polls, and the bytes that the DMA loop was handed. -/
def elapsed (p : Paced ε) : Nat := (p.polls.map Prod.fst).sum

def handed (p : Paced ε) : Nat := (p.polls.map Prod.snd).sum

end Paced

/-! ## One division with carry -/

theorem two_roundings (n a b : Nat) : n % a + (n / a - n / a / b * b) * a = n % (a * b) := by
  have hrest : n / a - n / a / b * b = n / a % b := by
    have hsplit := Nat.div_add_mod' (n / a) b
    omega
  rw [hrest, Nat.mod_mul, Nat.mul_comm a]

section Formats

variable {fmt : UInt16} {bytesPerSecond frameBytes remainder elapsed : Nat}

theorem streamSampleRate_le {rate : Nat} (h : streamSampleRate fmt = some rate) : rate ≤ 384000 := by
  unfold streamSampleRate at h
  split at h
  · cases h
  have hmultiplier : ((fmt >>> 11) &&& 7).toNat ≤ 7 := by
    rw [UInt16.toNat_and]
    exact Nat.and_le_right
  have hbase : (if fmt &&& 0x4000 != 0 then 44100 else 48000) ≤ 48000 := by
    split <;> omega
  obtain rfl := Option.some.inj h
  have hproduct := Nat.mul_le_mul hbase (Nat.succ_le_succ hmultiplier)
  exact (Nat.div_le_self _ _).trans hproduct

theorem streamFrameBytes_bounds (h : streamFrameBytes fmt = some frameBytes) : 0 < frameBytes ∧
    frameBytes ≤ 32 := by
  unfold streamFrameBytes at h
  split at h
  · obtain rfl := Option.some.inj h
    have hchannels : (fmt &&& 15).toNat ≤ 15 := by
      rw [UInt16.toNat_and]
      exact Nat.and_le_right
    omega
  · cases h

theorem streamBytesPerSecond_bounds (h : streamBytesPerSecond fmt = some bytesPerSecond) :
    ∃ frameBytes, streamFrameBytes fmt = some frameBytes ∧ 0 < frameBytes ∧ frameBytes ≤ 32 ∧
      bytesPerSecond ≤ 12288000 := by
  unfold streamBytesPerSecond at h
  obtain ⟨rate, hrate, h⟩ := Option.bind_eq_some_iff.mp h
  obtain ⟨frameBytes, hframe, rfl⟩ := Option.map_eq_some_iff.mp h
  obtain ⟨hpos, hle⟩ := streamFrameBytes_bounds hframe
  refine ⟨frameBytes, hframe, hpos, hle, ?_⟩
  exact Nat.mul_le_mul (streamSampleRate_le hrate) hle

/-- A poll divides by the time of a frame, and nothing overflows. -/
theorem pace_eq (hpos : 0 < frameBytes) (hframe : frameBytes ≤ 32) (hrate : bytesPerSecond ≤ 12288000)
    (helapsed : elapsed ≤ maxPollElapsed) (hremainder : remainder < nanosPerSecond * frameBytes) :
    pace bytesPerSecond frameBytes remainder elapsed =
      some ((elapsed * bytesPerSecond + remainder) / (nanosPerSecond * frameBytes) * frameBytes,
        (elapsed * bytesPerSecond + remainder) % (nanosPerSecond * frameBytes)) := by
  have hnanos : nanosPerSecond = 1000000000 := rfl
  have hunit : nanosPerSecond * frameBytes ≤ 1000000000 * 32 := Nat.mul_le_mul_left _ hframe
  have hproduct : elapsed * bytesPerSecond ≤ 100000000 * 12288000 := Nat.mul_le_mul helapsed hrate
  have hnumerator : elapsed * bytesPerSecond + remainder < 2000000000000000 := by omega
  unfold pace u128
  generalize elapsed * bytesPerSecond = time at hproduct hnumerator ⊢
  have hwhole : (time + remainder) / nanosPerSecond ≤ time + remainder := Nat.div_le_self _ _
  have hmod : (time + remainder) / nanosPerSecond % 2 ^ 64 = (time + remainder) / nanosPerSecond :=
    Nat.mod_eq_of_lt (by omega)
  have hbudget : (time + remainder) / nanosPerSecond / frameBytes * frameBytes ≤
    (time + remainder) / nanosPerSecond :=
    Nat.div_mul_le_self _ _
  have hcarry := two_roundings (time + remainder) nanosPerSecond frameBytes
  have hlt : (time + remainder) % (nanosPerSecond * frameBytes) < nanosPerSecond * frameBytes :=
    Nat.mod_lt _ (Nat.mul_pos (by omega) hpos)
  have hrest : ((time + remainder) / nanosPerSecond - (time + remainder) / nanosPerSecond / frameBytes * frameBytes) *
      nanosPerSecond < 2 ^ 64 := by omega
  rw [if_pos (by omega), Option.bind_some, if_pos (by omega), Option.bind_some]
  dsimp only
  rw [hmod, if_neg (by omega), if_pos (by omega), Option.bind_some, if_pos (by omega), Option.map_some, hcarry,
    Nat.mod_eq_of_lt (show _ < 2 ^ 64 by omega), Nat.div_div_eq_div_mul]

end Formats

/-! ## Runs -/

namespace Paced

variable {ε : Type u} {d : Direction ε} {isCapture : Bool} {bytesPerSecond frameBytes : Nat} {start p p' : Paced ε}

/-- The accounts of a run: the bytes handed out and the remainder are the time of the polls, in whole frames; a stream
that can run and still runs has moved what it was handed. -/
structure Accounted (bytesPerSecond frameBytes : Nat) (start p : Paced ε) : Prop where
  account : p.handed * nanosPerSecond + p.byteTimeRemainder = p.elapsed * bytesPerSecond
  frames : ∀ x ∈ p.polls, frameBytes ∣ x.2
  carried : p.byteTimeRemainder < nanosPerSecond * frameBytes
  moved : p.dma.running = true → p.dma.ready →
    (delivered p.dma.log).length = (delivered start.dma.log).length + p.handed

/-- The accounts, with the format that the stream keeps. -/
structure Keeping (bytesPerSecond frameBytes : Nat) (start p : Paced ε) : Prop extends
    Accounted bytesPerSecond frameBytes start p where
  crst : p.crst = true
  rate : streamBytesPerSecond p.dma.stream.fmt = some bytesPerSecond
  frame : streamFrameBytes p.dma.stream.fmt = some frameBytes

theorem Keeping.guest (h : Keeping bytesPerSecond frameBytes start p) {dma : Dma ε}
    (hrunning : dma.running = true → p.dma.running = true) (hlog : dma.log = p.dma.log)
    (hcbl : dma.stream.cbl = p.dma.stream.cbl) (hbdl : dma.stream.bdl = p.dma.stream.bdl)
    (hfmt : dma.stream.fmt = p.dma.stream.fmt) : Keeping bytesPerSecond frameBytes start { p with dma } := by
  refine ⟨⟨h.account, h.frames, h.carried, ?_⟩, h.crst, ?_, ?_⟩
  · intro hruns hready
    have hwas : p.dma.ready := by
      unfold Dma.ready at hready ⊢
      dsimp only at hready
      rw [← hcbl, ← hbdl, ← hfmt]
      exact hready
    show (delivered dma.log).length = _
    rw [hlog]
    exact h.moved (hrunning hruns) hwas
  · show streamBytesPerSecond dma.stream.fmt = _
    rw [hfmt]
    exact h.rate
  · show streamFrameBytes dma.stream.fmt = _
    rw [hfmt]
    exact h.frame

theorem dma_moved (hd : d.Exact) (s : Dma ε) (budget : Nat) : ∃ r, s.dma d budget = some r ∧ s.Programmed r.1 ∧
    (r.1.running = true → r.1.ready → s.running = true →
      (delivered r.1.log).length = (delivered s.log).length + budget) := by
  by_cases hready : s.ready
  · obtain ⟨r, new, hr, hcall, hend⟩ := Dma.dma_call hd hready budget
    refine ⟨r, hr, hcall.programmed, fun hruns _ _ => ?_⟩
    have hleft : r.2 = 0 := hend.resolve_right (by rw [hruns]; decide)
    have hmoved := hcall.moved
    rw [hcall.log, delivered_append, List.length_append]
    omega
  · obtain ⟨s', hs', -, -, hprogrammed, -⟩ := Dma.dma_not_ready (d := d) hready budget
    refine ⟨(s', budget), hs', hprogrammed, fun _ hready' _ => absurd ?_ hready⟩
    unfold Dma.ready at hready' ⊢
    dsimp only at hready'
    rw [← hprogrammed.cbl, ← hprogrammed.bdl, ← hprogrammed.fmt]
    exact hready'

/-- A poll hands out the frames that its time and the remainder cover. -/
theorem Keeping.poll (hd : d.Exact) (h : Keeping bytesPerSecond frameBytes start p) {elapsed : Nat}
    (hrunning : p.dma.running = true) (helapsed : elapsed ≤ maxPollElapsed) :
    ∃ p', p.pollForDuration d elapsed = some p' ∧ Keeping bytesPerSecond frameBytes start p' := by
  obtain ⟨frame, hframe, hpos, hle, hrate⟩ := streamBytesPerSecond_bounds h.rate
  obtain rfl := Option.some.inj (hframe.symm.trans h.frame)
  have hunit : 0 < nanosPerSecond * frame := Nat.mul_pos (by decide) hpos
  have hpace := pace_eq hpos hle hrate helapsed h.carried
  obtain ⟨r, hr, hprogrammed, hmoved⟩ := dma_moved hd p.dma
    ((elapsed * bytesPerSecond + p.byteTimeRemainder) / (nanosPerSecond * frame) * frame)
  have hgo : ¬(¬p.dma.running = true ∨ ¬p.crst = true) := by
    rintro (hstopped | hreset)
    · exact hstopped hrunning
    · exact hreset h.crst
  have hpoll : p.pollForDuration d elapsed = some
      { p with
        dma := r.1
        byteTimeRemainder := (elapsed * bytesPerSecond + p.byteTimeRemainder) % (nanosPerSecond * frame)
        polls := (elapsed, (elapsed * bytesPerSecond + p.byteTimeRemainder) / (nanosPerSecond * frame) * frame) ::
          p.polls } := by
    unfold pollForDuration
    rw [if_neg hgo, h.rate]
    dsimp only
    rw [hframe, Option.getD_some, hpace, Option.bind_some]
    dsimp only
    rw [hr, Option.map_some]
  refine ⟨_, hpoll, ⟨?_, ?_, Nat.mod_lt _ hunit, ?_⟩, h.crst, ?_, ?_⟩
  · have haccount := h.account
    have hdivision := Nat.div_add_mod (elapsed * bytesPerSecond + p.byteTimeRemainder) (nanosPerSecond * frame)
    unfold handed Paced.elapsed at haccount ⊢
    simp only [List.map_cons, List.sum_cons]
    generalize (elapsed * bytesPerSecond + p.byteTimeRemainder) / (nanosPerSecond * frame) = quotient at hdivision ⊢
    generalize (elapsed * bytesPerSecond + p.byteTimeRemainder) % (nanosPerSecond * frame) = rest at hdivision ⊢
    have hquotient : quotient * frame * nanosPerSecond = nanosPerSecond * frame * quotient := by ring
    rw [Nat.add_mul, Nat.add_mul, hquotient]
    omega
  · intro x hx
    rcases List.mem_cons.mp hx with rfl | hx
    · exact Nat.dvd_mul_left _ _
    · exact h.frames x hx
  · intro hruns hready
    have hwas : p.dma.ready := by
      unfold Dma.ready at hready ⊢
      dsimp only at hready
      rw [← hprogrammed.cbl, ← hprogrammed.bdl, ← hprogrammed.fmt]
      exact hready
    have hbefore := h.moved hrunning hwas
    have hnow := hmoved hruns hready hrunning
    unfold handed at hbefore ⊢
    simp only [List.map_cons, List.sum_cons]
    omega
  · show streamBytesPerSecond r.1.stream.fmt = _
    rw [hprogrammed.fmt]
    exact h.rate
  · show streamFrameBytes r.1.stream.fmt = _
    rw [hprogrammed.fmt]
    exact h.frame

theorem Keeping.step (hd : d.Exact) (isCapture : Bool) (h : Keeping bytesPerSecond frameBytes start p) {op : Op}
    (hok : p.KeepsRunning op) : ∃ p', p.step d isCapture op = some p' ∧
    Keeping bytesPerSecond frameBytes start p' := by
  cases op with
  | poll elapsed => exact h.poll hd hok.1 hok.2
  | memory mem => exact ⟨_, rfl, h.guest id rfl rfl rfl rfl⟩
  | acknowledge bits => exact ⟨_, rfl, h.guest id rfl rfl rfl rfl⟩
  | positionBase dpBase => exact ⟨_, rfl, h.guest id rfl rfl rfl rfl⟩
  | control next =>
    obtain ⟨hrunning, hrun, hsrst⟩ := hok
    have hkept : p.controlRemainder isCapture next = p.byteTimeRemainder := by
      simp [controlRemainder, hsrst, hrun, hrunning]
    have hcontrol : p.writeCtl d isCapture next = { p with dma := p.dma.writeCtl d next } := by
      unfold writeCtl
      rw [hkept]
      simp [hsrst]
    refine ⟨_, rfl, ?_⟩
    rw [hcontrol]
    exact h.guest (fun _ => hrunning) rfl rfl rfl rfl

theorem keeping_start (d : Direction ε) (isCapture : Bool) {next : UInt32} (hcrst : p.crst = true)
    (hstopped : p.dma.running = false) (hrun : next &&& sdctlRun ≠ 0) (hsrst : next &&& sdctlSrst = 0)
    (hrate : streamBytesPerSecond p.dma.stream.fmt = some bytesPerSecond)
    (hframe : streamFrameBytes p.dma.stream.fmt = some frameBytes) :
    Keeping bytesPerSecond frameBytes { p.writeCtl d isCapture next with polls := [] }
      { p.writeCtl d isCapture next with polls := [] } := by
  have hdropped : p.controlRemainder isCapture next = 0 := by
    simp [controlRemainder, hsrst, hrun, hstopped]
  have hcontrol : p.writeCtl d isCapture next = { p with dma := p.dma.writeCtl d next, byteTimeRemainder := 0 } := by
    unfold writeCtl
    rw [hdropped]
    simp [hsrst]
  rw [hcontrol]
  obtain ⟨hpos, _⟩ := streamFrameBytes_bounds hframe
  refine ⟨⟨by simp [handed, elapsed], by simp, Nat.mul_pos (by decide) hpos, fun _ _ => rfl⟩, hcrst,
    hrate, hframe⟩

theorem Keeping.run (hd : d.Exact) (h : Keeping bytesPerSecond frameBytes start start)
    (hreach : Reaches (Paced.step d isCapture) KeepsRunning start p) : Keeping bytesPerSecond frameBytes start p := by
  apply hreach.invariant h
  intro q q' op hq hok hstep
  obtain ⟨next, hnext, hkeeping⟩ := hq.step hd isCapture hok
  obtain rfl := Option.some.inj (hnext.symm.trans hstep)
  exact hkeeping

theorem Accounted.handed_lt {q q' : Paced ε} (h : Accounted bytesPerSecond frameBytes start q)
    (h' : Accounted bytesPerSecond frameBytes start q') (hsame : q.elapsed = q'.elapsed) :
    q.handed < q'.handed + frameBytes := by
  apply Nat.lt_of_mul_lt_mul_right (a := nanosPerSecond)
  have haccount := h.account
  have haccount' := h'.account
  have hcarried := h'.carried
  rw [hsame] at haccount
  rw [Nat.add_mul, Nat.mul_comm frameBytes]
  omega

/-- What pacing is for: from the write that sets RUN on, in every run of a supported format in which the stream runs, no
poll overflows, the accounts hold, and two runs of the same time hand out, and move while the stream can run, the same
bytes up to less than a frame. -/
def PacesExactly (d : Direction ε) (isCapture : Bool) : Prop :=
  ∀ (p : Paced ε) (next : UInt32) (bytesPerSecond frameBytes : Nat), p.crst = true → p.dma.running = false →
    next &&& sdctlRun ≠ 0 → next &&& sdctlSrst = 0 →
    streamBytesPerSecond p.dma.stream.fmt = some bytesPerSecond →
    streamFrameBytes p.dma.stream.fmt = some frameBytes →
    ∀ start, start = { p.writeCtl d isCapture next with polls := [] } →
      (∀ q, Reaches (Paced.step d isCapture) KeepsRunning start q → Accounted bytesPerSecond frameBytes start q ∧
        ∀ op, q.KeepsRunning op → (q.step d isCapture op).isSome = true) ∧
      ∀ q q', Reaches (Paced.step d isCapture) KeepsRunning start q →
      Reaches (Paced.step d isCapture) KeepsRunning start q' →
        q.elapsed = q'.elapsed → q.handed < q'.handed + frameBytes ∧
          (q.dma.running = true → q.dma.ready → q'.dma.running = true → q'.dma.ready →
            (delivered q.dma.log).length < (delivered q'.dma.log).length + frameBytes)

theorem pacesExactly (hd : d.Exact) : PacesExactly d isCapture := by
  rintro p next bytesPerSecond frameBytes hcrst hstopped hrun hsrst hrate hframe start rfl
  have hstart := keeping_start d isCapture hcrst hstopped hrun hsrst hrate hframe
  refine ⟨fun q hq => ?_, fun q q' hq hq' hsame => ?_⟩
  · have hkeeping := hstart.run hd hq
    refine ⟨hkeeping.toAccounted, fun op hok => ?_⟩
    obtain ⟨next, hnext, _⟩ := hkeeping.step hd isCapture hok
    rw [hnext]
    rfl
  · have hkeeping := hstart.run hd hq
    have hkeeping' := hstart.run hd hq'
    have hlt := hkeeping.handed_lt hkeeping'.toAccounted hsame
    refine ⟨hlt, fun hruns hready hruns' hready' => ?_⟩
    have hmoved := hkeeping.moved hruns hready
    have hmoved' := hkeeping'.moved hruns' hready'
    omega

end Paced

/-- **HDA pacing does not depend on how time is cut**, for playback and for capture. -/
theorem stream_pacing :
    (∀ microphone, Paced.PacesExactly (playback microphone) false) ∧
      ∀ (σ : Type) (source : PcmSource σ), Paced.PacesExactly (capture source) true :=
  ⟨fun microphone => Paced.pacesExactly (playback_exact microphone),
    fun _ source => Paced.pacesExactly (capture_exact source)⟩

/-- A stopped playback stream of 48 kHz stereo, whose list is one entry of 64 bytes. -/
def stoppedPlayback : Paced PcmSink where
  crst := true
  dma :=
    { stream := ⟨0, 0, 0, 64, 0, 0x11, 0x1000, 0, 0⟩
      dpBase := 0
      mem := ⟨fun a => if a = 0x1001 then 8 else if a = 0x1008 then 64 else 0, fun _ _ => true, fun _ _ => true⟩
      host := none
      log := [] }
  byteTimeRemainder := 0
  polls := []

/-- Two frames, whether the time comes in one poll or in two. -/
theorem stream_pacing_split :
    ∃ start q q', runs (guarded (Paced.step (playback false) false) Paced.KeepsRunning) start
        [.poll 10000, .poll 31667] = some q ∧
      runs (guarded (Paced.step (playback false) false) Paced.KeepsRunning) start [.poll 41667] = some q' ∧
      q.polls.map Prod.snd = [8, 0] ∧ q'.polls.map Prod.snd = [8] ∧ q.handed < q'.handed + 4 ∧
      Paced.Accounted 192000 4 start q := by
  have hq : runs (guarded (Paced.step (playback false) false) Paced.KeepsRunning)
      { stoppedPlayback.writeCtl (playback false) false 2 with polls := [] } [.poll 10000, .poll 31667] = some _ := rfl
  have hq' : runs (guarded (Paced.step (playback false) false) Paced.KeepsRunning)
      { stoppedPlayback.writeCtl (playback false) false 2 with polls := [] } [.poll 41667] = some _ := rfl
  obtain ⟨haccounts, hsame⟩ :=
    stream_pacing.1 false stoppedPlayback 2 192000 4 rfl (by decide) (by decide) (by decide)
    (by decide) (by decide) _ rfl
  refine ⟨_, _, _, hq, hq', by decide +kernel, by decide +kernel, ?_, (haccounts _ (Reaches.start.of_runs hq)).1⟩
  exact (hsame _ _ (Reaches.start.of_runs hq) (Reaches.start.of_runs hq') (by decide +kernel)).1

end BridgeVm.Hda
