import BridgeVm.NetNat.GuestToHost

/-!
# In-order segments of the guest (`net_nat/macaddr.rs`)

What RFC 9293 asks of a segment that is next in the guest's stream: its bytes and its FIN are acknowledged and passed on
(`TakenWhole`). `handle_tcp` does it for data and for a FIN, but not for a FIN behind data in one segment: it compares
the segment's sequence number with a `guest_next` the data moved (`takenWhole_iff`).
-/

namespace BridgeVm.NetNat

open Lib

/-- A segment of the guest's stream that `handle_tcp` takes: data or a FIN, next in order, with room in the backlog. -/
structure TcpFlow.InOrder (f : TcpFlow) (tcp : TcpSegment) : Prop where
  opened : f.state ≠ .opening
  noReset : hasFlag tcp.flags tcpFlagRst = false
  occupies : tcp.payload ≠ [] ∨ hasFlag tcp.flags tcpFlagFin = true
  next : tcp.seq = f.guestNext
  room : f.writeBuf.length < maxTcpWriteBacklog

/-- The sequence numbers a segment of the stream takes. -/
def TcpSegment.seqLen (tcp : TcpSegment) : Nat := tcp.payload.length + (hasFlag tcp.flags tcpFlagFin).toNat

/-- The bytes and the FIN of a segment were taken once, and their ACK is due. -/
structure TakenWhole (f : TcpFlow) (tcp : TcpSegment) (t : Turn) : Prop where
  kept : t.removed = false
  guestNext : t.flow.guestNext = f.guestNext + UInt32.ofNat tcp.seqLen
  guestFin : t.flow.guestFin = (f.guestFin || hasFlag tcp.flags tcpFlagFin)
  appended : t.flow.stream.outgoing ++ t.flow.writeBuf = f.stream.outgoing ++ f.writeBuf ++ tcp.payload
  pendingAck : t.flow.pendingAck = true

section

variable {f : TcpFlow} {tcp : TcpSegment}

theorem takeAck_receiver (f : TcpFlow) (tcp : TcpSegment) :
    (f.takeAck tcp).guestNext = f.guestNext ∧ (f.takeAck tcp).guestFin = f.guestFin ∧
      (f.takeAck tcp).stream = f.stream ∧ (f.takeAck tcp).writeBuf = f.writeBuf ∧
      (f.takeAck tcp).state = f.state := by
  unfold TcpFlow.takeAck
  split
  · exact ⟨rfl, rfl, rfl, rfl, rfl⟩
  · exact ⟨rfl, rfl, rfl, rfl, rfl⟩

theorem flushHostWrite_pendingAck (writes : List HostTurn) (f : TcpFlow) :
    (f.flushHostWrite writes).pendingAck = f.pendingAck := by
  induction writes generalizing f with
  | nil => rfl
  | cons w writes ih =>
    unfold TcpFlow.flushHostWrite
    split
    · rfl
    · split
      · rfl
      · exact ih _
      · rfl

theorem seq_ne_after_data (tcp : TcpSegment) (h : tcp.payload ≠ []) (seq : UInt32) :
    seq ≠ seq + UInt32.ofNat tcp.payload.length := by
  have hlen := List.length_pos_iff.mpr h
  have hfits := tcp.fits
  intro heq
  have hat : seqAt seq tcp.payload.length = seqAt seq 0 := heq.symm.trans (seqAt_zero seq).symm
  have hzero := (seqAt_inj (by omega) (Nat.zero_le _)).mp hat
  omega

theorem handleTcp_fin (h : f.InOrder tcp) (hnil : tcp.payload = []) (now : Nat) (writes : List HostTurn) :
    f.handleTcp tcp now writes =
      ⟨(({ f with lastActivity := now } : TcpFlow).takeAck tcp).takeFin tcp, [], false⟩ := by
  obtain ⟨hnext, -⟩ := takeAck_receiver { f with lastActivity := now } tcp
  have hseq : ¬ tcp.seq = (({ f with lastActivity := now } : TcpFlow).takeAck tcp).guestNext - 1 := by
    rw [hnext, h.next]
    intro heq
    have hadd := congrArg (· + 1) heq
    rw [UInt32.sub_add_cancel] at hadd
    have hat : seqAt f.guestNext 1 = seqAt f.guestNext 0 := hadd.trans (seqAt_zero _).symm
    have hone := (seqAt_inj (by omega) (Nat.zero_le _)).mp hat
    omega
  unfold TcpFlow.handleTcp
  rw [h.noReset, if_neg Bool.false_ne_true]
  dsimp only
  rw [if_neg h.opened, hnil]
  simp [hseq]

/-- Data in order, and what becomes of the FIN behind it: nothing. -/
theorem handleTcp_data (h : f.InOrder tcp) (hne : tcp.payload ≠ []) (now : Nat) (writes : List HostTurn) :
    f.handleTcp tcp now writes =
      ⟨(({ f with lastActivity := now } : TcpFlow).takeAck tcp).takePayload tcp.payload writes, [], false⟩ := by
  obtain ⟨hnext, -, -, hbuf, -⟩ := takeAck_receiver { f with lastActivity := now } tcp
  have hin : (!tcp.payload.isEmpty) = true ∧
      tcp.seq = (({ f with lastActivity := now } : TcpFlow).takeAck tcp).guestNext := by
    refine ⟨by simpa using hne, ?_⟩
    rw [hnext]
    exact h.next
  have hroom : ¬ maxTcpWriteBacklog ≤ (({ f with lastActivity := now } : TcpFlow).takeAck tcp).writeBuf.length := by
    rw [hbuf]
    exact Nat.not_le.mpr h.room
  unfold TcpFlow.handleTcp
  rw [h.noReset, if_neg Bool.false_ne_true]
  dsimp only
  rw [if_neg h.opened, if_pos hin, if_neg hroom]
  -- the FIN's test meets the `guest_next` that the data moved
  have hmoved : ((({ f with lastActivity := now } : TcpFlow).takeAck tcp).takePayload tcp.payload writes).guestNext =
      tcp.seq + UInt32.ofNat tcp.payload.length := by
    rw [TcpFlow.takePayload, (flushHostWrite_uploads writes _).guestNext, hin.2]
  rw [TcpFlow.takeFin, if_neg]
  rintro ⟨-, hseq⟩
  exact seq_ne_after_data tcp hne tcp.seq (hseq.trans hmoved)

theorem takePayload_receiver (f : TcpFlow) (payload : List UInt8) (writes : List HostTurn) :
    (f.takePayload payload writes).guestNext = f.guestNext + UInt32.ofNat payload.length ∧
      (f.takePayload payload writes).guestFin = f.guestFin ∧
      (f.takePayload payload writes).stream.outgoing ++ (f.takePayload payload writes).writeBuf =
        f.stream.outgoing ++ f.writeBuf ++ payload ∧
      (f.takePayload payload writes).pendingAck = true := by
  have hup := flushHostWrite_uploads writes
    { f with
      guestNext := f.guestNext + UInt32.ofNat payload.length
      writeBuf := f.writeBuf ++ payload
      pendingAck := true }
  refine ⟨hup.guestNext, hup.guestFin, ?_, flushHostWrite_pendingAck writes _⟩
  rw [List.append_assoc]
  exact hup.data

/-- **In-order segments are taken whole unless they carry data and a FIN.** -/
theorem takenWhole_iff (h : f.InOrder tcp) (now : Nat) (writes : List HostTurn) :
    TakenWhole f tcp (f.handleTcp tcp now writes) ↔ tcp.payload = [] ∨ hasFlag tcp.flags tcpFlagFin = false := by
  obtain ⟨hnext, hfin, hstream, hbuf, -⟩ := takeAck_receiver { f with lastActivity := now } tcp
  by_cases hnil : tcp.payload = []
  · -- a FIN alone
    have hset : hasFlag tcp.flags tcpFlagFin = true := h.occupies.resolve_left (not_not.mpr hnil)
    have hseq : hasFlag tcp.flags tcpFlagFin = true ∧
        tcp.seq = (({ f with lastActivity := now } : TcpFlow).takeAck tcp).guestNext := by
      refine ⟨hset, ?_⟩
      rw [hnext]
      exact h.next
    refine iff_of_true ?_ (.inl hnil)
    rw [handleTcp_fin h hnil, TcpFlow.takeFin, if_pos hseq]
    refine ⟨rfl, ?_, ?_, ?_, rfl⟩
    · rw [TcpSegment.seqLen, hnil, hset, hnext]
      rfl
    · rw [hset, Bool.or_true]
    · rw [hnil, List.append_nil]
      show (({ f with lastActivity := now } : TcpFlow).takeAck tcp).stream.outgoing ++ _ = _
      rw [hstream, hbuf]
  · rw [handleTcp_data h hnil, or_iff_right hnil]
    obtain ⟨hmoved, hkept, hdata, hack⟩ := takePayload_receiver
      (({ f with lastActivity := now } : TcpFlow).takeAck tcp) tcp.payload writes
    rw [hnext] at hmoved
    rw [hfin] at hkept
    rw [hstream, hbuf] at hdata
    cases hset : hasFlag tcp.flags tcpFlagFin with
    | false =>
      refine iff_of_true ⟨rfl, ?_, ?_, hdata, hack⟩ rfl
      · rw [hmoved, TcpSegment.seqLen, hset]
        rfl
      · rw [hset, Bool.or_false]
        exact hkept
    | true =>
      -- `guest_next` stops before the FIN
      refine iff_of_false (fun hw => ?_) (by simp)
      have hgoal := hmoved.symm.trans hw.guestNext
      rw [TcpSegment.seqLen, hset, Bool.toNat_true] at hgoal
      have hfits := tcp.fits
      have hlen := (seqAt_inj (by omega) (Nat.le_succ _)).mp hgoal.symm
      omega

end

/-! ## A FIN on the last data segment -/

/-- A connection the guest opened and the host accepted. -/
def uploadOpen : TcpFlow :=
  ((TcpFlow.openFromSyn ⟨[], 0, [], false⟩
    ⟨100, 0, tcpFlagSyn, 65535, [], [], TcpSegment.fits_nil⟩ 7 false 0).turn
    (.poll ⟨0, 0, maxTcpUnackedBytes, .connected, [], [], false, (0, 0)⟩)).flow

theorem uploadOpen_reached : Reached uploadOpen :=
  Reached.turn _ (Reached.opens (Opens.syn _ _ _ _ ⟨rfl, rfl, rfl⟩)) (by decide)

/-- One byte at the guest's position, with `flags`. -/
def lastByte (flags : UInt8) : TcpSegment := ⟨101, 8, flags, 65535, [], [42], by decide⟩

theorem takenWhole_iff_byte :
    TakenWhole uploadOpen (lastByte tcpFlagAck) (uploadOpen.handleTcp (lastByte tcpFlagAck) 1 [.moves 1]) :=
  (takenWhole_iff (show uploadOpen.InOrder (lastByte tcpFlagAck) from
    ⟨by decide, by decide, .inl (by decide), by decide, by decide⟩) 1 [.moves 1]).mpr (.inr (by decide))

/-- The guest's last byte with its FIN: the byte reaches the host and the FIN is not taken. -/
theorem fin_behind_data_lost :
    Reached uploadOpen ∧ uploadOpen.InOrder (lastByte (tcpFlagAck ||| tcpFlagFin)) ∧
      (uploadOpen.handleTcp (lastByte (tcpFlagAck ||| tcpFlagFin)) 1 [.moves 1]).flow.stream.outgoing = [42] ∧
      (uploadOpen.handleTcp (lastByte (tcpFlagAck ||| tcpFlagFin)) 1 [.moves 1]).flow.guestNext = 102 ∧
      (uploadOpen.handleTcp (lastByte (tcpFlagAck ||| tcpFlagFin)) 1 [.moves 1]).flow.guestFin = false ∧
      ¬ TakenWhole uploadOpen (lastByte (tcpFlagAck ||| tcpFlagFin))
        (uploadOpen.handleTcp (lastByte (tcpFlagAck ||| tcpFlagFin)) 1 [.moves 1]) :=
  ⟨uploadOpen_reached,
    ⟨by decide, by decide, .inl (by decide), by decide, by decide⟩, by decide, by decide, by decide,
    fun h => absurd h.guestFin (by decide)⟩

end BridgeVm.NetNat
