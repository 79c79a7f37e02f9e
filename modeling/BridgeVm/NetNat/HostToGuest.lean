import BridgeVm.NetNat.PollRules

/-!
# The host's stream reaches the guest

- `SendInv`: the unacknowledged bytes are those of the host's stream from the guest's position to the NAT's, and the
  sequence numbers are these positions;
- every step of a poll keeps it, and queues only segments that carry the stream's bytes at their sequence number
  (`Good`, `sendToGuest_good`);
- guest segments keep it (`onGuestAck_inv`), so every run does (`reached_inv`).
-/

namespace BridgeVm.NetNat

open Lib

/-! ## The invariant of the send state -/

/-- The bytes of the host's stream the guest acknowledged. -/
def ackedBytes (stream : TcpStream) (send : TcpSendState) : Nat := stream.taken - send.unacked.len

/-- The send state of a stream whose first byte has sequence number `base`. -/
structure SendInv (base : UInt32) (stream : TcpStream) (send : TcpSendState) : Prop where
  holds : Holds stream.incoming (ackedBytes stream send) stream.taken send.unacked.bytes
  una_eq : send.una = seqAt base (ackedBytes stream send + send.finAcked.toNat)
  next_eq : send.next = seqAt base (stream.taken + send.finSent.toNat)
  fin_end : send.finSent = true → stream.taken = stream.incoming.length
  fin_acked : send.finAcked = true → send.finSent = true ∧ send.unacked.bytes = []
  flight_le : send.unacked.len < 2 ^ 30
  window_lt : send.window < 2 ^ 30

/-- The FIN's sequence number, while it is in flight. -/
def finInFlight (send : TcpSendState) : Nat := if send.finSent && !send.finAcked then 1 else 0

section SendInv

variable {base : UInt32} {stream : TcpStream} {send : TcpSendState}

theorem finInFlight_le (send : TcpSendState) : finInFlight send ≤ 1 := by
  unfold finInFlight
  split <;> omega

theorem SendInv.taken_eq (h : SendInv base stream send) :
    stream.taken = ackedBytes stream send + send.unacked.len := h.holds.taken_eq

theorem SendInv.next_sub_una (h : SendInv base stream send) :
    send.next - send.una = UInt32.ofNat (send.unacked.len + finInFlight send) := by
  have htaken := h.taken_eq
  rw [h.next_eq, h.una_eq]
  cases hs : send.finSent <;> cases ha : send.finAcked
  · rw [show finInFlight send = 0 by simp [finInFlight, hs], ← seqAt_sub base (ackedBytes stream send)]
    simp [htaken]
  · have := (h.fin_acked ha).1
    rw [hs] at this
    cases this
  · rw [show finInFlight send = 1 by simp [finInFlight, hs, ha], ← seqAt_sub base (ackedBytes stream send)]
    simp [htaken, Nat.add_assoc]
  · obtain ⟨-, hnil⟩ := h.fin_acked ha
    have hlen : send.unacked.len = 0 := by simp [ByteDeque.len, hnil]
    rw [show finInFlight send = 0 by simp [finInFlight, hs, ha], htaken, hlen]
    simp

theorem SendInv.inFlight_eq (h : SendInv base stream send) :
    send.inFlight = send.unacked.len + finInFlight send := by
  have hlen := h.flight_le
  have hfin := finInFlight_le send
  rw [TcpSendState.inFlight, h.next_sub_una, UInt32.toNat_ofNat', Nat.mod_eq_of_lt (by omega)]

theorem SendInv.flight_lt (h : SendInv base stream send) : send.unacked.len + finInFlight send < 2 ^ 32 := by
  have hlen := h.flight_le
  have hfin := finInFlight_le send
  omega

/-! ## ACKs -/

theorem dropAcked_bytes (unacked : ByteDeque) (data : Nat) :
    (TcpSendState.dropAcked unacked data).bytes = unacked.bytes.drop data := by
  unfold TcpSendState.dropAcked
  split
  · rename_i h
    rw [List.isEmpty_iff] at h
    exact h.symm
  · rfl

theorem dropAcked_len (unacked : ByteDeque) (data : Nat) :
    (TcpSendState.dropAcked unacked data).len = unacked.len - data := by
  rw [ByteDeque.len, dropAcked_bytes, List.length_drop, ByteDeque.len]

theorem SendInv.finAcked_eq_false (h : SendInv base stream send) (hflight : send.inFlight ≠ 0) :
    send.finAcked = false := by
  by_contra hne
  rw [Bool.not_eq_false] at hne
  obtain ⟨hs, hnil⟩ := h.fin_acked hne
  refine hflight ?_
  rw [h.inFlight_eq]
  simp [ByteDeque.len, hnil, finInFlight, hs, hne]

theorem finInFlight_eq (h : send.finAcked = false) : finInFlight send = send.finSent.toNat := by
  cases hs : send.finSent <;> simp [finInFlight, hs, h]

theorem SendInv.ack_eq_next_iff (h : SendInv base stream send) {acked : Nat} (hle : acked ≤ send.inFlight)
    (hfa : send.finAcked = false) :
    seqAt base (ackedBytes stream send + acked) = send.next ↔
      acked = send.unacked.len + send.finSent.toNat := by
  have hflight := h.flight_lt
  rw [h.inFlight_eq, finInFlight_eq hfa] at hle
  rw [finInFlight_eq hfa] at hflight
  rw [h.next_eq, h.taken_eq, Nat.add_assoc, eq_comm, seqAt_inj (by omega) (by omega)]
  omega

/-- An ACK of something in flight moves the guest's position by as much. -/
theorem takeAck_inv (h : SendInv base stream send) {ack : UInt32} {window acked : Nat} (hwin : window < 2 ^ 30)
    (hack : (ack - send.una).toNat = acked) (hpos : acked ≠ 0) (hle : acked ≤ send.inFlight) :
    SendInv base stream (send.takeAck ack window acked) := by
  have htaken := h.taken_eq
  have hlen := h.flight_le
  have hfa : send.finAcked = false := h.finAcked_eq_false (by omega)
  have hbytes : ackedBytes stream (send.takeAck ack window acked) =
      ackedBytes stream send + min acked send.unacked.len := by
    show stream.taken - (TcpSendState.dropAcked send.unacked (min acked send.unacked.len)).len = _
    rw [dropAcked_len]
    omega
  have hackat : ack = seqAt base (ackedBytes stream send + acked) := by
    have huna := h.una_eq
    rw [hfa] at huna
    exact eq_seqAt_of_sub (huna ▸ hack)
  have hnext : ack = send.next ↔ acked = send.unacked.len + send.finSent.toNat := by
    rw [hackat]
    exact h.ack_eq_next_iff hle hfa
  rw [h.inFlight_eq, finInFlight_eq hfa] at hle
  have hfin : (send.takeAck ack window acked).finAcked = decide (send.finSent = true ∧ ack = send.next) := by
    show (if _ then true else send.finAcked) = _
    rw [hfa]
    by_cases hc : send.finSent = true ∧ ack = send.next <;> simp [hc]
  refine ⟨?_, ?_, h.next_eq, h.fin_end, ?_, ?_, hwin⟩
  · rw [hbytes]
    show Holds _ _ _ (TcpSendState.dropAcked send.unacked _).bytes
    rw [dropAcked_bytes]
    exact h.holds.drop (Nat.min_le_right _ _)
  · rw [hbytes, hfin]
    -- Past the bytes there is only the FIN.
    have hsplit : min acked send.unacked.len + (decide (send.finSent = true ∧ ack = send.next)).toNat = acked := by
      cases hs : send.finSent with
      | false =>
        rw [hs] at hle
        simp at hle ⊢
        omega
      | true =>
        rw [hs] at hle hnext
        by_cases heq : ack = send.next
        · have := hnext.mp heq
          simp [heq] at this ⊢
          omega
        · have hne : acked ≠ send.unacked.len + 1 := fun hc => heq (hnext.mpr hc)
          simp [heq] at hle ⊢
          omega
    rw [Nat.add_assoc, hsplit]
    exact hackat
  · intro hf
    rw [hfin] at hf
    obtain ⟨hs, heq⟩ := of_decide_eq_true hf
    refine ⟨hs, ?_⟩
    show (TcpSendState.dropAcked send.unacked _).bytes = []
    rw [dropAcked_bytes]
    refine List.drop_eq_nil_of_le ?_
    have := hnext.mp heq
    show send.unacked.len ≤ _
    omega
  · show (TcpSendState.dropAcked send.unacked _).len < _
    rw [dropAcked_len]
    omega

theorem countDuplicate_inv (h : SendInv base stream send) : SendInv base stream send.countDuplicate := by
  unfold TcpSendState.countDuplicate
  dsimp only
  split
  · exact ⟨h.holds, h.una_eq, h.next_eq, h.fin_end, h.fin_acked, h.flight_le, h.window_lt⟩
  · exact ⟨h.holds, h.una_eq, h.next_eq, h.fin_end, h.fin_acked, h.flight_le, h.window_lt⟩

theorem onGuestAck_inv (h : SendInv base stream send) (ack : UInt32) {window : Nat} (bare : Bool)
    (hwin : window < 2 ^ 30) : SendInv base stream (send.onGuestAck ack window bare) := by
  have hwindow : SendInv base stream { send with window := window } :=
    ⟨h.holds, h.una_eq, h.next_eq, h.fin_end, h.fin_acked, h.flight_le, hwin⟩
  unfold TcpSendState.onGuestAck
  dsimp only
  split
  · rename_i hc
    exact takeAck_inv h hwin rfl hc.1 hc.2
  · split
    · split
      · exact countDuplicate_inv hwindow
      · exact hwindow
    · exact h

theorem guestWindow_lt (send : TcpSendState) (field : UInt16) : send.guestWindow field < 2 ^ 30 := by
  have hfield := field.toNat_lt
  have hshift : 2 ^ ((send.windowShift.getD 0).val) ≤ 2 ^ 14 :=
    Nat.pow_le_pow_right (by omega) (by have := (send.windowShift.getD 0).isLt; omega)
  rw [TcpSendState.guestWindow, Nat.shiftLeft_eq]
  calc field.toNat * 2 ^ _ < 2 ^ 16 * 2 ^ 14 := Nat.mul_lt_mul_of_lt_of_le hfield hshift (by omega)
    _ = 2 ^ 30 := by norm_num

end SendInv

/-! ## What a poll queues -/

/-- The position in the host's stream a sequence number stands for, counted from what the guest acknowledged. -/
def TcpFlow.offsetOf (f : TcpFlow) (seq : UInt32) : Nat :=
  ackedBytes f.stream f.send + (seq - f.send.una).toNat

/-- A segment carries the stream's bytes from a position on, and a FIN only where they end with the stream. -/
structure Carries (incoming : List UInt8) (off : Nat) (r : TcpReply) : Prop where
  data : r.payload = slice incoming off r.payload.length
  fin : hasFlag r.flags tcpFlagFin = true → off + r.payload.length = incoming.length

theorem Carries.bare {incoming : List UInt8} {off : Nat} {r : TcpReply} (hp : r.payload = [])
    (hf : hasFlag r.flags tcpFlagFin = false) : Carries incoming off r where
  data := by rw [hp]; simp [slice]
  fin h := by rw [hf] at h; cases h

theorem ack_no_fin : hasFlag tcpFlagAck tcpFlagFin = false := by decide

theorem reset_no_fin : hasFlag Polling.resetFlags tcpFlagFin = false := by decide

theorem psh_no_fin : hasFlag (tcpFlagPsh ||| tcpFlagAck) tcpFlagFin = false := by decide

/-- The send state inside a flow. -/
def TcpFlow.Inv (f : TcpFlow) : Prop := SendInv (f.ourSeq + 1) f.stream f.send

/-- Two flows with the same host-to-guest data; timers, repair state and the other direction may differ. -/
structure SameData (a b : TcpFlow) : Prop where
  ourSeq : b.ourSeq = a.ourSeq
  incoming : b.stream.incoming = a.stream.incoming
  taken : b.stream.taken = a.stream.taken
  una : b.send.una = a.send.una
  next : b.send.next = a.send.next
  window : b.send.window = a.send.window
  unacked : b.send.unacked = a.send.unacked
  finSent : b.send.finSent = a.send.finSent
  finAcked : b.send.finAcked = a.send.finAcked

section SameData

variable {f a b c : TcpFlow} {s : Sending} {wrap now : Nat}

theorem SameData.refl (a : TcpFlow) : SameData a a := ⟨rfl, rfl, rfl, rfl, rfl, rfl, rfl, rfl, rfl⟩

theorem SameData.ackedBytes (h : SameData a b) :
    ackedBytes b.stream b.send = NetNat.ackedBytes a.stream a.send := by
  rw [NetNat.ackedBytes, NetNat.ackedBytes, h.taken, h.unacked]

theorem SameData.inv (h : SameData a b) (hi : a.Inv) : b.Inv where
  holds := by rw [h.ackedBytes, h.incoming, h.taken, h.unacked]; exact hi.holds
  una_eq := by rw [h.ackedBytes, h.una, h.finAcked, h.ourSeq]; exact hi.una_eq
  next_eq := by rw [h.next, h.taken, h.finSent, h.ourSeq]; exact hi.next_eq
  fin_end := by rw [h.finSent, h.taken, h.incoming]; exact hi.fin_end
  fin_acked := by rw [h.finAcked, h.finSent, h.unacked]; exact hi.fin_acked
  flight_le := by rw [h.unacked]; exact hi.flight_le
  window_lt := by rw [h.window]; exact hi.window_lt

/-- A poll of `f` under way: the guest's position is where it was, and what was queued carries the stream. -/
structure Good (f : TcpFlow) (s : Sending) : Prop where
  inv : s.flow.Inv
  ourSeq : s.flow.ourSeq = f.ourSeq
  incoming : s.flow.stream.incoming = f.stream.incoming
  una : s.flow.send.una = f.send.una
  acked : ackedBytes s.flow.stream s.flow.send = ackedBytes f.stream f.send
  carried : ∀ r ∈ s.queue.replies, Carries f.stream.incoming (f.offsetOf r.seq) r

theorem Good.offsetOf (h : Good f s) (seq : UInt32) : s.flow.offsetOf seq = f.offsetOf seq := by
  rw [TcpFlow.offsetOf, TcpFlow.offsetOf, h.acked, h.una]

theorem Good.same (h : Good f s) {s' : Sending} (hd : SameData s.flow s'.flow) (hq : s'.queue = s.queue) :
    Good f s' where
  inv := hd.inv h.inv
  ourSeq := hd.ourSeq.trans h.ourSeq
  incoming := hd.incoming.trans h.incoming
  una := hd.una.trans h.una
  acked := hd.ackedBytes.trans h.acked
  carried := by rw [hq]; exact h.carried

theorem mem_push {q : ReplyQueue} {r x : TcpReply} (h : r ∈ (q.push x).replies) : r ∈ q.replies ∨ r = x := by
  unfold ReplyQueue.push at h
  split at h
  · rcases List.mem_append.mp h with h | h
    · exact Or.inl h
    · exact Or.inr (List.mem_singleton.mp h)
  · exact Or.inl h

theorem Good.push (h : Good f s) {s' : Sending} (hd : SameData s.flow s'.flow) {x : TcpReply}
    (hq : s'.queue = s.queue.push x) (hx : Carries f.stream.incoming (f.offsetOf x.seq) x) : Good f s' := by
  have hbase : Good f { s' with queue := s.queue } := h.same hd rfl
  refine ⟨hbase.inv, hbase.ourSeq, hbase.incoming, hbase.una, hbase.acked, fun r hr => ?_⟩
  rw [hq] at hr
  rcases mem_push hr with hr | rfl
  · exact h.carried r hr
  · exact hx

theorem windowField_same (f : TcpFlow) : SameData f f.windowField.2 := by constructor <;> rfl

theorem segment_good (h : Good f s) {seq : UInt32} {flags : UInt8} {payload : List UInt8}
    (hx : ∀ window ack, Carries f.stream.incoming (f.offsetOf seq) ⟨seq, ack, flags, window, [], payload⟩) :
    Good f (s.segment seq flags payload) :=
  h.push (windowField_same s.flow) rfl (hx _ _)

/-! ## Retransmissions -/

theorem asSlices_take (d : ByteDeque) (wrap len : Nat) :
    (d.asSlices wrap).1.take (min len (d.asSlices wrap).1.length) ++
      (d.asSlices wrap).2.take (len - min len (d.asSlices wrap).1.length) = d.bytes.take len := by
  simp only [ByteDeque.asSlices]
  by_cases hle : len ≤ (d.bytes.take wrap).length
  · rw [Nat.min_eq_left hle, Nat.sub_self, List.take_zero, List.append_nil, List.take_take]
    congr 1
    rw [List.length_take] at hle
    omega
  · rw [Nat.min_eq_right (by omega), List.take_length]
    have hlen := List.length_take (i := wrap) (l := d.bytes)
    calc d.bytes.take wrap ++ (d.bytes.drop wrap).take (len - (d.bytes.take wrap).length)
        = (d.bytes.take wrap ++ d.bytes.drop wrap).take len := by
          rw [List.take_append, List.take_of_length_le (l := d.bytes.take wrap) (by omega)]
      _ = d.bytes.take len := by rw [List.take_append_drop]

theorem resend_flags (len : Nat) (last : Prop) [Decidable last]
    (h : hasFlag (if last then (if len ≠ 0 then tcpFlagAck ||| tcpFlagPsh else tcpFlagAck) ||| tcpFlagFin
      else if len ≠ 0 then tcpFlagAck ||| tcpFlagPsh else tcpFlagAck) tcpFlagFin = true) : last := by
  by_contra hne
  rw [if_neg hne] at h
  split at h
  · exact absurd h (by decide)
  · exact absurd h (by decide)

theorem resendOldest_good (h : Good f s) (wrap : Nat) : Good f (s.resendOldest wrap) := by
  have hinv := h.inv
  have htaken := hinv.taken_eq
  have hoff : f.offsetOf s.flow.send.una = ackedBytes s.flow.stream s.flow.send := by
    rw [← h.offsetOf, TcpFlow.offsetOf, UInt32.sub_self]
    rfl
  unfold Sending.resendOldest
  dsimp only
  rw [asSlices_take]
  refine segment_good h fun window ack => ⟨?_, fun hfin => ?_⟩
  · rw [hoff, ← h.incoming]
    exact hinv.holds.take _
  · obtain ⟨hs, hlen⟩ := resend_flags _ _ hfin
    have hend := hinv.fin_end hs
    rw [hoff, ← h.incoming]
    show _ + (s.flow.send.unacked.bytes.take _).length = _
    rw [ByteDeque.len] at htaken
    rw [List.length_take, hlen, ByteDeque.len, Nat.min_self, ← hend]
    exact htaken.symm

theorem mapSend_good (h : Good f s) {g : TcpSendState → TcpSendState}
    (hg : SameData s.flow { s.flow with send := g s.flow.send }) : Good f (s.mapSend g) :=
  h.same hg rfl

theorem repairLoss_good (h : Good f s) (wrap : Nat) : Good f (s.repairLoss wrap) := by
  have hclear := mapSend_good h (g := fun send => { send with resend := false }) (by constructor <;> rfl)
  unfold Sending.repairLoss
  dsimp only
  split
  · exact resendOldest_good hclear wrap
  · exact hclear

theorem backOff_good (h : Good f s) : Good f s.backOff := mapSend_good h (by constructor <;> rfl)

theorem expire_good (h : Good f s) (wrap now : Nat) : Good f (s.expire wrap now) := by
  have hclear := mapSend_good h (g := fun send => { send with deadlineMs := none }) (by constructor <;> rfl)
  unfold Sending.expire
  split
  · dsimp only
    split
    · exact backOff_good (mapSend_good (resendOldest_good hclear wrap) (by constructor <;> rfl))
    · split
      · exact backOff_good (segment_good hclear fun _ _ => Carries.bare rfl ack_no_fin)
      · exact hclear
  · exact h

/-! ## New data -/

theorem read_ok {stream stream' : TcpStream} {len : Nat} {r : HostTurn} {payload : List UInt8}
    (h : stream.read len r = (.ok payload, stream')) :
    payload = slice stream.incoming stream.taken payload.length ∧ payload.length ≤ len ∧
      stream' = { stream with taken := stream.taken + payload.length } ∧
      (payload = [] → 0 < len → stream.incoming.length ≤ stream.taken) := by
  cases r with
  | moves n =>
    obtain ⟨hp, hs⟩ := Prod.mk.inj h
    cases hp
    refine ⟨?_, ?_, hs.symm, fun hnil hpos => ?_⟩
    · rw [slice, slice, List.length_take, List.take_eq_take_iff]
      omega
    · rw [slice, List.length_take]
      omega
    · have hlen := congrArg List.length hnil
      rw [slice, List.length_take, List.length_drop] at hlen
      simp at hlen
      omega
  | wouldBlock => cases (Prod.mk.inj h).1
  | err => cases (Prod.mk.inj h).1

theorem readLen_some {len : Nat} (h : s.readLen = some len) :
    s.flow.send.finSent = false ∧ 0 < len ∧ s.flow.send.inFlight + len ≤ s.flow.send.window := by
  unfold Sending.readLen at h
  split at h
  · cases h
  · rename_i hfin
    dsimp only at h
    split at h
    · cases h
    · rename_i hroom
      have hlen := Option.some.inj h
      rw [not_or] at hfin hroom
      have hr : s.flow.send.room ≤ s.flow.send.window - s.flow.send.inFlight := by
        unfold TcpSendState.room
        dsimp only
        split
        · omega
        · split <;> omega
      have hmss : 0 < tcpMss := by decide
      exact ⟨by simpa using hfin.1, by omega, by omega⟩

theorem startTimer_eq (s : Sending) (now : Nat) :
    ∃ rto deadline, s.startTimer now = s.mapSend fun send => { send with rtoMs := rto, deadlineMs := deadline } := by
  unfold Sending.startTimer
  split
  · exact ⟨_, _, rfl⟩
  · exact ⟨s.flow.send.rtoMs, s.flow.send.deadlineMs, rfl⟩

theorem sendRead_spec (s : Sending) (stream : TcpStream) (payload : List UInt8) (now : Nat) :
    let s' := (s.setStream stream).sendRead payload now
    s'.flow.stream = stream ∧ s'.flow.ourSeq = s.flow.ourSeq ∧ s'.flow.send.una = s.flow.send.una ∧
      s'.flow.send.window = s.flow.send.window ∧ s'.flow.send.finAcked = s.flow.send.finAcked ∧
      s'.flow.send.unacked.bytes = s.flow.send.unacked.bytes ++ payload ∧
      s'.flow.send.next = (if payload.isEmpty then s.flow.send.next + 1
        else s.flow.send.next + UInt32.ofNat payload.length) ∧
      s'.flow.send.finSent = (payload.isEmpty || s.flow.send.finSent) ∧
      ∃ ack window, s'.queue = s.queue.push ⟨s.flow.send.next, ack,
        if payload.isEmpty then tcpFlagFin ||| tcpFlagAck else tcpFlagPsh ||| tcpFlagAck, window, [], payload⟩ := by
  obtain ⟨rto, deadline, hstart⟩ := startTimer_eq (s.setStream stream) now
  unfold Sending.sendRead
  dsimp only
  rw [hstart]
  cases payload with
  | nil => exact ⟨rfl, rfl, rfl, rfl, rfl, rfl, rfl, rfl, _, _, rfl⟩
  | cons b bytes => exact ⟨rfl, rfl, rfl, rfl, rfl, rfl, rfl, rfl, _, _, rfl⟩

theorem eq_nil_or_isEmpty (payload : List UInt8) : payload = [] ∨ payload.isEmpty = false := by
  cases payload with
  | nil => exact Or.inl rfl
  | cons b bytes => exact Or.inr rfl

theorem next_before_fin (h : a.Inv) (hfs : a.send.finSent = false) :
    a.send.finAcked = false ∧ a.send.inFlight = a.send.unacked.len ∧ a.offsetOf a.send.next = a.stream.taken := by
  have hfa : a.send.finAcked = false := by
    by_contra hne
    rw [Bool.not_eq_false] at hne
    have := (h.fin_acked hne).1
    rw [hfs] at this
    cases this
  have hfly : a.send.inFlight = a.send.unacked.len := by
    rw [h.inFlight_eq, finInFlight_eq hfa, hfs]
    rfl
  refine ⟨hfa, hfly, ?_⟩
  calc a.offsetOf a.send.next = ackedBytes a.stream a.send + a.send.unacked.len := congrArg _ hfly
    _ = a.stream.taken := h.taken_eq.symm

/-- The invariant after a first transmission. -/
theorem sendRead_inv (h : s.flow.Inv) {len : Nat} {payload : List UInt8} (now : Nat) (hlen : s.readLen = some len)
    (hp : payload = slice s.flow.stream.incoming s.flow.stream.taken payload.length) (hple : payload.length ≤ len)
    (hle : s.flow.stream.taken + payload.length ≤ s.flow.stream.incoming.length)
    (hend : payload = [] → s.flow.stream.incoming.length ≤ s.flow.stream.taken) :
    let stream := { s.flow.stream with taken := s.flow.stream.taken + payload.length }
    let s' := (s.setStream stream).sendRead payload now
    s'.flow.Inv ∧ ackedBytes s'.flow.stream s'.flow.send = ackedBytes s.flow.stream s.flow.send := by
  obtain ⟨hfs, -, hroom⟩ := readLen_some hlen
  obtain ⟨hfa, hfly, -⟩ := next_before_fin h hfs
  have hwin := h.window_lt
  intro stream s'
  obtain ⟨hst, hos, hun, hw, hfa', hby, hnx, hfs', -⟩ := sendRead_spec s stream payload now
  have hul : s'.flow.send.unacked.len = s.flow.send.unacked.len + payload.length := by
    rw [ByteDeque.len, hby, List.length_append]
    rfl
  have hacked : ackedBytes s'.flow.stream s'.flow.send = ackedBytes s.flow.stream s.flow.send := by
    rw [ackedBytes, hst, hul, Nat.add_sub_add_right]
    rfl
  have hnext := h.next_eq
  rw [hfs, Bool.or_false] at *
  refine ⟨⟨?_, ?_, ?_, ?_, ?_, ?_, ?_⟩, hacked⟩
  · rw [hacked, hst, hby]
    exact h.holds.append hp hle
  · rw [hacked, hun, hfa', hos]
    exact h.una_eq
  · rw [hnx, hst, hfs', hos]
    rcases eq_nil_or_isEmpty payload with rfl | hne
    · rw [hnext]
      exact seqAt_add _ _ 1
    · rw [hne, if_neg (by decide), hnext]
      exact seqAt_add _ _ _
  · intro hf
    rw [hfs'] at hf
    rw [hst]
    have hnil := List.isEmpty_iff.mp hf
    exact Nat.le_antisymm hle ((hend hnil).trans (Nat.le_add_right _ _))
  · intro hf
    rw [hfa', hfa] at hf
    cases hf
  · rw [hul]
    omega
  · rw [hw]
    exact hwin

/-- A first transmission carries the stream's next bytes, or its end. -/
theorem sendRead_good (h : Good f s) {len : Nat} {r : HostTurn} {payload : List UInt8} {stream : TcpStream}
    (hlen : s.readLen = some len) (hread : s.flow.stream.read len r = (.ok payload, stream)) (now : Nat) :
    Good f ((s.setStream stream).sendRead payload now) := by
  obtain ⟨hfs, hpos, -⟩ := readLen_some hlen
  obtain ⟨hp, hple, rfl, hend⟩ := read_ok hread
  have hle : s.flow.stream.taken + payload.length ≤ s.flow.stream.incoming.length := by
    have hl := congrArg List.length hp
    have := h.inv.holds.taken_le
    rw [slice, List.length_take, List.length_drop] at hl
    omega
  obtain ⟨hinv, hacked⟩ := sendRead_inv h.inv now hlen hp hple hle (fun hnil => hend hnil hpos)
  obtain ⟨-, -, hoff⟩ := next_before_fin h.inv hfs
  obtain ⟨hst, hos, hun, -, -, -, -, -, ack, window, hq⟩ := sendRead_spec s
    { s.flow.stream with taken := s.flow.stream.taken + payload.length } payload now
  refine ⟨hinv, hos.trans h.ourSeq, (congrArg TcpStream.incoming hst).trans h.incoming, hun.trans h.una,
    hacked.trans h.acked, fun x hx => ?_⟩
  rw [hq] at hx
  rcases mem_push hx with hx | rfl
  · exact h.carried x hx
  · rw [h.offsetOf] at hoff
    rw [hoff, ← h.incoming]
    refine ⟨hp, fun hfin => ?_⟩
    rcases eq_nil_or_isEmpty payload with rfl | hne
    · exact Nat.le_antisymm hle (hend rfl hpos)
    · rw [hne, if_neg (by decide), psh_no_fin] at hfin
      cases hfin

theorem readAgain_good (h : Good f s) : Good f s.readAgain := h.same (by constructor <;> rfl) rfl

theorem forward_good (now : Nat) (reads : List HostTurn) (h : Good f s) : Good f (s.forward now reads).1 :=
  forward_rule now reads (fun _ h => readAgain_good h) (fun _ _ _ _ _ h hlen hread => sendRead_good h hlen hread now) h

theorem armTimer_good (h : Good f s) (now : Nat) : Good f (s.armTimer now) :=
  armTimer_rule now (fun _ => mapSend_good h (by constructor <;> rfl)) h

theorem sendToGuest_good (h : Good f s) (env : PollEnv) : Good f (s.sendToGuest env).1 := by
  have hstart := expire_good (repairLoss_good h env.wraps.1) env.wraps.2 env.now
  exact sendToGuest_rule env (forward_good env.now env.reads hstart) fun _ h => armTimer_good h env.now

/-! ## A whole poll -/

theorem SameData.trans (h : SameData a b) (h' : SameData b c) : SameData a c where
  ourSeq := h'.ourSeq.trans h.ourSeq
  incoming := h'.incoming.trans h.incoming
  taken := h'.taken.trans h.taken
  una := h'.una.trans h.una
  next := h'.next.trans h.next
  window := h'.window.trans h.window
  unacked := h'.unacked.trans h.unacked
  finSent := h'.finSent.trans h.finSent
  finAcked := h'.finAcked.trans h.finAcked

theorem write_stream {stream stream' : TcpStream} {buf : List UInt8} {w : HostTurn} {result : IoResult Nat}
    (h : stream.write buf w = (result, stream')) :
    stream'.incoming = stream.incoming ∧ stream'.taken = stream.taken := by
  cases w with
  | moves n =>
    unfold TcpStream.write at h
    dsimp only at h
    split at h
    · cases h
      exact ⟨rfl, rfl⟩
    · cases h
      exact ⟨rfl, rfl⟩
  | wouldBlock => cases h; exact ⟨rfl, rfl⟩
  | err => cases h; exact ⟨rfl, rfl⟩

theorem flushHostWrite_same (writes : List HostTurn) (f : TcpFlow) : SameData f (f.flushHostWrite writes) := by
  induction writes generalizing f with
  | nil => exact SameData.refl f
  | cons w writes ih =>
    unfold TcpFlow.flushHostWrite
    split
    · exact SameData.refl f
    · split
      · rename_i stream heq
        obtain ⟨hin, htk⟩ := write_stream heq
        exact ⟨rfl, hin, htk, rfl, rfl, rfl, rfl, rfl, rfl⟩
      · rename_i len stream _ heq
        obtain ⟨hin, htk⟩ := write_stream heq
        have hstep : SameData f { f with stream := stream, writeBuf := f.writeBuf.drop len } :=
          ⟨rfl, hin, htk, rfl, rfl, rfl, rfl, rfl, rfl⟩
        exact hstep.trans (ih _)
      · rename_i result stream _ heq
        obtain ⟨hin, htk⟩ := write_stream heq
        exact ⟨rfl, hin, htk, rfl, rfl, rfl, rfl, rfl, rfl⟩

variable {p : Polling}

theorem reset_good (h : Good f p.toSending) (seq : UInt32) : Good f (p.reset seq).toSending :=
  h.push (x := ⟨seq, p.flow.guestNext, Polling.resetFlags, 65535, [], []⟩) (by constructor <;> rfl) rfl
    (Carries.bare rfl reset_no_fin)

theorem connect_good (h : Good f p.toSending) (check : ConnectCheck) : Good f (p.connect check).1.toSending := by
  have hsyn : hasFlag (tcpFlagSyn ||| tcpFlagAck) tcpFlagFin = false := by decide
  unfold Polling.connect
  split
  · cases check with
    | connected => exact h.push (by constructor <;> rfl) rfl (Carries.bare rfl hsyn)
    | pending => exact h.same (by constructor <;> rfl) rfl
    | failed => exact reset_good h _
  · exact h

theorem upload_good (h : Good f p.toSending) (env : PollEnv) : Good f (p.upload env).toSending :=
  h.same ((flushHostWrite_same env.writes p.flow).trans (by constructor <;> rfl)) rfl

theorem acknowledge_good (h : Good f p.toSending) : Good f p.acknowledge.toSending :=
  acknowledge_rule h (fun _ h => segment_good h fun _ _ => Carries.bare rfl ack_no_fin)
    fun _ h => h.same (by constructor <;> rfl) rfl

theorem download_good (h : Good f p.toSending) (env : PollEnv) : Good f (p.download env).toSending :=
  download_rule env (sendToGuest_good h env) fun _ h seq => reset_good h seq

/-- A turn that keeps the invariant, and queued only segments that carry the stream. -/
structure GoodTurn (f : TcpFlow) (t : Turn) : Prop where
  inv : t.flow.Inv
  incoming : t.flow.stream.incoming = f.stream.incoming
  carried : ∀ r ∈ t.replies, Carries f.stream.incoming (f.offsetOf r.seq) r

theorem finish_good (h : Good f p.toSending) (now : Nat) : GoodTurn f (p.finish now) := by
  unfold Polling.finish
  refine ⟨?_, ?_, h.carried⟩
  · dsimp only
    split
    · exact SameData.inv (by constructor <;> rfl) h.inv
    · exact h.inv
  · dsimp only
    split
    · exact h.incoming
    · exact h.incoming

theorem SameData.goodTurn (h : SameData f a) (hinv : f.Inv) (removed : Bool) : GoodTurn f ⟨a, [], removed⟩ :=
  ⟨h.inv hinv, h.incoming, fun r hr => absurd hr (by simp)⟩

theorem synDue_same (f : TcpFlow) (now : Nat) : SameData f (f.synDue now).1 := by
  unfold TcpFlow.synDue
  split
  · exact SameData.refl f
  · split
    · exact SameData.refl f
    · constructor <;> rfl

theorem pollTcp_good (h : f.Inv) (env : PollEnv) : GoodTurn f (f.pollTcp env) := by
  have hstart : Good f ⟨f, ⟨env.waiting, []⟩, env.budget⟩ :=
    ⟨h, rfl, rfl, rfl, rfl, fun r hr => absurd hr (by simp)⟩
  unfold TcpFlow.pollTcp
  dsimp only
  split
  · have hsame := synDue_same f env.now
    split
    · rename_i f' heq
      rw [heq] at hsame
      refine ⟨hsame.inv h, hsame.incoming, fun r hr => ?_⟩
      rcases mem_push hr with hr | rfl
      · exact absurd hr (by simp)
      · exact Carries.bare rfl (show hasFlag tcpFlagSyn tcpFlagFin = false by decide)
    · rename_i f' heq
      rw [heq] at hsame
      exact hsame.goodTurn h true
    · rename_i f' heq
      rw [heq] at hsame
      exact hsame.goodTurn h false
  · have hconn := connect_good (p := ⟨⟨f, ⟨env.waiting, []⟩, env.budget⟩, false, false⟩) hstart env.connect
    split
    · rename_i p' heq
      rw [heq] at hconn
      exact ⟨hconn.inv, hconn.incoming, hconn.carried⟩
    · rename_i p' heq
      rw [heq] at hconn
      split
      · exact finish_good hconn env.now
      · exact finish_good (download_good (acknowledge_good (upload_good hconn env)) env) env.now

/-! ## Guest segments -/

theorem takePayload_same (f : TcpFlow) (payload : List UInt8) (writes : List HostTurn) :
    SameData f (f.takePayload payload writes) := by
  have hstep : SameData f { f with
      guestNext := f.guestNext + UInt32.ofNat payload.length
      writeBuf := f.writeBuf ++ payload
      pendingAck := true } := by constructor <;> rfl
  exact hstep.trans (flushHostWrite_same writes _)

theorem takeFin_same (f : TcpFlow) (tcp : TcpSegment) : SameData f (f.takeFin tcp) := by
  unfold TcpFlow.takeFin
  split
  · constructor <;> rfl
  · exact SameData.refl f

theorem takeAck_flow_inv (h : f.Inv) (tcp : TcpSegment) :
    (f.takeAck tcp).Inv ∧ (f.takeAck tcp).stream = f.stream := by
  unfold TcpFlow.takeAck
  split
  · exact ⟨onGuestAck_inv h tcp.ack _ (guestWindow_lt f.send tcp.window), rfl⟩
  · exact ⟨h, rfl⟩

theorem handleTcp_good (h : f.Inv) (tcp : TcpSegment) (now : Nat) (writes : List HostTurn) :
    GoodTurn f (f.handleTcp tcp now writes) := by
  have hnow : SameData f { f with lastActivity := now } := by constructor <;> rfl
  obtain ⟨hack, hstream⟩ := takeAck_flow_inv (hnow.inv h) tcp
  -- From here on nothing changes the host-to-guest data.
  have rest : ∀ {b : TcpFlow}, SameData (({ f with lastActivity := now } : TcpFlow).takeAck tcp) b →
      GoodTurn f ⟨b, [], false⟩ := by
    intro b hb
    exact ⟨hb.inv hack, hb.incoming.trans (congrArg TcpStream.incoming hstream), fun r hr => absurd hr (by simp)⟩
  unfold TcpFlow.handleTcp
  dsimp only
  split
  · exact (SameData.refl f).goodTurn h true
  · split
    · split
      · refine ⟨⟨h.holds, h.una_eq, h.next_eq, h.fin_end, h.fin_acked, h.flight_le, ?_⟩, rfl,
          fun r hr => absurd hr (by simp)⟩
        exact tcp.window.toNat_lt.trans (by norm_num)
      · exact hnow.goodTurn h false
    · split
      · split
        · exact rest (by constructor <;> rfl)
        · exact rest ((takePayload_same _ _ _).trans (takeFin_same _ _))
      · split
        · refine rest (SameData.trans ?_ (takeFin_same _ _))
          constructor <;> rfl
        · exact rest (takeFin_same _ _)

theorem turn_good (h : f.Inv) (e : FlowEvent) : GoodTurn f (f.turn e) := by
  cases e with
  | segment tcp now writes => exact handleTcp_good h tcp now writes
  | poll env => exact pollTcp_good h env
  | ready => exact SameData.goodTurn (by constructor <;> rfl) h false
  | evictIdle now timeout => exact (SameData.refl f).goodTurn h _
  | evictLru => exact (SameData.refl f).goodTurn h true

end SameData

/-! ## Runs -/

theorem new_inv {stream : TcpStream} (hs : stream.Fresh) (guestNext ourSeq : UInt32) (window : UInt16)
    (shift : Option (Fin 15)) (now : Nat) : (TcpFlow.new stream guestNext ourSeq window shift now).Inv := by
  have hacked : ackedBytes stream (TcpFlow.new stream guestNext ourSeq window shift now).send = 0 := by
    rw [ackedBytes, hs.1]
    rfl
  refine ⟨?_, ?_, ?_, fun hf => absurd hf Bool.false_ne_true, fun hf => absurd hf Bool.false_ne_true,
    Nat.two_pow_pos 30, window.toNat_lt.trans (by norm_num)⟩
  · show Holds stream.incoming (ackedBytes stream _) stream.taken []
    rw [hacked, hs.1]
    exact Holds.nil _ (Nat.zero_le _)
  · show ourSeq + 1 = seqAt (ourSeq + 1) (ackedBytes stream _ + 0)
    rw [hacked]
    exact (seqAt_zero _).symm
  · show ourSeq + 1 = seqAt (ourSeq + 1) (stream.taken + 0)
    rw [hs.1]
    exact (seqAt_zero _).symm

theorem opens_inv {f : TcpFlow} (h : Opens f) : f.Inv := by
  cases h with
  | syn tcp ourSeq watched now hs =>
    exact SameData.inv (by constructor <;> rfl) (new_inv hs (tcp.seq + 1) ourSeq tcp.window
      (synWindowShift tcp.segment) now)
  | forwarded ourSeq watched now hs =>
    exact SameData.inv (by constructor <;> rfl) (new_inv hs 0 ourSeq 0 none now)

theorem reached_inv {f : TcpFlow} (h : Reached f) : f.Inv := by
  induction h with
  | opens h => exact opens_inv h
  | turn e _ _ ih => exact (turn_good ih e).inv

/-- **The host's stream reaches the guest**: in every state of a flow, what is in flight is what is unacknowledged and
the FIN, the unacknowledged bytes are the host's stream from `una` on, and whatever an event queues carries the stream
at its sequence number, with a FIN only at the stream's end. -/
theorem host_stream_reaches_guest {f : TcpFlow} (h : Reached f) :
    f.send.next - f.send.una =
        UInt32.ofNat (f.send.unacked.bytes.length + if f.send.finSent && !f.send.finAcked then 1 else 0) ∧
      f.send.una = seqAt (f.ourSeq + 1) (ackedBytes f.stream f.send + f.send.finAcked.toNat) ∧
      f.send.unacked.bytes =
        slice f.stream.incoming (ackedBytes f.stream f.send) f.send.unacked.bytes.length ∧
      ∀ e, ∀ r ∈ (f.turn e).replies, Carries f.stream.incoming (f.offsetOf r.seq) r := by
  have hinv := reached_inv h
  exact ⟨hinv.next_sub_una, hinv.una_eq, hinv.holds.held_eq, fun e => (turn_good hinv e).carried⟩

/-- A guest's SYN to a host that sends three bytes. -/
def downloadStart : TcpFlow :=
  TcpFlow.openFromSyn ⟨[1, 2, 3], 0, [], false⟩ ⟨100, 0, tcpFlagSyn, 65535, [], [],
    TcpSegment.fits_nil⟩ 0xffffffff false 0

/-- A poll in which the host connects and two of its bytes are there. -/
def downloadPoll : PollEnv := ⟨0, 0, maxTcpUnackedBytes, .connected, [], [.moves 1], false, (0, 0)⟩

def downloading : TcpFlow := (downloadStart.turn (.poll downloadPoll)).flow

theorem downloading_reached : Reached downloading :=
  Reached.turn _ (Reached.opens (Opens.syn _ _ _ _ ⟨rfl, rfl, rfl⟩)) (by decide)

theorem host_stream_reaches_guest_download :
    downloading.send.unacked.bytes = [1, 2] ∧ downloading.send.next - downloading.send.una = UInt32.ofNat (2 + 0) ∧
      downloading.send.unacked.bytes =
        slice downloading.stream.incoming (ackedBytes downloading.stream downloading.send) 2 :=
  have h := host_stream_reaches_guest downloading_reached
  ⟨by decide, h.1, h.2.2.1⟩

end BridgeVm.NetNat
