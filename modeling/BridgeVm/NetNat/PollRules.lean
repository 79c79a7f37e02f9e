import BridgeVm.NetNat.TcpFlow

/-!
# Rules for a poll

What holds of the phases of `send_to_guest` and of a poll, from what holds of their steps: a fact about a poll is proved
once for each step that touches it.
-/

namespace BridgeVm.NetNat

variable {P : Sending → Prop} {s : Sending}

/-- The read loop, by induction on what the host socket does. -/
theorem forward_rule (now : Nat) (reads : List HostTurn) (hagain : ∀ s, P s → P s.readAgain)
    (hread : ∀ s len r payload stream, P s → s.readLen = some len →
      s.flow.stream.read len r = (.ok payload, stream) →
      P ((s.setStream stream).sendRead payload now))
    (h : P s) : P (s.forward now reads).1 := by
  induction reads generalizing s with
  | nil =>
    unfold Sending.forward
    dsimp only
    split
    · exact hagain s h
    · exact h
  | cons r reads ih =>
    unfold Sending.forward
    split
    · exact h
    · rename_i len hlen
      split
      · rename_i payload stream heq
        exact ih (hread s len r payload stream h hlen heq)
      · exact hagain s h
      · exact h

theorem armTimer_rule (now : Nat)
    (htimer : ∀ deadline, P (s.mapSend fun send => { send with deadlineMs := deadline }))
    (h : P s) : P (s.armTimer now) := by
  unfold Sending.armTimer
  dsimp only
  split
  · split
    · exact htimer (some (saturatingAdd now s.flow.send.rtoMs))
    · exact h
  · exact htimer none

theorem sendToGuest_rule (env : PollEnv)
    (hsent : P (((s.repairLoss env.wraps.1).expire env.wraps.2 env.now).forward env.now env.reads).1)
    (harm : ∀ s, P s → P (s.armTimer env.now)) : P (s.sendToGuest env).1 := by
  unfold Sending.sendToGuest
  dsimp only
  split
  · rename_i s' heq
    rw [heq] at hsent
    exact hsent
  · rename_i s' result _ heq
    rw [heq] at hsent
    exact harm s' hsent

theorem download_rule {p : Polling} (env : PollEnv) (hsent : P (p.toSending.sendToGuest env).1)
    (hreset : ∀ q : Polling, P q.toSending → ∀ seq, P (q.reset seq).toSending) : P
      (p.download env).toSending := by
  unfold Polling.download
  split
  · rename_i s' heq
    rw [heq] at hsent
    exact hsent
  · rename_i s' heq
    rw [heq] at hsent
    exact hsent
  · rename_i s' heq
    rw [heq] at hsent
    exact hreset { p with toSending := s' } hsent _

theorem acknowledge_rule {p : Polling} (h : P p.toSending)
    (hack : ∀ s, P s → P (s.segment s.flow.send.next tcpFlagAck []))
    (hdone : ∀ s, P s → P { s with flow := { s.flow with pendingAck := false } }) : P p.acknowledge.toSending := by
  unfold Polling.acknowledge
  split
  · exact hdone _ (hack _ h)
  · exact h

end BridgeVm.NetNat
