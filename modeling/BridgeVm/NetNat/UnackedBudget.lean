import BridgeVm.NetNat.Frames
import BridgeVm.NetNat.HostToGuest

/-!
# The budget for unacknowledged bytes (`net_nat/tcp_send.rs`, `macaddr.rs`)

- `append_within_budget` charges exactly what it allocates, and never more than the budget when the payload is within
  the spare capacity and the budget (`appendWithinBudget_charges`);
- allocation and budget together are constant over a flow's turn in a poll (`pollTcp_stake`), hence over the whole loop;
- guest segments, openings, evictions and removals only give memory back (`step_unacked_le`), so the allocations of all
  flows stay within the limit (`unacked_within_budget`).
-/

namespace BridgeVm.NetNat

/-! ## Growing a buffer -/

theorem grownCapacity_bounds (before need budget : Nat) (h : need ≤ before + budget) :
    before ≤ grownCapacity before need budget ∧ grownCapacity before need budget ≤ before + budget := by
  unfold grownCapacity
  split <;> omega

theorem appendWithinBudget_charges {unacked : ByteDeque} {payload : List UInt8} {budget : Nat}
    (h : payload.length ≤ unacked.capacity - unacked.len + budget) :
    (appendWithinBudget unacked payload budget).1.capacity ≤ unacked.capacity + budget ∧
      (appendWithinBudget unacked payload budget).1.capacity + (appendWithinBudget unacked payload budget).2 =
        unacked.capacity + budget := by
  have hfits : unacked.len ≤ unacked.capacity := unacked.fits
  obtain ⟨hge, hle⟩ := grownCapacity_bounds unacked.capacity (unacked.len + payload.length) budget (by omega)
  refine ⟨hle, ?_⟩
  show grownCapacity _ _ _ + (budget - (grownCapacity _ _ _ - unacked.capacity)) = _
  omega

/-! ## One flow's turn -/

namespace Sending

variable {s : Sending}

/-- What a flow has allocated, and what it may still allocate. -/
def stake (s : Sending) : Nat := s.flow.send.unacked.capacity + s.budget

theorem resendOldest_stake (s : Sending) (wrap : Nat) : (s.resendOldest wrap).stake = s.stake := rfl

theorem repairLoss_stake (s : Sending) (wrap : Nat) : (s.repairLoss wrap).stake = s.stake := by
  unfold repairLoss
  dsimp only
  split
  · exact resendOldest_stake _ _
  · rfl

theorem expire_stake (s : Sending) (wrap now : Nat) : (s.expire wrap now).stake = s.stake := by
  unfold expire
  split
  · dsimp only
    split
    · rfl
    · split
      · rfl
      · rfl
  · rfl

theorem startTimer_stake (s : Sending) (now : Nat) :
    (s.startTimer now).flow.send.unacked = s.flow.send.unacked ∧ (s.startTimer now).budget = s.budget := by
  unfold startTimer
  split
  · exact ⟨rfl, rfl⟩
  · exact ⟨rfl, rfl⟩

theorem readLen_le {len : Nat} (h : s.readLen = some len) :
    len ≤ s.flow.send.unacked.capacity - s.flow.send.unacked.len + s.budget := by
  unfold readLen at h
  split at h
  · cases h
  · dsimp only at h
    split at h
    · cases h
    · have hlen := Option.some.inj h
      omega

theorem sendRead_stake {payload : List UInt8} (now : Nat)
    (h : payload.length ≤ s.flow.send.unacked.capacity - s.flow.send.unacked.len + s.budget) :
    (s.sendRead payload now).stake = s.stake := by
  obtain ⟨hunacked, hbudget⟩ := startTimer_stake s now
  have hkeep : ((s.startTimer now).segment (s.startTimer now).flow.send.next
      (if payload.isEmpty then tcpFlagFin ||| tcpFlagAck else tcpFlagPsh ||| tcpFlagAck) payload |>.keep
        payload).stake =
      s.stake := by
    show (appendWithinBudget (s.startTimer now).flow.send.unacked payload (s.startTimer now).budget).1.capacity +
      (appendWithinBudget (s.startTimer now).flow.send.unacked payload (s.startTimer now).budget).2 = s.stake
    rw [hunacked, hbudget]
    exact (appendWithinBudget_charges h).2
  rw [← hkeep]
  unfold sendRead
  dsimp only [stake, mapSend]
  split <;> rfl

theorem forward_stake (now : Nat) (reads : List HostTurn) (s : Sending) : (s.forward now reads).1.stake = s.stake := by
  refine forward_rule (P := fun s' => s'.stake = s.stake) now reads (fun _ h => h)
    (fun s' len r payload stream h hlen hread => ?_) rfl
  have hpay := (read_ok hread).2.1
  have hle := readLen_le hlen
  have hsent := sendRead_stake (s := s'.setStream stream) now (hpay.trans hle)
  exact hsent.trans h

theorem armTimer_stake (s : Sending) (now : Nat) : (s.armTimer now).stake = s.stake :=
  armTimer_rule (P := fun s' => s'.stake = s.stake) now (fun _ => rfl) rfl

theorem sendToGuest_stake (s : Sending) (env : PollEnv) : (s.sendToGuest env).1.stake = s.stake := by
  have hforward := forward_stake env.now env.reads ((s.repairLoss env.wraps.1).expire env.wraps.2 env.now)
  rw [expire_stake, repairLoss_stake] at hforward
  exact sendToGuest_rule (P := fun s' => s'.stake = s.stake) env hforward fun s' h =>
    (armTimer_stake s' env.now).trans h

end Sending

theorem connect_stake (p : Polling) (check : ConnectCheck) : (p.connect check).1.stake = p.stake := by
  unfold Polling.connect
  split
  · cases check with
    | connected => rfl
    | pending => rfl
    | failed => rfl
  · rfl

theorem upload_stake (p : Polling) (env : PollEnv) : (p.upload env).stake = p.stake := by
  show (p.flow.flushHostWrite env.writes).send.unacked.capacity + p.budget = p.stake
  rw [(flushHostWrite_same env.writes p.flow).unacked]
  rfl

theorem acknowledge_stake (p : Polling) : p.acknowledge.stake = p.stake := by
  unfold Polling.acknowledge
  split
  · rfl
  · rfl

theorem download_stake (p : Polling) (env : PollEnv) : (p.download env).stake = p.stake :=
  download_rule (P := fun s => s.stake = p.stake) env (Sending.sendToGuest_stake p.toSending env) fun _ h _ => h

/-- **A flow's turn in a poll keeps allocation and budget together.** -/
theorem pollTcp_stake (f : TcpFlow) (env : PollEnv) :
    (f.pollTcp env).flow.send.unacked.capacity + f.budgetLeft env = f.send.unacked.capacity + env.budget := by
  have hconn := connect_stake ⟨⟨f, ⟨env.waiting, []⟩, env.budget⟩, false, false⟩ env.connect
  have hfinish : ∀ p : Polling, (p.finish env.now).flow.send = p.flow.send := by
    intro p
    show (if p.active then { p.flow with lastActivity := env.now } else p.flow).send = p.flow.send
    split <;> rfl
  unfold TcpFlow.pollTcp TcpFlow.budgetLeft
  dsimp only
  split
  · have hsame := synDue_same f env.now
    split <;> rename_i f' heq <;> rw [heq] at hsame <;> rw [hsame.unacked]
  · rcases hc : Polling.connect ⟨⟨f, ⟨env.waiting, []⟩, env.budget⟩, false,
      false⟩ env.connect with ⟨p, go⟩
    rw [hc] at hconn
    cases go with
    | false => exact hconn
    | true =>
      dsimp only
      split
      · rw [hfinish]
        exact hconn
      · rw [hfinish]
        exact (download_stake _ env).trans ((acknowledge_stake _).trans ((upload_stake p env).trans hconn))

/-! ## Guest segments -/

theorem dropAcked_capacity (unacked : ByteDeque) (data : Nat) :
    (TcpSendState.dropAcked unacked data).capacity ≤ unacked.capacity := by
  unfold TcpSendState.dropAcked
  split
  · exact Nat.zero_le _
  · exact Nat.le_refl _

theorem onGuestAck_capacity (send : TcpSendState) (ack : UInt32) (window : Nat) (bare : Bool) :
    (send.onGuestAck ack window bare).unacked.capacity ≤ send.unacked.capacity := by
  unfold TcpSendState.onGuestAck
  dsimp only
  split
  · exact dropAcked_capacity _ _
  · split
    · split
      · unfold TcpSendState.countDuplicate
        dsimp only
        split <;> exact Nat.le_refl _
      · exact Nat.le_refl _
    · exact Nat.le_refl _

theorem handleTcp_capacity (f : TcpFlow) (tcp : TcpSegment) (now : Nat) (writes : List HostTurn) :
    (f.handleTcp tcp now writes).flow.send.unacked.capacity ≤ f.send.unacked.capacity := by
  have hack : (({ f with lastActivity := now } : TcpFlow).takeAck tcp).send.unacked.capacity ≤
      f.send.unacked.capacity := by
    unfold TcpFlow.takeAck
    split
    · exact onGuestAck_capacity f.send _ _ _
    · exact Nat.le_refl _
  have rest : ∀ {b : TcpFlow}, SameData (({ f with lastActivity := now } : TcpFlow).takeAck tcp) b →
      b.send.unacked.capacity ≤ f.send.unacked.capacity := by
    intro b hb
    rw [hb.unacked]
    exact hack
  unfold TcpFlow.handleTcp
  dsimp only
  split
  · exact Nat.le_refl _
  · split
    · split <;> exact Nat.le_refl _
    · split
      · split
        · exact rest (by constructor <;> rfl)
        · exact rest ((takePayload_same _ _ _).trans (takeFin_same _ _))
      · split
        · refine rest (SameData.trans ?_ (takeFin_same _ _))
          constructor <;> rfl
        · exact rest (takeFin_same _ _)

/-! ## The table -/

namespace TcpTable

open Lib

variable {t : TcpTable}

theorem evictLru_sublist (cap : Nat) : ∀ (excess : Nat) (flows : AssocMap TcpFlowKey TcpFlow),
    (evictLru cap excess flows).entries.Sublist flows.entries := by
  intro excess
  induction excess with
  | zero => exact fun flows => List.Sublist.refl flows.entries
  | succ excess ih =>
    intro flows
    unfold evictLru
    split
    · exact List.Sublist.refl flows.entries
    · split
      · exact List.Sublist.refl flows.entries
      · exact (ih _).trans List.filter_sublist

theorem evictIdleFlows_unacked (t : TcpTable) (now : Nat) : (t.evictIdleFlows now).unackedBytes ≤ t.unackedBytes := by
  refine AssocMap.total_le_of_sublist ((evictLru_sublist _ _ _).trans ?_)
  split
  · exact List.filter_sublist
  · exact List.Sublist.refl _

theorem insert_unacked (t : TcpTable) (key : TcpFlowKey) (isn : UInt32) {f : TcpFlow}
    (h : f.send.unacked.capacity = 0) :
    ({ t with tcpIsnCounter := isn, flows := t.flows.insert key f } : TcpTable).unackedBytes ≤ t.unackedBytes := by
  have hle := AssocMap.total_insert (w := fun f : TcpFlow => f.send.unacked.capacity) t.flows key f
  rw [h] at hle
  exact hle

theorem openFromSyn_unacked (stream : TcpStream) (tcp : TcpSegment) (ourSeq : UInt32) (watched : Bool) (now : Nat) :
    (TcpFlow.openFromSyn stream tcp ourSeq watched now).send.unacked.capacity = 0 := rfl

theorem openForwarded_unacked (stream : TcpStream) (ourSeq : UInt32) (watched : Bool) (now : Nat) :
    (TcpFlow.openForwarded stream ourSeq watched now).send.unacked.capacity = 0 := rfl

theorem openFromSyn_table (t : TcpTable) (key : TcpFlowKey) (tcp : TcpSegment) (now : Nat) (connected : Connected)
    (ourSeq : UInt32) : (t.openFromSyn key tcp now connected ourSeq).unackedBytes ≤ t.unackedBytes := by
  unfold openFromSyn
  split
  · exact Nat.le_refl _
  · exact (evictIdleFlows_unacked _ now).trans (insert_unacked t key ourSeq (openFromSyn_unacked ..))

theorem handleTcp_unacked (t : TcpTable) (key : TcpFlowKey) (tcp : TcpSegment) (now : Nat) (writes : List HostTurn)
    (connected : Connected) : (t.handleTcp key tcp now writes connected).unackedBytes ≤ t.unackedBytes := by
  unfold handleTcp
  split
  · exact AssocMap.total_retain t.flows _
  · split
    · split
      · exact openFromSyn_table t key tcp now connected _
      · exact Nat.le_refl _
    · have hmodify : t.flows.total (fun f => f.send.unacked.capacity) ≥
          (t.flows.modify key fun f => (f.handleTcp tcp now writes).flow).total fun f => f.send.unacked.capacity := by
        refine AssocMap.total_mapValues (w := fun f : TcpFlow => f.send.unacked.capacity) t.flows fun kf _ => ?_
        split
        · exact handleTcp_capacity kf.2 tcp now writes
        · exact Nat.le_refl _
      dsimp only
      split
      · exact hmodify
      · exact (evictIdleFlows_unacked _ now).trans hmodify

theorem tableForwarded_unacked (t : TcpTable) (key : TcpFlowKey) (stream : TcpStream) (watched : Bool) (now : Nat) :
    (t.openForwarded key stream watched now).unackedBytes ≤ t.unackedBytes := by
  unfold openForwarded
  split
  · exact Nat.le_refl _
  · generalize t.nextTcpIsn = isn
    exact (evictIdleFlows_unacked _ now).trans (insert_unacked t key isn (openForwarded_unacked ..))

theorem takeReadySockets_unacked (t : TcpTable) (ready : TcpFlowKey → Bool) :
    (t.takeReadySockets ready).unackedBytes ≤ t.unackedBytes := by
  refine AssocMap.total_mapValues (w := fun f : TcpFlow => f.send.unacked.capacity) t.flows fun kf _ => ?_
  split <;> exact Nat.le_refl _

theorem pollFlows_unacked (env : TcpFlowKey → PollEnv) (now : Nat) (flows : List (TcpFlowKey × TcpFlow)) :
    ∀ budget waiting,
      ((pollFlows env now flows budget waiting).map fun kt => kt.2.flow.send.unacked.capacity).sum ≤
        (flows.map fun kf => kf.2.send.unacked.capacity).sum + budget := by
  induction flows with
  | nil => exact fun _ _ => Nat.zero_le _
  | cons kf flows ih =>
    intro budget waiting
    obtain ⟨key, f⟩ := kf
    have hturn := pollTcp_stake f { env key with now := now, budget := budget, waiting := waiting }
    have hrest := ih (f.budgetLeft { env key with now := now, budget := budget, waiting := waiting })
      (waiting + (f.pollTcp { env key with now := now, budget := budget, waiting := waiting }).replies.length)
    rw [pollFlows, List.map_cons, List.map_cons, List.sum_cons, List.sum_cons]
    dsimp only at hturn hrest ⊢
    omega

theorem pollTcp_unacked (h : t.unackedBytes ≤ maxTcpUnackedBytes) (env : TcpFlowKey → PollEnv) (now waiting : Nat) :
    (t.pollTcp env now waiting).unackedBytes ≤ maxTcpUnackedBytes := by
  have hloop := pollFlows_unacked env now t.flows.entries (maxTcpUnackedBytes - t.unackedBytes) waiting
  have hpolled : (t.polled env now waiting).total (fun turn => turn.flow.send.unacked.capacity) ≤
    maxTcpUnackedBytes := by
    refine hloop.trans ?_
    show t.unackedBytes + (maxTcpUnackedBytes - t.unackedBytes) ≤ maxTcpUnackedBytes
    omega
  refine le_trans ?_ hpolled
  have hretain := AssocMap.total_retain (w := fun turn : Turn => turn.flow.send.unacked.capacity)
    (t.polled env now waiting) fun kt => !kt.2.removed
  refine le_trans (le_of_eq ?_) hretain
  show ((List.map _ _).map _).sum = (List.map _ _).sum
  rw [List.map_map]
  rfl

theorem reached_unacked (h : t.Reached) : t.unackedBytes ≤ maxTcpUnackedBytes := by
  induction h with
  | new h =>
    rw [unackedBytes, h]
    exact Nat.zero_le _
  | step e _ ih =>
    cases e with
    | segment key tcp now writes connected => exact (handleTcp_unacked ..).trans ih
    | forwarded key stream watched now => exact (tableForwarded_unacked ..).trans ih
    | ready ready => exact (takeReadySockets_unacked ..).trans ih
    | poll env now waiting => exact pollTcp_unacked ih env now waiting
    | evict now => exact (evictIdleFlows_unacked ..).trans ih
  | rehash flows _ hperm ih => exact (AssocMap.total_perm hperm).le.trans ih

end TcpTable

/-- **The budget for unacknowledged bytes**: the allocations of all flows stay within the limit, and
`append_within_budget` stays within its budget when its payload does. -/
theorem unacked_within_budget :
    (∀ t : TcpTable, t.Reached → t.unackedBytes ≤ maxTcpUnackedBytes) ∧
      ∀ (unacked : ByteDeque) (payload : List UInt8) (budget : Nat),
        payload.length ≤ unacked.capacity - unacked.len + budget →
          (appendWithinBudget unacked payload budget).1.capacity - unacked.capacity ≤ budget := by
  refine ⟨fun t h => TcpTable.reached_unacked h, fun unacked payload budget h => ?_⟩
  have hle := (appendWithinBudget_charges h).1
  omega

/-- A NAT without flows. -/
def emptyTable : TcpTable := ⟨.empty, 0, 1000, 16, 0⟩

/-- The guest opens a connection. -/
def openConnection : TableEvent :=
  .segment ⟨Wire.guestIp, 5000, #v[1, 1, 1, 1], 80⟩ ⟨100, 0, tcpFlagSyn, 65535, [], [],
    TcpSegment.fits_nil⟩ 0 []
    ⟨some ⟨[1, 2, 3], 0, [], false⟩, false⟩

/-- A table whose one flow was polled while its host had data. -/
def downloadTable : TcpTable := (emptyTable.step openConnection).step (.poll (fun _ => downloadPoll) 0 0)

theorem downloadTable_reached : downloadTable.Reached :=
  TcpTable.Reached.step (.poll (fun _ => downloadPoll) 0 0)
    (TcpTable.Reached.step openConnection (TcpTable.Reached.new (t := emptyTable) rfl))

theorem unacked_within_budget_download :
    downloadTable.unackedBytes = 2 ∧ downloadTable.unackedBytes ≤ maxTcpUnackedBytes :=
  ⟨by decide +kernel, unacked_within_budget.1 downloadTable downloadTable_reached⟩

end BridgeVm.NetNat
