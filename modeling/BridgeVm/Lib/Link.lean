import Mathlib.Data.List.Basic
import Mathlib.Data.List.Pairwise

/-!
# A link to a serial agent

One side sends numbered lines. The agent reads them in order and answers each, may be started anew, and what is on the
way either way may be lost. The numbers of what is on the way increase, answers before lines: when the answer to the
last line sent comes in, nothing else is on the way.
-/

namespace BridgeVm.Lib

universe u v

/-- What an agent wrote: that it has started, or the answer to a line. -/
inductive Output (Line : Type u) (Reply : Type v)
  | ready
  | answer (serial : Nat) (line : Line) (reply : Reply)

/-- The line that is answered. -/
def Output.item? {Line : Type u} {Reply : Type v} : Output Line Reply → Option (Nat × Line)
  | .ready => none
  | .answer serial line _ => some (serial, line)

/-- What is on the way: lines that the agent has not read, and what it wrote, each oldest first. -/
structure Link (Line : Type u) (Reply : Type v) where
  /-- How many lines were sent. -/
  sent : Nat
  unread : List (Nat × Line)
  outputs : List (Output Line Reply)
  increasing : (outputs.filterMap Output.item? ++ unread).Pairwise fun a b => a.1 < b.1
  sent_le : ∀ item ∈ outputs.filterMap Output.item? ++ unread, item.1 ≤ sent

namespace Link

variable {Line : Type u} {Reply : Type v}

/-- The lines that are on the way, they or their answers, oldest first. -/
def items (link : Link Line Reply) : List (Nat × Line) := link.outputs.filterMap Output.item? ++ link.unread

/-- The link with part of what is on the way. -/
def restrict (link : Link Line Reply) (unread : List (Nat × Line)) (outputs : List (Output Line Reply))
    (h : (outputs.filterMap Output.item? ++ unread).Sublist link.items) : Link Line Reply where
  sent := link.sent
  unread := unread
  outputs := outputs
  increasing := link.increasing.sublist h
  sent_le := fun item hitem => link.sent_le item (h.subset hitem)

/-- Nothing sent. -/
def idle : Link Line Reply where
  sent := 0
  unread := []
  outputs := []
  increasing := .nil
  sent_le := by simp

def send (link : Link Line Reply) (line : Line) : Link Line Reply where
  sent := link.sent + 1
  unread := link.unread ++ [(link.sent + 1, line)]
  outputs := link.outputs
  increasing := by
    rw [← List.append_assoc, List.pairwise_append]
    refine ⟨link.increasing, List.pairwise_singleton _ _, ?_⟩
    intro a ha b hb
    have hle := link.sent_le a ha
    rw [List.mem_singleton.mp hb]
    exact Nat.lt_succ_of_le hle
  sent_le := by
    intro item hitem
    rw [← List.append_assoc, List.mem_append, List.mem_singleton] at hitem
    rcases hitem with hitem | rfl
    · exact Nat.le_succ_of_le (link.sent_le item hitem)
    · exact Nat.le_refl _

/-- The agent answers the line it reads next. -/
def answer (link : Link Line Reply) (reply : Reply) : Link Line Reply :=
  match h : link.unread with
  | [] => link
  | (serial, line) :: rest =>
    link.restrict rest (link.outputs ++ [.answer serial line reply]) (by simp [items, Output.item?, h])

/-- A new agent process has started. -/
def restart (link : Link Line Reply) : Link Line Reply :=
  link.restrict link.unread (link.outputs ++ [.ready]) (by simp [items, Output.item?])

/-- The line at `i` does not reach the agent. -/
def loseLine (link : Link Line Reply) (i : Nat) : Link Line Reply :=
  link.restrict (link.unread.eraseIdx i) link.outputs ((List.eraseIdx_sublist _ _).append_left _)

/-- The output at `i` does not reach the host. -/
def loseOutput (link : Link Line Reply) (i : Nat) : Link Line Reply :=
  link.restrict link.unread (link.outputs.eraseIdx i)
    (((List.eraseIdx_sublist _ _).filterMap _).append_right _)

/-- The host has taken the oldest output. -/
def receive (link : Link Line Reply) : Link Line Reply :=
  link.restrict link.unread link.outputs.tail (((List.tail_sublist _).filterMap _).append_right _)

variable {link : Link Line Reply} {line : Line} {reply : Reply} {serial : Nat} {item : Nat × Line}
  {rest : List (Nat × Line)} {later : List (Output Line Reply)}

theorem mem_items : item ∈ link.items ↔ (∃ reply, .answer item.1 item.2 reply ∈ link.outputs) ∨
    item ∈ link.unread := by
  rw [items, List.mem_append, List.mem_filterMap]
  constructor
  · rintro (⟨output, hmem, hitem⟩ | h)
    · cases output with
      | ready => cases hitem
      | answer serial line reply =>
        cases hitem
        exact .inl ⟨reply, hmem⟩
    · exact .inr h
  · rintro (⟨reply, h⟩ | h)
    · exact .inl ⟨_, h, rfl⟩
    · exact .inr h

theorem items_increasing (link : Link Line Reply) : link.items.Pairwise fun a b => a.1 < b.1 := link.increasing

theorem mem_items_le (h : item ∈ link.items) : item.1 ≤ link.sent := link.sent_le item h

theorem answer_le (h : .answer serial line reply ∈ link.outputs) : serial ≤ link.sent :=
  link.sent_le (serial, line) (mem_items.mpr (.inl ⟨reply, h⟩))

@[simp] theorem items_idle : (idle : Link Line Reply).items = [] := rfl

@[simp] theorem items_send : (link.send line).items = link.items ++ [(link.sent + 1, line)] :=
  (List.append_assoc _ _ _).symm

theorem answer_cons (reply : Reply) (h : link.unread = (serial, line) :: rest) :
    (link.answer reply).unread = rest ∧ (link.answer reply).outputs = link.outputs ++ [.answer serial line reply] ∧
      (link.answer reply).sent = link.sent := by
  unfold answer
  split
  · next h' => cases h.symm.trans h'
  · next h' =>
    cases h.symm.trans h'
    exact ⟨rfl, rfl, rfl⟩

theorem items_answer : (link.answer reply).items = link.items := by
  unfold answer
  split
  · rfl
  · next h => simp [items, restrict, Output.item?, h]

theorem items_receive : link.receive.items.Sublist link.items :=
  ((List.tail_sublist _).filterMap _).append_right _

/-- What comes after the oldest answer has later numbers. -/
theorem receive_later (h : link.outputs = .answer serial line reply :: later) :
    ∀ item ∈ link.receive.items, serial < item.1 := by
  have hitems : link.items = (serial, line) :: link.receive.items := by
    simp [items, receive, restrict, Output.item?, h]
  have hlater := link.items_increasing
  rw [hitems, List.pairwise_cons] at hlater
  exact hlater.1

/-- The answer to the last line comes last. -/
theorem receive_last (h : link.outputs = .answer link.sent line reply :: later) : link.receive.items = [] := by
  rw [List.eq_nil_iff_forall_not_mem]
  intro item hitem
  have hlt := receive_later h item hitem
  have hle := link.receive.sent_le item hitem
  exact absurd (Nat.lt_of_lt_of_le hlt hle) (Nat.lt_irrefl _)

/-- The agent has read every line once the last one is answered. -/
theorem unread_of_answered (h : .answer link.sent line reply ∈ link.outputs) : link.unread = [] := by
  rw [List.eq_nil_iff_forall_not_mem]
  intro item hitem
  have hlt := (List.pairwise_append.mp link.increasing).2.2 (link.sent, line)
    (List.mem_filterMap.mpr ⟨_, h, rfl⟩) item hitem
  have hle := mem_items_le (mem_items.mpr (.inr hitem))
  exact absurd (Nat.lt_of_lt_of_le hlt hle) (Nat.lt_irrefl _)

end Link

end BridgeVm.Lib
