import Mathlib.Tactic.Linarith

/-!
# Event logs

A log of events, newest first: what every event meets of what happened before it, and the part of a log since its last
mark.
-/

namespace BridgeVm.Lib

universe u

variable {ε : Type u}

/-- Every event meets `P` of the log before it. -/
def Traced (P : ε → List ε → Prop) : List ε → Prop
  | [] => True
  | e :: log => P e log ∧ Traced P log

/-- One event of a traced log, and the events before it. -/
theorem Traced.at {P : ε → List ε → Prop} {e : ε} {earlier : List ε} :
    ∀ {later : List ε}, Traced P (later ++ e :: earlier) → P e earlier
  | [], h => h.1
  | _ :: _, h => Traced.at h.2

theorem Traced.mono {P Q : ε → List ε → Prop} (hle : ∀ e log, P e log → Q e log) : ∀ {log : List ε},
    Traced P log → Traced Q log
  | [], h => h
  | _ :: _, h => ⟨hle _ _ h.1, h.2.mono hle⟩

instance decidableTraced {P : ε → List ε → Prop} [∀ e log, Decidable (P e log)] : ∀ log,
    Decidable (Traced P log)
  | [] => inferInstanceAs (Decidable True)
  | e :: log => @instDecidableAnd (P e log) (Traced P log) _ (decidableTraced log)

/-- A level that is up has risen: at an event before which it was down, and since which it is up. -/
theorem exists_rise {level : ε → Bool} {log : List ε} (h : log.head?.any level = true) :
    ∃ later e earlier, log = later ++ e :: earlier ∧ (∀ x ∈ later, level x = true) ∧ level e = true ∧
      earlier.head?.any level = false := by
  induction log with
  | nil => simp at h
  | cons e log ih =>
    have he : level e = true := by simpa using h
    cases hbefore : log.head?.any level with
    | false => exact ⟨[], e, log, rfl, by simp, he, hbefore⟩
    | true =>
      obtain ⟨later, e', earlier, rfl, hup, hrise, hdown⟩ := ih hbefore
      refine ⟨e :: later, e', earlier, rfl, ?_, hrise, hdown⟩
      intro x hx
      rcases List.mem_cons.mp hx with rfl | hx
      · exact he
      · exact hup x hx

/-- The events since the last one that is a mark. -/
def since (mark : ε → Bool) (log : List ε) : List ε := log.takeWhile fun e => !mark e

theorem since_mark {mark : ε → Bool} {e : ε} {log : List ε} (h : mark e = true) : since mark (e :: log) = [] := by
  rw [since, List.takeWhile_cons_of_neg (by simp [h])]

theorem since_event {mark : ε → Bool} {e : ε} {log : List ε} (h : mark e = false) :
    since mark (e :: log) = e :: since mark log := by
  rw [since, List.takeWhile_cons_of_pos (by simp [h]), since]

end BridgeVm.Lib
