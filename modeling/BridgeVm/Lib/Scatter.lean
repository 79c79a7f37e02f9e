import Mathlib.Data.List.Basic
import Mathlib.Logic.Function.Basic
import Mathlib.Tactic.Linarith

/-!
# Scattered runs of a memory, and logs of stores

A buffer that is scattered over a memory is a list of runs `(address, length)`; its bytes in order stand at
`addresses`. A log of stores is replayed by `pokes`, so that a copy to or from a scattered buffer is a statement about
two lists, whatever the runs.
-/

namespace BridgeVm.Lib

variable {α : Type}

/-- The addresses of a list of runs, one run after the other. -/
def addresses (runs : List (Nat × Nat)) : List Nat := runs.flatMap fun r => List.range' r.1 r.2

/-- The length of the runs together. -/
def runsLength (runs : List (Nat × Nat)) : Nat := (runs.map Prod.snd).sum

/-- The parts of the runs that hold the `n` bytes from offset `off` on. -/
def pieces : List (Nat × Nat) → Nat → Nat → List (Nat × Nat)
  | [], _, _ => []
  | r :: runs, off, n =>
    if n = 0 then []
    else if r.2 ≤ off then pieces runs (off - r.2) n
    else (r.1 + off, min (r.2 - off) n) :: pieces runs 0 (n - min (r.2 - off) n)

/-- How many bytes come before the first run that is not `ok`. -/
def lead (ok : Nat → Nat → Bool) (runs : List (Nat × Nat)) : Nat := runsLength (runs.takeWhile fun r => ok r.1 r.2)

/-- A memory after the stores of a log, oldest first. -/
def pokes (f : Nat → α) : List (Nat × α) → Nat → α
  | [] => f
  | w :: ws => pokes (Function.update f w.1 w.2) ws

/-- The first `n` of consecutive addresses. -/
theorem take_range' (base len n : Nat) : (List.range' base len).take n = List.range' base (min n len) := by
  rcases Nat.le_total len n with hle | hge
  · rw [List.take_range'_of_length_le hle, Nat.min_eq_right hle]
  · rw [List.take_range'_of_length_ge hge, Nat.min_eq_left hge]

/-- A memory after the cells `src` were copied to the cells `dst`, in order. -/
def copyCells (f : Nat → α) (src dst : List Nat) : Nat → α := pokes f (dst.zip (src.map f))

section Runs

variable {r : Nat × Nat} {runs runs' : List (Nat × Nat)}

@[simp] theorem addresses_nil : addresses [] = [] := rfl

@[simp] theorem addresses_cons : addresses (r :: runs) = List.range' r.1 r.2 ++ addresses runs := rfl

@[simp] theorem runsLength_nil : runsLength [] = 0 := rfl

@[simp] theorem runsLength_cons : runsLength (r :: runs) = r.2 + runsLength runs := rfl

@[simp] theorem length_addresses : (addresses runs).length = runsLength runs := by
  induction runs with
  | nil => rfl
  | cons r runs ih => rw [addresses_cons, List.length_append, List.length_range', ih, runsLength_cons]

theorem mem_addresses {a : Nat} : a ∈ addresses runs ↔ ∃ r ∈ runs, r.1 ≤ a ∧ a < r.1 + r.2 := by
  simp [addresses, List.mem_range'_1]

@[simp] theorem pieces_zero (off : Nat) : pieces runs off 0 = [] := by cases runs <;> simp [pieces]

/-- The pieces of a range are the addresses of the range. -/
theorem addresses_pieces (off n : Nat) : addresses (pieces runs off n) = ((addresses runs).drop off).take n := by
  induction runs generalizing off n with
  | nil => simp [pieces]
  | cons r runs ih =>
    rw [pieces]
    by_cases hn : n = 0
    · simp [hn]
    · rw [if_neg hn, addresses_cons, List.drop_append, List.length_range', List.drop_range', Nat.mul_one]
      by_cases hoff : r.2 ≤ off
      · rw [if_pos hoff, ih, Nat.sub_eq_zero_of_le hoff, List.range'_zero, List.nil_append]
      · rw [if_neg hoff, addresses_cons, ih, Nat.sub_eq_zero_of_le (Nat.le_of_not_le hoff), List.drop_zero,
          List.take_append,
          List.length_range', take_range']
        have hmin : min n (r.2 - off) = min (r.2 - off) n := Nat.min_comm _ _
        have hrest : n - min (r.2 - off) n = n - (r.2 - off) := by omega
        rw [hmin, hrest]

/-- Runs before the offset do not count. -/
theorem pieces_skip (off n : Nat) : pieces (runs ++ runs') (runsLength runs + off) n = pieces runs' off n := by
  induction runs with
  | nil => rw [List.nil_append, runsLength_nil, Nat.zero_add]
  | cons r runs ih =>
    rw [List.cons_append, pieces, runsLength_cons]
    by_cases hn : n = 0
    · simp [hn]
    · have hrest : r.2 + runsLength runs + off - r.2 = runsLength runs + off := by omega
      rw [if_neg hn, if_pos (by omega), hrest, ih]

/-- Runs after the range do not count. -/
theorem pieces_append {off n : Nat} (h : off + n ≤ runsLength runs) :
    pieces (runs ++ runs') off n = pieces runs off n := by
  induction runs generalizing off n with
  | nil =>
    have hn : n = 0 := by
      rw [runsLength_nil] at h
      omega
    simp [hn]
  | cons r runs ih =>
    rw [runsLength_cons] at h
    rw [List.cons_append, pieces, pieces]
    by_cases hn : n = 0
    · simp [hn]
    · rw [if_neg hn, if_neg hn]
      by_cases hoff : r.2 ≤ off
      · rw [if_pos hoff, if_pos hoff, ih (by omega)]
      · rw [if_neg hoff, if_neg hoff, ih (by omega)]

@[simp] theorem runsLength_append : runsLength (runs ++ runs') = runsLength runs + runsLength runs' := by
  simp [runsLength]

theorem pieces_pos {p : Nat × Nat} {off n : Nat} (h : p ∈ pieces runs off n) : 0 < p.2 := by
  induction runs generalizing off n with
  | nil => cases h
  | cons r runs ih =>
    rw [pieces] at h
    split at h
    · cases h
    · split at h
      · exact ih h
      · rcases List.mem_cons.mp h with rfl | h
        · dsimp only
          omega
        · exact ih h

@[simp] theorem lead_nil (ok : Nat → Nat → Bool) : lead ok [] = 0 := rfl

theorem lead_cons (ok : Nat → Nat → Bool) : lead ok (r :: runs) = if ok r.1 r.2 then r.2 + lead ok runs else 0 := by
  unfold lead
  rw [List.takeWhile_cons]
  split <;> rfl

theorem lead_le (ok : Nat → Nat → Bool) (runs : List (Nat × Nat)) : lead ok runs ≤ runsLength runs := by
  induction runs with
  | nil => exact Nat.le_refl 0
  | cons r runs ih =>
    rw [lead_cons, runsLength_cons]
    split <;> omega

/-- The addresses before the first run that is not `ok` are in runs that are. -/
theorem mem_take_lead {ok : Nat → Nat → Bool} {a : Nat} (h : a ∈ (addresses runs).take (lead ok runs)) :
    ∃ r ∈ runs, ok r.1 r.2 = true ∧ r.1 ≤ a ∧ a < r.1 + r.2 := by
  induction runs with
  | nil => simp at h
  | cons r runs ih =>
    rw [lead_cons, addresses_cons] at h
    split at h
    · rename_i hr
      rw [List.take_append, List.length_range', Nat.add_sub_cancel_left, List.mem_append] at h
      rcases h with hhead | htail
      · have hin := List.mem_range'_1.mp (List.mem_of_mem_take hhead)
        exact ⟨r, List.mem_cons_self, hr, hin⟩
      · obtain ⟨r', hr', hok, hin⟩ := ih htail
        exact ⟨r', List.mem_cons_of_mem r hr', hok, hin⟩
    · simp at h

/-- Nothing comes after a run that is not `ok`, where every run has a byte. -/
theorem lead_eq_iff {ok : Nat → Nat → Bool} (hpos : ∀ r ∈ runs, 0 < r.2) :
    lead ok runs = runsLength runs ↔ ∀ r ∈ runs, ok r.1 r.2 = true := by
  induction runs with
  | nil => simp
  | cons r runs ih =>
    obtain ⟨hr, hrs⟩ := List.forall_mem_cons.mp hpos
    rw [lead_cons, runsLength_cons, List.forall_mem_cons, ← ih hrs]
    split
    · rename_i hok
      simp [hok]
    · rename_i hok
      constructor
      · intro h
        omega
      · rintro ⟨h, -⟩
        exact absurd h hok

end Runs

section Logs

variable {f : Nat → α} {ws ws' : List (Nat × α)} {xs ys : List Nat} {data : List α} {a : Nat}

@[simp] theorem pokes_nil : pokes f [] = f := rfl

@[simp] theorem pokes_append : pokes f (ws ++ ws') = pokes (pokes f ws) ws' := by
  induction ws generalizing f with
  | nil => rfl
  | cons w ws ih =>
    rw [List.cons_append, pokes, pokes]
    exact ih

/-- What a log does not name is kept. -/
theorem pokes_of_not_mem (h : a ∉ ws.map Prod.fst) : pokes f ws a = f a := by
  induction ws generalizing f with
  | nil => rfl
  | cons w ws ih =>
    rw [List.map_cons, List.mem_cons, not_or] at h
    rw [pokes, ih h.2]
    exact Function.update_of_ne h.1 w.2 f

/-- Storing `data` over consecutive addresses. -/
theorem pokes_range' (base : Nat) (data : List α) :
    pokes f ((List.range' base data.length).zip data) =
      fun a => if base ≤ a then (data[a - base]?).getD (f a) else f a := by
  induction data generalizing f base with
  | nil =>
    funext a
    simp
  | cons x data ih =>
    funext a
    rw [List.length_cons, List.range'_succ, List.zip_cons_cons, pokes, ih]
    dsimp only
    rcases Nat.lt_trichotomy a base with hlt | rfl | hgt
    · have hkeep : Function.update f base x a = f a := Function.update_of_ne (by omega) x f
      rw [if_neg (by omega), if_neg (by omega), hkeep]
    · rw [if_neg (by omega), if_pos (Nat.le_refl a)]
      simp
    · have hkeep : Function.update f base x a = f a := Function.update_of_ne (by omega) x f
      have hpred : a - base = a - (base + 1) + 1 := by omega
      rw [if_pos (by omega), if_pos (by omega), hkeep, hpred, List.getElem?_cons_succ]

/-- A log along two address lists is the log along the first and then the one along the second. -/
theorem append_zip (xs ys : List Nat) (data : List α) :
    (xs ++ ys).zip data = xs.zip (data.take xs.length) ++ ys.zip (data.drop xs.length) := by
  induction xs generalizing data with
  | nil => rfl
  | cons x xs ih =>
    cases data with
    | nil => simp
    | cons d data => simp [ih]

/-- Copying in two parts, where the first part does not write what the second reads. -/
theorem copyCells_append {src src' dst dst' : List Nat} (hlen : src.length = dst.length)
    (hapart : ∀ a ∈ src', a ∉ dst) :
    copyCells f (src ++ src') (dst ++ dst') = copyCells (copyCells f src dst) src' dst' := by
  have hkept : src'.map (pokes f (dst.zip (src.map f))) = src'.map f := by
    refine List.map_congr_left fun a ha => pokes_of_not_mem fun hmem => hapart a ha ?_
    rw [List.map_fst_zip (by rw [List.length_map]; omega)] at hmem
    exact hmem
  unfold copyCells
  rw [hkept, List.map_append, List.zip_append (by rw [List.length_map]; omega), pokes_append]

/-- A cell that is not copied to is kept. -/
theorem copyCells_of_not_mem {src dst : List Nat} (h : a ∉ dst) : copyCells f src dst a = f a :=
  pokes_of_not_mem fun hmem => h (by
    obtain ⟨w, hw, rfl⟩ := List.mem_map.mp hmem
    exact (List.of_mem_zip hw).1)

/-- Copying group by group, where no cell is both read and written, is copying at once. -/
theorem foldl_copyCells {src dst : List Nat} (size : Nat) {count : Nat} (hsrc : size * count ≤ src.length)
    (hdst : size * count ≤ dst.length) (hapart : ∀ a ∈ src, a ∉ dst) :
    (List.range count).foldl (fun f i => copyCells f ((src.drop (size * i)).take size)
      ((dst.drop (size * i)).take size)) f =
      copyCells f (src.take (size * count)) (dst.take (size * count)) := by
  induction count with
  | zero => simp [copyCells]
  | succ count ih =>
    rw [Nat.mul_succ] at hsrc hdst
    have hcut : ∀ xs : List Nat, xs.take (size * (count + 1)) = xs.take (size * count) ++
      (xs.drop (size * count)).take size := by
      intro xs
      rw [Nat.mul_succ, List.take_add]
    rw [List.range_succ, List.foldl_append, ih (by omega) (by omega), hcut, hcut, copyCells_append]
    · rfl
    · rw [List.length_take, List.length_take]
      omega
    · intro a ha hmem
      exact hapart a (List.mem_of_mem_drop (List.mem_of_mem_take ha)) (List.mem_of_mem_take hmem)

end Logs

end BridgeVm.Lib
