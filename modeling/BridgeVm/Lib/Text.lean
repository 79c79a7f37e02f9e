import Mathlib.Data.List.DropRight
import Mathlib.Tactic.Linarith

/-!
# Text in lines and fields

Texts are lists of characters. A text is cut into lines and a line into fields, from the left or from the right, and
fields are decimal numbers; `rsplitn_append` and `parseUnsigned_toDigits` say what is read of what was written.
-/

namespace BridgeVm.Lib

/-- The UTF-8 bytes of a text. -/
def utf8 (s : List Char) : List UInt8 := s.flatMap String.utf8EncodeChar

/-- After a first byte of a longer sequence: how many bytes follow, and the range of the second. -/
def followers (lead : UInt8) : Option (Nat × UInt8 × UInt8) :=
  if 0xc2 ≤ lead ∧ lead ≤ 0xdf then some (1, 0x80, 0xbf)
  else if lead = 0xe0 then some (2, 0xa0, 0xbf)
  else if lead = 0xed then some (2, 0x80, 0x9f)
  else if 0xe1 ≤ lead ∧ lead ≤ 0xef then some (2, 0x80, 0xbf)
  else if lead = 0xf0 then some (3, 0x90, 0xbf)
  else if 0xf1 ≤ lead ∧ lead ≤ 0xf3 then some (3, 0x80, 0xbf)
  else if lead = 0xf4 then some (3, 0x80, 0x8f)
  else none

/-- The bytes of a sequence after the first, up to one that cannot be in it. -/
def continuation : Nat → UInt8 → UInt8 → List UInt8 → List UInt8
  | n + 1, low, high, b :: bytes => if low ≤ b ∧ b ≤ high then b :: continuation n 0x80 0xbf bytes else []
  | _, _, _, _ => []

/-- The text of the bytes, read one sequence at a time; `skip` bytes of the last one are still to be passed. -/
def fromUtf8LossyFrom : Nat → List UInt8 → List Char
  | _, [] => []
  | skip + 1, _ :: bytes => fromUtf8LossyFrom skip bytes
  | 0, lead :: bytes =>
    if lead < 0x80 then Char.ofNat lead.toNat :: fromUtf8LossyFrom 0 bytes
    else
      match followers lead with
      | none => '\uFFFD' :: fromUtf8LossyFrom 0 bytes
      | some (n, low, high) =>
        let rest := continuation n low high bytes
        let char :=
          if rest.length = n then
            Char.ofNat (rest.foldl (fun value b => value * 64 + b.toNat % 64) (lead.toNat % 2 ^ (6 - n)))
          else '\uFFFD'
        char :: fromUtf8LossyFrom rest.length bytes

/-- `String::from_utf8_lossy`: what is no text becomes U+FFFD. -/
def fromUtf8Lossy (bytes : List UInt8) : List Char := fromUtf8LossyFrom 0 bytes

/-! ## Fields -/

section Fields

variable {α : Type} [DecidableEq α] {sep : α} {xs front last : List α}

/-- The parts before and after the last separator. -/
def rsplitOnce (sep : α) : List α → Option (List α × List α)
  | [] => none
  | x :: xs =>
    match rsplitOnce sep xs with
    | some (front, last) => some (x :: front, last)
    | none => if x = sep then some ([], xs) else none

/-- The parts before and after the first separator. -/
def splitOnce (sep : α) : List α → Option (List α × List α)
  | [] => none
  | x :: xs => if x = sep then some ([], xs) else (splitOnce sep xs).map fun (front, rest) => (x :: front, rest)

/-- At most `n` fields, the last one first; the `n`-th is all that is left. -/
def rsplitn (sep : α) : Nat → List α → List (List α)
  | 0, _ => []
  | 1, xs => [xs]
  | n + 2, xs =>
    match rsplitOnce sep xs with
    | some (front, last) => last :: rsplitn sep (n + 1) front
    | none => [xs]

theorem rsplitOnce_eq_none_iff : rsplitOnce sep xs = none ↔ sep ∉ xs := by
  induction xs with
  | nil => exact ⟨fun _ => List.not_mem_nil, fun _ => rfl⟩
  | cons x xs ih =>
    rw [rsplitOnce, List.mem_cons, not_or]
    cases hrest : rsplitOnce sep xs with
    | some parts => exact ⟨fun h => (nomatch h), fun h => nomatch hrest.symm.trans (ih.2 h.2)⟩
    | none =>
      dsimp only
      by_cases hx : x = sep
      · rw [if_pos hx]
        exact ⟨fun h => (nomatch h), fun h => absurd hx.symm h.1⟩
      · rw [if_neg hx]
        exact ⟨fun _ => ⟨Ne.symm hx, ih.1 hrest⟩, fun _ => rfl⟩

theorem rsplitOnce_append (front : List α) (h : sep ∉ last) :
    rsplitOnce sep (front ++ sep :: last) = some (front, last) := by
  induction front with
  | nil =>
    rw [List.nil_append, rsplitOnce, rsplitOnce_eq_none_iff.2 h]
    exact if_pos rfl
  | cons x front ih => rw [List.cons_append, rsplitOnce, ih]

/-- What is after the last separator has none. -/
theorem of_rsplitOnce (h : rsplitOnce sep xs = some (front, last)) : xs = front ++ sep :: last ∧ sep ∉ last := by
  induction xs generalizing front last with
  | nil => cases h
  | cons x xs ih =>
    rw [rsplitOnce] at h
    cases hrest : rsplitOnce sep xs with
    | some parts =>
      rw [hrest] at h
      cases h
      obtain ⟨hxs, hlast⟩ := ih hrest
      exact ⟨by rw [hxs, List.cons_append], hlast⟩
    | none =>
      rw [hrest] at h
      dsimp only at h
      by_cases hx : x = sep
      · rw [if_pos hx] at h
        cases h
        exact ⟨by rw [hx, List.nil_append], rsplitOnce_eq_none_iff.1 hrest⟩
      · rw [if_neg hx] at h
        cases h

/-- A field without a separator is read off the end. -/
theorem rsplitn_append (n : Nat) (front : List α) (h : sep ∉ last) :
    rsplitn sep (n + 2) (front ++ sep :: last) = last :: rsplitn sep (n + 1) front := by
  rw [rsplitn, rsplitOnce_append front h]

/-- The last of several fields was the end. -/
theorem of_rsplitn {n : Nat} {next : List α} {rest : List (List α)}
    (h : rsplitn sep (n + 2) xs = last :: next :: rest) :
    ∃ front, xs = front ++ sep :: last ∧ sep ∉ last ∧ rsplitn sep (n + 1) front = next :: rest := by
  rw [rsplitn] at h
  cases hsplit : rsplitOnce sep xs with
  | none =>
    rw [hsplit] at h
    cases h
  | some parts =>
    obtain ⟨front, end'⟩ := parts
    rw [hsplit] at h
    dsimp only at h
    obtain ⟨rfl, hrest⟩ := List.cons.inj h
    obtain ⟨hxs, hlast⟩ := of_rsplitOnce hsplit
    exact ⟨front, hxs, hlast, hrest⟩

end Fields

/-! ## Lines -/

def dropCr (line : List Char) : List Char := if line.getLast? = some '\r' then line.dropLast else line

/-- `str::lines`: a line ends in LF or CRLF, but for the last one, which need not. -/
def lines (text : List Char) : List (List Char) :=
  let parts := text.splitOn '\n'
  parts.dropLast.map dropCr ++ (if parts.getLastD [] = [] then [] else [parts.getLastD []])

theorem lines_single {text : List Char} (hne : text ≠ []) (h : '\n' ∉ text) : lines text = [text] := by
  have hlast : ([text] : List (List Char)).getLastD [] = text := rfl
  rw [lines, List.splitOn_eq_singleton h]
  simp only [hlast, if_neg hne]
  rfl

/-! ## White space -/

/-- `char::is_whitespace`. -/
def isWhitespace (c : Char) : Bool :=
  9 ≤ c.toNat && c.toNat ≤ 13 || 0x2000 ≤ c.toNat && c.toNat ≤ 0x200a ||
    [0x20, 0x85, 0xa0, 0x1680, 0x2028, 0x2029, 0x202f, 0x205f, 0x3000].contains c.toNat

def trim (text : List Char) : List Char := (text.dropWhile isWhitespace).rdropWhile isWhitespace

def splitWhitespace (text : List Char) : List (List Char) := (text.splitOnP isWhitespace).filter fun part => part ≠ []

/-! ## Decimal numbers -/

/-- `parse` for an unsigned type: decimal digits after an optional plus sign, of a number below `limit`. -/
def parseUnsigned (limit : Nat) (text : List Char) : Option Nat :=
  let digits := if text.head? = some '+' then text.tail else text
  if digits ≠ [] ∧ digits.all Char.isDigit ∧ Nat.ofDigitChars 10 digits 0 < limit then
    some (Nat.ofDigitChars 10 digits 0)
  else none

/-- `parse` for a signed type of `bits` bits. -/
def parseSigned (bits : Nat) (text : List Char) : Option Int :=
  if text.head? = some '-' then
    if text.tail.head? = some '+' then none
    else (parseUnsigned (2 ^ (bits - 1) + 1) text.tail).map fun n => -(n : Int)
  else (parseUnsigned (2 ^ (bits - 1)) text).map fun n => (n : Int)

theorem isDigit_of_mem_toDigits {n : Nat} {c : Char} (h : c ∈ Nat.toDigits 10 n) : c.isDigit = true :=
  Nat.isDigit_of_mem_toDigits (by decide) (by decide) h

theorem not_mem_toDigits {n : Nat} {c : Char} (hc : c.isDigit = false) : c ∉ Nat.toDigits 10 n := fun h =>
  absurd (isDigit_of_mem_toDigits h) (by rw [hc]; decide)

/-- A number that is written is read. -/
theorem parseUnsigned_toDigits {limit n : Nat} (h : n < limit) : parseUnsigned limit (Nat.toDigits 10 n) = some n := by
  have hplus : (Nat.toDigits 10 n).head? ≠ some '+' := fun hhead =>
    not_mem_toDigits (by decide) (List.mem_of_head? hhead)
  have hall : (Nat.toDigits 10 n).all Char.isDigit = true := List.all_eq_true.2 fun c => isDigit_of_mem_toDigits
  rw [parseUnsigned, if_neg hplus, Nat.ofDigitChars_ten_toDigits, if_pos ⟨Nat.toDigits_ne_nil, hall, h⟩]

end BridgeVm.Lib
