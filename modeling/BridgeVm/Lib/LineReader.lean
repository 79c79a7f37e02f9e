import Mathlib.Data.List.TakeWhile
import Mathlib.Tactic.Linarith

/-!
# Bounded lines of a chunked stream

A source hands out its bytes in chunks of any size, with interruptions and failures in between. A reader collects a line
up to its separator and keeps what it has of one when the source fails; a line of more than `limit` bytes is refused.
What the reader's calls give is what the bytes alone give (`calls_results`): chunks do not show, and no byte is lost or
read twice.
-/

namespace BridgeVm.Lib

universe u

variable {ε : Type u}

/-- What a source answers when it is asked for bytes; after the last answer it is at its end. -/
inductive Fill (ε : Type u)
  | data (first : UInt8) (rest : List UInt8)
  | interrupted
  | failed (e : ε)

/-- The bytes of the answers. -/
def fillBytes : List (Fill ε) → List UInt8
  | [] => []
  | .data first rest :: fills => first :: rest ++ fillBytes fills
  | .interrupted :: fills | .failed _ :: fills => fillBytes fills

/-- The failures of a source, in order. -/
def failures : List (Fill ε) → List ε
  | [] => []
  | .data _ _ :: fills | .interrupted :: fills => failures fills
  | .failed e :: fills => e :: failures fills

/-- What a call of the reader gives. -/
inductive LineRead (ε : Type u)
  | line (bytes : List UInt8)
  | eof
  | tooLong
  | failed (e : ε)

def LineRead.failure? : LineRead ε → Option ε
  | .failed e => some e
  | _ => none

structure LineReader (ε : Type u) where
  /-- What has been read of a line that is not complete. -/
  pending : List UInt8
  /-- What is left of the last chunk. -/
  buffer : List UInt8
  fills : List (Fill ε)

namespace LineReader

variable {sep : UInt8} {limit : Nat} {r r' : LineReader ε} {pending buffer bytes : List UInt8} {fills : List (Fill ε)}
  {res : LineRead ε}

/-- The bytes that no line has been made of. -/
def unread (r : LineReader ε) : List UInt8 := r.pending ++ r.buffer ++ fillBytes r.fills

/-- How much of a chunk belongs to the line: through the separator, or all of it. -/
def consumed (sep : UInt8) (buffer : List UInt8) : Nat :=
  match buffer.findIdx? (· = sep) with
  | some index => index + 1
  | none => buffer.length

/-- One chunk: the line is complete or too long, or its bytes are pending. -/
def takeChunk (sep : UInt8) (limit : Nat) (pending buffer : List UInt8) (fills : List (Fill ε)) :
    LineRead ε × LineReader ε ⊕ List UInt8 :=
  if limit - pending.length < consumed sep buffer then .inl (.tooLong, { pending, buffer, fills })
  else
    let pending := pending ++ buffer.take (consumed sep buffer)
    if sep ∈ buffer then .inl (.line pending, { pending := [], buffer := buffer.drop (consumed sep buffer), fills })
    else .inr pending

/-- The loop over the chunks to come. -/
def readFills (sep : UInt8) (limit : Nat) : List UInt8 → List (Fill ε) → LineRead ε × LineReader ε
  | pending, [] => (if pending = [] then .eof else .line pending, { pending := [], buffer := [], fills := [] })
  | pending, .interrupted :: fills => readFills sep limit pending fills
  | pending, .failed e :: fills => (.failed e, { pending, buffer := [], fills })
  | pending, .data first rest :: fills =>
    match takeChunk sep limit pending (first :: rest) fills with
    | .inl result => result
    | .inr pending => readFills sep limit pending fills

/-- One call; what is left of the last chunk comes first. -/
def readLine (sep : UInt8) (limit : Nat) (r : LineReader ε) : LineRead ε × LineReader ε :=
  if r.buffer = [] then readFills sep limit r.pending r.fills
  else
    match takeChunk sep limit r.pending r.buffer r.fills with
    | .inl result => result
    | .inr pending => readFills sep limit pending r.fills

/-! ## The lines of the bytes alone -/

/-- The next line of a stream, and what is left of it. -/
def cut (sep : UInt8) (limit : Nat) (bytes : List UInt8) : LineRead ε × List UInt8 :=
  if bytes = [] then (.eof, [])
  else if limit < consumed sep bytes then (.tooLong, bytes)
  else (.line (bytes.take (consumed sep bytes)), bytes.drop (consumed sep bytes))

/-- The results of a number of reads. -/
def cuts (sep : UInt8) (limit : Nat) : Nat → List UInt8 → List (LineRead ε)
  | 0, _ => []
  | n + 1, bytes => (cut sep limit bytes).1 :: cuts sep limit n (cut (ε := ε) sep limit bytes).2

theorem consumed_of_not_mem (h : sep ∉ buffer) : consumed sep buffer = buffer.length := by
  unfold consumed
  rw [List.findIdx?_eq_none_iff.mpr fun b hb => by simpa using fun he : b = sep => h (he ▸ hb)]

/-- Bytes before the separator, and the separator. -/
theorem consumed_append (h : sep ∉ pending) (bytes : List UInt8) :
    consumed sep (pending ++ bytes) = pending.length + consumed sep bytes := by
  have hnone : pending.findIdx? (· = sep) = none :=
    List.findIdx?_eq_none_iff.mpr fun b hb => by simpa using fun he : b = sep => h (he ▸ hb)
  unfold consumed
  rw [List.findIdx?_append, hnone]
  cases bytes.findIdx? (· = sep) with
  | none => simp
  | some i =>
    simp
    omega

/-- A chunk with the separator in it decides what belongs to the line. -/
theorem consumed_append_of_mem (h : sep ∈ buffer) (bytes : List UInt8) :
    consumed sep (buffer ++ bytes) = consumed sep buffer := by
  unfold consumed
  rw [List.findIdx?_append]
  cases hidx : buffer.findIdx? (· = sep) with
  | none => exact absurd (List.findIdx?_eq_none_iff.mp hidx sep h) (by simp)
  | some i => rfl

theorem consumed_le (sep : UInt8) (buffer : List UInt8) : consumed sep buffer ≤ buffer.length := by
  unfold consumed
  split
  · rename_i i hidx
    exact (List.findIdx?_eq_some_iff_getElem.mp hidx).1
  · exact le_refl _

/-! ## One call -/

/-- What is pending is the start of one line, within the limit. -/
structure WF (sep : UInt8) (limit : Nat) (r : LineReader ε) : Prop where
  open_line : sep ∉ r.pending
  fits : r.pending.length ≤ limit

/-- What a call does: a failure loses no byte, and every other result is the next line of the bytes. -/
structure Reads (sep : UInt8) (limit : Nat) (bytes : List UInt8) (fails : List ε) (res : LineRead ε)
    (r' : LineReader ε) :
    Prop where
  wf : r'.WF sep limit
  fails : fails = res.failure?.toList ++ failures r'.fills
  kept : res.failure? ≠ none → r'.unread = bytes
  next : res.failure? = none → cut sep limit bytes = (res, r'.unread)

theorem cut_of_mem (hp : sep ∉ pending) (hmem : sep ∈ buffer) (rest : List UInt8) :
    cut (ε := ε) sep limit (pending ++ buffer ++ rest) =
      if limit - pending.length < consumed sep buffer ∧ pending.length ≤ limit ∨ limit < pending.length then
        (.tooLong, pending ++ buffer ++ rest)
      else
        (.line (pending ++ buffer.take (consumed sep buffer)), buffer.drop (consumed sep buffer) ++ rest) := by
  have hconsumed : consumed sep (pending ++ buffer ++ rest) = pending.length + consumed sep buffer := by
    rw [List.append_assoc, consumed_append hp, consumed_append_of_mem hmem]
  have hne : pending ++ buffer ++ rest ≠ [] := by
    have hbuffer := List.ne_nil_of_mem hmem
    simp [hbuffer]
  have hpos : 0 < consumed sep buffer := by
    unfold consumed
    split
    · exact Nat.succ_pos _
    · exact List.length_pos_of_mem hmem
  have hle := consumed_le sep buffer
  have htake : (pending ++ buffer ++ rest).take (pending.length + consumed sep buffer) =
      pending ++ buffer.take (consumed sep buffer) := by
    rw [List.append_assoc, List.take_length_add_append, List.take_append_of_le_length hle]
  have hdrop : (pending ++ buffer ++ rest).drop (pending.length + consumed sep buffer) =
      buffer.drop (consumed sep buffer) ++ rest := by
    rw [List.append_assoc, List.drop_length_add_append, List.drop_append_of_le_length hle]
  unfold cut
  rw [if_neg hne, hconsumed, htake, hdrop]
  exact if_congr (by omega) rfl rfl

/-- One chunk: the call returns, or all of the chunk is pending. -/
theorem takeChunk_spec (hp : sep ∉ pending) (hfits : pending.length ≤ limit) (buffer : List UInt8)
    (fills : List (Fill ε)) :
    match takeChunk sep limit pending buffer fills with
    | .inl result => Reads sep limit (pending ++ buffer ++ fillBytes fills) (failures fills) result.1 result.2
    | .inr pending' => pending' = pending ++ buffer ∧ sep ∉ pending' ∧ pending'.length ≤ limit := by
  unfold takeChunk
  have hle := consumed_le sep buffer
  by_cases hlong : limit - pending.length < consumed sep buffer
  · rw [if_pos hlong]
    refine ⟨⟨hp, hfits⟩, rfl, fun hf => absurd rfl hf, fun _ => ?_⟩
    by_cases hmem : sep ∈ buffer
    · rw [cut_of_mem hp hmem, if_pos (.inl ⟨hlong, hfits⟩)]
      rfl
    · have hlen : limit < consumed sep (pending ++ buffer ++ fillBytes fills) := by
        rw [consumed_of_not_mem hmem] at hlong
        rw [consumed_append (by simp [hp, hmem])]
        simp only [List.length_append]
        omega
      have hne : pending ++ buffer ++ fillBytes fills ≠ [] := by
        intro hnil
        rw [hnil] at hlen
        exact Nat.not_lt_zero _ hlen
      unfold cut
      rw [if_neg hne, if_pos hlen]
      rfl
  · rw [if_neg hlong]
    by_cases hmem : sep ∈ buffer
    · rw [if_pos hmem]
      refine ⟨⟨by simp, Nat.zero_le _⟩, rfl, fun hf => absurd rfl hf, fun _ => ?_⟩
      rw [cut_of_mem hp hmem, if_neg (by omega)]
      rfl
    · rw [if_neg hmem, consumed_of_not_mem hmem, List.take_length]
      rw [consumed_of_not_mem hmem] at hlong
      refine ⟨rfl, by simp [hp, hmem], ?_⟩
      rw [List.length_append]
      omega

/-- The loop over the chunks to come. -/
theorem readFills_spec (hp : sep ∉ pending) (hfits : pending.length ≤ limit) (fills : List (Fill ε)) :
    Reads sep limit (pending ++ fillBytes fills) (failures fills) (readFills sep limit pending fills).1
      (readFills sep limit pending fills).2 := by
  induction fills generalizing pending with
  | nil =>
    unfold readFills
    dsimp only
    refine ⟨⟨by simp, Nat.zero_le _⟩, ?_, fun hf => ?_, fun _ => ?_⟩
    · split <;> rfl
    · split at hf <;> exact absurd rfl hf
    · rw [fillBytes, List.append_nil]
      unfold cut
      by_cases hnil : pending = []
      · rw [if_pos hnil, if_pos hnil]
        rfl
      · rw [if_neg hnil, if_neg hnil, consumed_of_not_mem hp, if_neg (by omega), List.take_length, List.drop_length]
        rfl
  | cons fill fills ih =>
    cases fill with
    | interrupted => exact ih hp hfits
    | failed e => exact ⟨⟨hp, hfits⟩, rfl,
      fun _ => by simp [readFills, unread, fillBytes], fun hf => by cases hf⟩
    | data first rest =>
      unfold readFills
      have hspec := takeChunk_spec hp hfits (first :: rest) fills
      cases hchunk : takeChunk sep limit pending (first :: rest) fills with
      | inl result =>
        rw [hchunk] at hspec
        rw [List.append_assoc] at hspec
        exact hspec
      | inr pending' =>
        rw [hchunk] at hspec
        obtain ⟨rfl, hp', hfits'⟩ := hspec
        have htail := ih hp' hfits'
        rw [List.append_assoc] at htail
        exact htail

/-- **What a call does.** -/
theorem readLine_spec (h : r.WF sep limit) :
    Reads sep limit r.unread (failures r.fills) (readLine sep limit r).1 (readLine sep limit r).2 := by
  unfold readLine unread
  by_cases hbuffer : r.buffer = []
  · rw [if_pos hbuffer, hbuffer, List.append_nil]
    exact readFills_spec h.open_line h.fits r.fills
  · rw [if_neg hbuffer]
    have hspec := takeChunk_spec h.open_line h.fits r.buffer r.fills
    cases hchunk : takeChunk sep limit r.pending r.buffer r.fills with
    | inl result =>
      rw [hchunk] at hspec
      exact hspec
    | inr pending' =>
      rw [hchunk] at hspec
      obtain ⟨rfl, hp', hfits'⟩ := hspec
      exact readFills_spec hp' hfits' r.fills

/-! ## All calls -/

/-- The results of a number of calls. -/
def calls (sep : UInt8) (limit : Nat) : Nat → LineReader ε → List (LineRead ε)
  | 0, _ => []
  | n + 1, r => (readLine sep limit r).1 :: calls sep limit n (readLine sep limit r).2

/-- **The failures that the calls give are those of the source, in order, and all other results are those of the bytes
alone: they do not depend on the chunks, on interruptions or on when the source fails.** -/
theorem calls_results (h : r.WF sep limit) (n : Nat) : ∃ k ≤ min n (failures r.fills).length,
    (calls sep limit n r).filterMap LineRead.failure? = (failures r.fills).take k ∧
    (calls sep limit n r).filter (fun res => res.failure?.isNone) = cuts sep limit (n - k) r.unread := by
  induction n generalizing r with
  | zero => exact ⟨0, Nat.zero_le _, rfl, rfl⟩
  | succ n ih =>
    have hspec := readLine_spec h
    obtain ⟨k, hk, hfailures, htail⟩ := ih hspec.wf
    have hfails := hspec.fails
    rw [calls, List.filter_cons, List.filterMap_cons, htail, hfailures]
    cases hfailed : (readLine sep limit r).1.failure? with
    | some e =>
      rw [hfailed] at hfails
      refine ⟨k + 1, ?_, ?_, ?_⟩
      · rw [hfails, Option.toList_some, List.cons_append, List.length_cons, List.nil_append]
        omega
      · rw [hfails]
        rfl
      · rw [if_neg (by simp), hspec.kept (by simp [hfailed]), Nat.add_sub_add_right]
    | none =>
      rw [hfailed] at hfails
      have hsame : failures r.fills = failures (readLine sep limit r).2.fills := hfails
      rw [hsame]
      refine ⟨k, by omega, rfl, ?_⟩
      have hn : n + 1 - k = (n - k) + 1 := by omega
      rw [if_pos (by simp), hn, cuts, hspec.next hfailed]

/-! ## Lines that are written -/

/-- A line within the limit is cut off. -/
theorem cut_line {line : List UInt8} (hsep : sep ∉ line) (hlimit : line.length < limit) (rest : List UInt8) :
    cut (ε := ε) sep limit (line ++ [sep] ++ rest) = (.line (line ++ [sep]), rest) := by
  have hone : consumed sep [sep] = 1 := by simp [consumed]
  rw [cut_of_mem hsep List.mem_cons_self, hone, if_neg (by omega)]
  rfl

/-- Lines that were written come back one by one, and then the end. -/
theorem cuts_lines {lines : List (List UInt8)} (h : ∀ line ∈ lines, sep ∉ line ∧ line.length < limit)
    (n : Nat) :
    cuts (ε := ε) sep limit n (lines.flatMap fun line => line ++ [sep]) =
      (lines.map (fun line => LineRead.line (line ++ [sep])) ++ List.replicate n LineRead.eof).take n := by
  induction n generalizing lines with
  | zero => rfl
  | succ n ih =>
    cases lines with
    | nil =>
      have htail := @ih [] (by simp)
      rw [List.flatMap_nil, List.map_nil, List.nil_append] at htail ⊢
      have hcut : cut (ε := ε) sep limit [] = (.eof, []) := rfl
      rw [cuts, hcut, htail, List.replicate_succ, List.take_succ_cons]
    | cons line lines =>
      obtain ⟨hsep, hlimit⟩ := h line List.mem_cons_self
      have hmore (xs : List (LineRead ε)) :
          (xs ++ List.replicate (n + 1) LineRead.eof).take n = (xs ++ List.replicate n LineRead.eof).take n := by
        rw [List.replicate_succ', ← List.append_assoc, List.take_append_of_le_length]
        simp
      rw [cuts, List.flatMap_cons, cut_line hsep hlimit, ih fun l hl => h l (List.mem_cons_of_mem _ hl), List.map_cons,
        List.cons_append, List.take_succ_cons, hmore]

end LineReader

end BridgeVm.Lib
