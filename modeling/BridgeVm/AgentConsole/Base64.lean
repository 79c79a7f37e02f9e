import BridgeVm.Lib.Chunks
import Mathlib.Tactic.Common
import Mathlib.Tactic.Linarith

/-!
# Base64 on the agent wire

`base64_encode_into` and `base64_decode` of `protocol.rs`. A text is the list of its UTF-8 bytes. `Decodes` says which
texts stand for which bytes: groups of four characters of the alphabet, of which the last may end in one or two `=`. The
decoder accepts these and nothing else (`base64Decode_eq_ok_iff`), and what is encoded is one of them
(`decodes_base64Encode`).
-/

namespace BridgeVm.AgentConsole.Base64

open Lib

/-! ## Encoder and decoder -/

/-- `TABLE`. -/
def table : List UInt8 :=
  "ABCDEFGHIJKLMNOPQRSTUVWXYZabcdefghijklmnopqrstuvwxyz0123456789+/".toList.map fun c => c.val.toUInt8

def equals : UInt8 := 61

/-- The four characters of up to three bytes. -/
def encodeChunk (chunk : List UInt8) : List UInt8 :=
  let b0 := chunk.getD 0 0
  let b1 := chunk.getD 1 0
  let b2 := chunk.getD 2 0
  [table.getD (b0 >>> 2).toNat 0, table.getD (((b0 &&& 0x03) <<< 4) ||| (b1 >>> 4)).toNat 0,
    if chunk.length ≥ 2 then table.getD (((b1 &&& 0x0f) <<< 2) ||| (b2 >>> 6)).toNat 0 else equals,
    if chunk.length = 3 then table.getD (b2 &&& 0x3f).toNat 0 else equals]

/-- `base64_encode_into`. -/
def base64Encode (bytes : List UInt8) : List UInt8 := (chunks 3 bytes).flatMap encodeChunk

inductive Base64DecodeError
  | byte
  | length
  | padding
deriving DecidableEq

/-- The value of a character of the alphabet. -/
def sextet (byte : UInt8) : Option UInt8 :=
  if 65 ≤ byte ∧ byte ≤ 90 then some (byte - 65)
  else if 97 ≤ byte ∧ byte ≤ 122 then some (byte - 97 + 26)
  else if 48 ≤ byte ∧ byte ≤ 57 then some (byte - 48 + 52)
  else if byte = 43 then some 62
  else if byte = 47 then some 63
  else none

/-- What is known of a group while its characters are read; `sawPadding` outlives the group. -/
structure Group where
  vals : List UInt8
  padding : Nat
  sawPadding : Bool

/-- Character `i` of a group. -/
def decodeChar (g : Group) (i : Nat) (byte : UInt8) : Except Base64DecodeError Group :=
  match if g.sawPadding then none else sextet byte with
  | some value => .ok { g with vals := g.vals.set i value }
  | none =>
    if byte = equals then
      if i < 2 then .error .padding else .ok { g with sawPadding := true, padding := g.padding + 1 }
    else .error .byte

/-- The characters of a group from the `i`-th on. -/
def decodeChars (g : Group) (i : Nat) : List UInt8 → Except Base64DecodeError Group
  | [] => .ok g
  | byte :: rest =>
    match decodeChar g i byte with
    | .error e => .error e
    | .ok g => decodeChars g (i + 1) rest

/-- The bytes of a group; shifts drop what leaves the byte. -/
def groupBytes (g : Group) : List UInt8 :=
  let v := fun i => g.vals.getD i 0
  [(v 0 <<< 2) ||| (v 1 >>> 4)] ++ (if g.padding < 2 then [(v 1 <<< 4) ||| (v 2 >>> 2)] else []) ++
    (if g.padding = 0 then [(v 2 <<< 6) ||| v 3] else [])

/-- One group: its bytes, and whether padding was seen. -/
def decodeGroup (sawPadding : Bool) (chunk : List UInt8) : Except Base64DecodeError (List UInt8 × Bool) :=
  match decodeChars { vals := [0, 0, 0, 0], padding := 0, sawPadding } 0 chunk with
  | .error e => .error e
  | .ok g =>
    if g.padding > 2 then .error .padding
    else if g.padding > 0 ∧ chunk.getD 3 0 ≠ equals then .error .padding
    else .ok (groupBytes g, g.sawPadding)

def decodeGroups (sawPadding : Bool) : List (List UInt8) → Except Base64DecodeError (List UInt8)
  | [] => .ok []
  | chunk :: rest =>
    match decodeGroup sawPadding chunk with
    | .error e => .error e
    | .ok (bytes, sawPadding) =>
      match decodeGroups sawPadding rest with
      | .error e => .error e
      | .ok out => .ok (bytes ++ out)

/-- `base64_decode`. -/
def base64Decode (text : List UInt8) : Except Base64DecodeError (List UInt8) :=
  if text.length % 4 ≠ 0 then .error .length else decodeGroups false (chunks 4 text)

/-! ## Which texts stand for which bytes -/

/-- `byte` is the character of the alphabet with this value. -/
def Stands (byte : UInt8) (value : Nat) : Prop := table[value]? = some byte

/-- Groups of four characters of the alphabet, each the digits of a number of three bytes; the last may end in one or
two `=`, and the low bits it then has too many are no part of a byte. -/
inductive Decodes : List UInt8 → List UInt8 → Prop
  | nil : Decodes [] []
  | full {a b c d : UInt8} {w x y z : Nat} {n : Nat} {text bytes : List UInt8} (ha : Stands a w) (hb : Stands b x)
      (hc : Stands c y) (hd : Stands d z) (hn : n = ((w * 64 + x) * 64 + y) * 64 + z) (hrest : Decodes text bytes) :
      Decodes (a :: b :: c :: d :: text)
        (UInt8.ofNat (n / 65536) :: UInt8.ofNat (n / 256 % 256) :: UInt8.ofNat (n % 256) :: bytes)
  | one {a b c : UInt8} {w x y : Nat} {n : Nat} (ha : Stands a w) (hb : Stands b x) (hc : Stands c y)
      (hn : n = (w * 64 + x) * 64 + y) :
      Decodes [a, b, c, equals] [UInt8.ofNat (n / 1024), UInt8.ofNat (n / 4 % 256)]
  | two {a b : UInt8} {w x : Nat} {n : Nat} (ha : Stands a w) (hb : Stands b x) (hn : n = w * 64 + x) :
      Decodes [a, b, equals, equals] [UInt8.ofNat (n / 16)]

/-! ## The alphabet -/

theorem table_eq : table = (List.range' 65 26 ++ List.range' 97 26 ++ List.range' 48 10 ++ [43, 47]).map UInt8.ofNat :=
  (congrArg (List.map fun c : Char => c.val.toUInt8) (String.toList_ofList (l := _))).trans (by decide +kernel)

theorem length_table : table.length = 64 := by
  rw [table_eq]
  rfl

theorem sextet_table : ∀ i : Fin 64, sextet (table.getD i 0) = some (UInt8.ofNat i) := by
  rw [table_eq]
  decide +kernel

theorem table_sextet : ∀ i : Fin 256,
    ((sextet (UInt8.ofNat i)).all fun v => table[v.toNat]? == some (UInt8.ofNat i)) =
    true := by
  rw [table_eq]
  decide +kernel

theorem stands_getD {value : Nat} (h : value < 64) : Stands (table.getD value 0) value := by
  have hlt : value < table.length := by rw [length_table]; exact h
  rw [Stands, List.getD_eq_getElem?_getD, List.getElem?_eq_getElem hlt, Option.getD_some]

theorem stands_iff {byte : UInt8} {value : Nat} : Stands byte value ↔ ∃ v, sextet byte = some v ∧
    v.toNat = value := by
  constructor
  · intro h
    have hlt : value < 64 := length_table ▸ (List.getElem?_eq_some_iff.1 h).1
    have hbyte : table.getD value 0 = byte := by
      rw [List.getD_eq_getElem?_getD, show table[value]? = some byte from h, Option.getD_some]
    have hsextet := sextet_table ⟨value, hlt⟩
    rw [show table.getD (⟨value, hlt⟩ : Fin 64) 0 = byte from hbyte] at hsextet
    exact ⟨_, hsextet, UInt8.toNat_ofNat_of_lt' (show value < 256 by omega)⟩
  · rintro ⟨v, hv, rfl⟩
    have hall := table_sextet ⟨byte.toNat, byte.toNat_lt⟩
    dsimp only at hall
    rw [UInt8.ofNat_toNat, hv, Option.all_some, beq_iff_eq] at hall
    exact hall

theorem Stands.lt {byte : UInt8} {value : Nat} (h : Stands byte value) : value < 64 :=
  length_table ▸ (List.getElem?_eq_some_iff.1 h).1

theorem sextet_lt {byte v : UInt8} (h : sextet byte = some v) : v.toNat < 64 := (stands_iff.2 ⟨v, h, rfl⟩).lt

theorem sextet_equals : sextet equals = none := by
  decide

/-! ## One group -/

theorem toNat_shiftLeft_or {u v : UInt8} {i : UInt8} (hi : i.toNat < 8) (hv : v.toNat < 2 ^ i.toNat) :
    ((u <<< i) ||| v).toNat = u.toNat % 2 ^ (8 - i.toNat) * 2 ^ i.toNat + v.toNat := by
  have hmod : u.toNat <<< i.toNat % 2 ^ 8 = (u.toNat % 2 ^ (8 - i.toNat)) <<< i.toNat := by
    rw [Nat.shiftLeft_eq, Nat.shiftLeft_eq, ← Nat.mul_mod_mul_right, ← Nat.pow_add,
      show 8 - i.toNat + i.toNat = 8 by omega]
  rw [UInt8.toNat_or, UInt8.toNat_shiftLeft, Nat.mod_eq_of_lt hi, hmod, ← Nat.shiftLeft_add_eq_or_of_lt hv,
    Nat.shiftLeft_eq]

theorem toNat_shiftRight_lit (v : UInt8) {j : UInt8} (hj : j.toNat < 8) : (v >>> j).toNat = v.toNat / 2 ^ j.toNat := by
  rw [UInt8.toNat_shiftRight, Nat.mod_eq_of_lt hj, Nat.shiftRight_eq_div_pow]

theorem firstByte (w x : UInt8) (hx : x.toNat < 64) :
    ((w <<< 2) ||| (x >>> 4)).toNat = w.toNat % 64 * 4 + x.toNat / 16 := by
  have hshift : (x >>> 4).toNat = x.toNat / 16 := toNat_shiftRight_lit x (by decide)
  have hor := toNat_shiftLeft_or (u := w) (v := x >>> 4) (i := 2) (by decide) (by
    rw [hshift]
    exact Nat.div_lt_of_lt_mul hx)
  rw [hor, hshift]
  rfl

theorem secondByte (x y : UInt8) (hy : y.toNat < 64) :
    ((x <<< 4) ||| (y >>> 2)).toNat = x.toNat % 16 * 16 + y.toNat / 4 := by
  have hshift : (y >>> 2).toNat = y.toNat / 4 := toNat_shiftRight_lit y (by decide)
  have hor := toNat_shiftLeft_or (u := x) (v := y >>> 2) (i := 4) (by decide) (by
    rw [hshift]
    exact Nat.div_lt_of_lt_mul hy)
  rw [hor, hshift]
  rfl

theorem thirdByte (y z : UInt8) (hz : z.toNat < 64) : ((y <<< 6) ||| z).toNat = y.toNat % 4 * 64 + z.toNat :=
  toNat_shiftLeft_or (u := y) (v := z) (i := 6) (by decide) hz

variable {a b c d w x y z : UInt8} {saw after : Bool} {text bytes : List UInt8}

section

attribute [local simp] decodeGroup decodeChars decodeChar groupBytes

theorem decodeGroup_full (ha : sextet a = some w) (hb : sextet b = some x) (hc : sextet c = some y)
    (hd : sextet d = some z) :
    decodeGroup false [a, b, c, d] = .ok ([(w <<< 2) ||| (x >>> 4), (x <<< 4) ||| (y >>> 2), (y <<< 6) ||| z],
      false) := by
  simp [ha, hb, hc, hd]

theorem decodeGroup_one (ha : sextet a = some w) (hb : sextet b = some x) (hc : sextet c = some y) :
    decodeGroup false [a, b, c, equals] = .ok ([(w <<< 2) ||| (x >>> 4), (x <<< 4) ||| (y >>> 2)], true) := by
  simp [ha, hb, hc, sextet_equals]

theorem decodeGroup_two (ha : sextet a = some w) (hb : sextet b = some x) :
    decodeGroup false [a, b, equals, equals] = .ok ([(w <<< 2) ||| (x >>> 4)], true) := by
  simp [ha, hb, sextet_equals]

theorem decodeGroup_sawPadding : decodeGroup true (a :: text) ≠ .ok (bytes, after) := by
  by_cases ha : a = equals <;> simp [ha]

/-- A group that is read has characters of the alphabet, but for one or two `=` at its end. -/
theorem decodeGroup_cases (h : decodeGroup saw [a, b, c, d] = .ok (bytes, after)) :
    saw = false ∧ ∃ w x, sextet a = some w ∧ sextet b = some x ∧
      ((∃ y z, sextet c = some y ∧ sextet d = some z) ∨ (∃ y, sextet c = some y ∧ d = equals) ∨
        c = equals ∧ d = equals) := by
  cases saw with
  | true => exact absurd h decodeGroup_sawPadding
  | false =>
    cases ha : sextet a with
    | none => by_cases ha' : a = equals <;> simp [ha, ha', sextet_equals] at h
    | some w =>
      cases hb : sextet b with
      | none => by_cases hb' : b = equals <;> simp [ha, hb, hb', sextet_equals] at h
      | some x =>
        refine ⟨rfl, w, x, rfl, rfl, ?_⟩
        cases hc : sextet c with
        | none =>
          by_cases hc' : c = equals
          · by_cases hd' : d = equals
            · exact .inr (.inr ⟨hc', hd'⟩)
            · simp [ha, hb, hc', hd', sextet_equals] at h
          · simp [ha, hb, hc, hc'] at h
        | some y =>
          cases hd : sextet d with
          | none =>
            by_cases hd' : d = equals
            · exact .inr (.inl ⟨y, rfl, hd'⟩)
            · simp [ha, hb, hc, hd, hd'] at h
          | some z => exact .inl ⟨y, z, rfl, rfl⟩

end

/-! ## The bytes of a group are those of its number -/

theorem ofNat_eq {u : UInt8} {n : Nat} (h : u.toNat = n) : u = UInt8.ofNat n := by
  rw [← h, UInt8.ofNat_toNat]

theorem fullBytes (hw : w.toNat < 64) (hx : x.toNat < 64) (hy : y.toNat < 64) (hz : z.toNat < 64) {n : Nat}
    (hn : n = ((w.toNat * 64 + x.toNat) * 64 + y.toNat) * 64 + z.toNat) :
    [(w <<< 2) ||| (x >>> 4), (x <<< 4) ||| (y >>> 2), (y <<< 6) ||| z] =
      [UInt8.ofNat (n / 65536), UInt8.ofNat (n / 256 % 256), UInt8.ofNat (n % 256)] := by
  have hfirst : ((w <<< 2) ||| (x >>> 4)) = UInt8.ofNat (n / 65536) := ofNat_eq (by rw [firstByte w x hx]; omega)
  have hsecond : ((x <<< 4) ||| (y >>> 2)) = UInt8.ofNat (n / 256 % 256) := ofNat_eq (by rw [secondByte x y hy]; omega)
  have hthird : ((y <<< 6) ||| z) = UInt8.ofNat (n % 256) := ofNat_eq (by rw [thirdByte y z hz]; omega)
  rw [hfirst, hsecond, hthird]

theorem oneBytes (hw : w.toNat < 64) (hx : x.toNat < 64) (hy : y.toNat < 64) {n : Nat}
    (hn : n = (w.toNat * 64 + x.toNat) * 64 + y.toNat) :
    [(w <<< 2) ||| (x >>> 4), (x <<< 4) ||| (y >>> 2)] = [UInt8.ofNat (n / 1024), UInt8.ofNat (n / 4 % 256)] := by
  have hfirst : ((w <<< 2) ||| (x >>> 4)) = UInt8.ofNat (n / 1024) := ofNat_eq (by rw [firstByte w x hx]; omega)
  have hsecond : ((x <<< 4) ||| (y >>> 2)) = UInt8.ofNat (n / 4 % 256) := ofNat_eq (by rw [secondByte x y hy]; omega)
  rw [hfirst, hsecond]

theorem twoBytes (hw : w.toNat < 64) (hx : x.toNat < 64) {n : Nat} (hn : n = w.toNat * 64 + x.toNat) :
    [(w <<< 2) ||| (x >>> 4)] = [UInt8.ofNat (n / 16)] := by
  rw [ofNat_eq (show ((w <<< 2) ||| (x >>> 4)).toNat = n / 16 by rw [firstByte w x hx]; omega)]

/-! ## Decoding -/

theorem Decodes.length_mod (h : Decodes text bytes) : text.length % 4 = 0 := by
  induction h with
  | nil => rfl
  | full ha hb hc hd hn hrest ih =>
    simp only [List.length_cons]
    omega
  | one ha hb hc hn => exact Nat.mod_self 4
  | two ha hb hn => exact Nat.mod_self 4

theorem Decodes.length_eq (h : Decodes text bytes) : text.length = 4 * ((bytes.length + 2) / 3) := by
  induction h with
  | nil => rfl
  | full ha hb hc hd hn hrest ih =>
    simp only [List.length_cons]
    omega
  | one ha hb hc hn | two ha hb hn => simp only [List.length_cons, List.length_nil]

theorem decodeGroups_cons {chunk : List UInt8} {rest : List (List UInt8)} {first out : List UInt8}
    (hfirst : decodeGroup saw chunk = .ok (first, after)) (hrest : decodeGroups after rest = .ok out) :
    decodeGroups saw (chunk :: rest) = .ok (first ++ out) := by
  rw [decodeGroups, hfirst]
  dsimp only
  rw [hrest]

theorem of_decodeGroups_cons {chunk : List UInt8} {rest : List (List UInt8)} {out : List UInt8}
    (h : decodeGroups saw (chunk :: rest) = .ok out) :
    ∃ first after more, decodeGroup saw chunk = .ok (first, after) ∧ decodeGroups after rest = .ok more ∧
      out = first ++ more := by
  rw [decodeGroups] at h
  cases hfirst : decodeGroup saw chunk with
  | error e =>
    rw [hfirst] at h
    cases h
  | ok read =>
    obtain ⟨first, after⟩ := read
    rw [hfirst] at h
    dsimp only at h
    cases hrest : decodeGroups after rest with
    | error e =>
      rw [hrest] at h
      cases h
    | ok more =>
      rw [hrest] at h
      cases h
      exact ⟨first, after, more, rfl, hrest, rfl⟩

theorem nil_of_decodeGroups_sawPadding (h : decodeGroups true (chunks 4 text) = .ok bytes) :
    text = [] ∧ bytes = [] := by
  cases text with
  | nil =>
    rw [chunks_nil] at h
    cases h
    exact ⟨rfl, rfl⟩
  | cons a text =>
    rw [chunks, dif_pos ⟨by decide, List.cons_ne_nil _ _⟩, List.take_succ_cons] at h
    obtain ⟨first, after, more, hfirst, -⟩ := of_decodeGroups_cons h
    exact absurd hfirst decodeGroup_sawPadding

theorem chunks_group (a b c d : UInt8) (text : List UInt8) :
    chunks 4 (a :: b :: c :: d :: text) = [a, b, c, d] :: chunks 4 text :=
  chunks_append (by decide) (show [a, b, c, d].length = 4 from rfl) text

theorem decodeGroups_of_decodes (h : Decodes text bytes) : decodeGroups false (chunks 4 text) = .ok bytes := by
  induction h with
  | nil =>
    rw [chunks_nil]
    rfl
  | full ha hb hc hd hn hrest ih =>
    obtain ⟨w, hw, rfl⟩ := stands_iff.1 ha
    obtain ⟨x, hx, rfl⟩ := stands_iff.1 hb
    obtain ⟨y, hy, rfl⟩ := stands_iff.1 hc
    obtain ⟨z, hz, rfl⟩ := stands_iff.1 hd
    have hgroup := decodeGroup_full hw hx hy hz
    rw [fullBytes ha.lt hb.lt hc.lt hd.lt hn] at hgroup
    rw [chunks_group, decodeGroups_cons hgroup ih]
    rfl
  | one ha hb hc hn =>
    obtain ⟨w, hw, rfl⟩ := stands_iff.1 ha
    obtain ⟨x, hx, rfl⟩ := stands_iff.1 hb
    obtain ⟨y, hy, rfl⟩ := stands_iff.1 hc
    have hgroup := decodeGroup_one hw hx hy
    rw [oneBytes ha.lt hb.lt hc.lt hn] at hgroup
    rw [chunks_group, chunks_nil, decodeGroups_cons hgroup rfl, List.append_nil]
  | two ha hb hn =>
    obtain ⟨w, hw, rfl⟩ := stands_iff.1 ha
    obtain ⟨x, hx, rfl⟩ := stands_iff.1 hb
    have hgroup := decodeGroup_two hw hx
    rw [twoBytes ha.lt hb.lt hn] at hgroup
    rw [chunks_group, chunks_nil, decodeGroups_cons hgroup rfl, List.append_nil]

theorem decodes_of_decodeGroups (hlen : text.length % 4 = 0) (h : decodeGroups false (chunks 4 text) = .ok bytes) :
    Decodes text bytes := by
  induction text using chunkInduction (show 0 < 4 by decide) generalizing bytes with
  | nil =>
    rw [chunks_nil] at h
    cases h
    exact .nil
  | short text hne hlt =>
    have := List.length_pos_iff.2 hne
    omega
  | append piece rest hpiece ih =>
    obtain ⟨a, b, c, d, rfl⟩ := List.length_eq_four.1 hpiece
    have hrestLen : rest.length % 4 = 0 := by
      rw [List.length_append, hpiece] at hlen
      omega
    rw [chunks_append (by decide) hpiece] at h
    obtain ⟨first, after, more, hfirst, hmore, rfl⟩ := of_decodeGroups_cons h
    obtain ⟨-, w, x, ha, hb, ⟨y, z, hc, hd⟩ | ⟨y, hc, rfl⟩ | ⟨rfl, rfl⟩⟩ := decodeGroup_cases hfirst
    · rw [decodeGroup_full ha hb hc hd, fullBytes (sextet_lt ha) (sextet_lt hb) (sextet_lt hc)
        (sextet_lt hd) rfl] at hfirst
      cases hfirst
      exact .full (stands_iff.2 ⟨w, ha, rfl⟩) (stands_iff.2 ⟨x, hb, rfl⟩) (stands_iff.2 ⟨y, hc, rfl⟩)
        (stands_iff.2 ⟨z, hd, rfl⟩) rfl (ih hrestLen hmore)
    · rw [decodeGroup_one ha hb hc, oneBytes (sextet_lt ha) (sextet_lt hb) (sextet_lt hc) rfl] at hfirst
      cases hfirst
      obtain ⟨rfl, rfl⟩ := nil_of_decodeGroups_sawPadding hmore
      exact .one (stands_iff.2 ⟨w, ha, rfl⟩) (stands_iff.2 ⟨x, hb, rfl⟩) (stands_iff.2 ⟨y, hc, rfl⟩) rfl
    · rw [decodeGroup_two ha hb, twoBytes (sextet_lt ha) (sextet_lt hb) rfl] at hfirst
      cases hfirst
      obtain ⟨rfl, rfl⟩ := nil_of_decodeGroups_sawPadding hmore
      exact .two (stands_iff.2 ⟨w, ha, rfl⟩) (stands_iff.2 ⟨x, hb, rfl⟩) rfl

theorem base64Decode_eq_ok_iff (text bytes : List UInt8) : base64Decode text = .ok bytes ↔ Decodes text bytes := by
  unfold base64Decode
  by_cases hlen : text.length % 4 = 0
  · rw [if_neg (not_not_intro hlen)]
    exact ⟨decodes_of_decodeGroups hlen, decodeGroups_of_decodes⟩
  · rw [if_pos hlen]
    exact ⟨fun h => (nomatch h), fun h => absurd h.length_mod hlen⟩

/-! ## Encoding -/

theorem length_encodeChunk (chunk : List UInt8) : (encodeChunk chunk).length = 4 := rfl

theorem toNat_highBits (b0 b1 : UInt8) :
    (((b0 &&& 0x03) <<< 4) ||| (b1 >>> 4)).toNat = b0.toNat % 4 * 16 + b1.toNat / 16 := by
  have hshift : (b1 >>> 4).toNat = b1.toNat / 16 := toNat_shiftRight_lit b1 (by decide)
  have hmask : (b0 &&& 0x03).toNat = b0.toNat % 4 := Nat.and_two_pow_sub_one_eq_mod b0.toNat 2
  have hor := toNat_shiftLeft_or (u := b0 &&& 0x03) (v := b1 >>> 4) (i := 4) (by decide) (by
    rw [hshift]
    have := b1.toNat_lt
    exact Nat.div_lt_of_lt_mul this)
  rw [hor, hshift, hmask, Nat.mod_eq_of_lt (show b0.toNat % 4 < 2 ^ (8 - (4 : UInt8).toNat) by
    have := Nat.mod_lt b0.toNat (show 0 < 4 by decide)
    exact Nat.lt_of_lt_of_le this (by decide))]
  rfl

theorem toNat_middleBits (b1 b2 : UInt8) :
    (((b1 &&& 0x0f) <<< 2) ||| (b2 >>> 6)).toNat = b1.toNat % 16 * 4 + b2.toNat / 64 := by
  have hshift : (b2 >>> 6).toNat = b2.toNat / 64 := toNat_shiftRight_lit b2 (by decide)
  have hmask : (b1 &&& 0x0f).toNat = b1.toNat % 16 := Nat.and_two_pow_sub_one_eq_mod b1.toNat 4
  have hor := toNat_shiftLeft_or (u := b1 &&& 0x0f) (v := b2 >>> 6) (i := 2) (by decide) (by
    rw [hshift]
    have := b2.toNat_lt
    exact Nat.div_lt_of_lt_mul this)
  rw [hor, hshift, hmask, Nat.mod_eq_of_lt (show b1.toNat % 16 < 2 ^ (8 - (2 : UInt8).toNat) by
    have := Nat.mod_lt b1.toNat (show 0 < 16 by decide)
    exact Nat.lt_of_lt_of_le this (by decide))]
  rfl

theorem toNat_lowBits (b2 : UInt8) : (b2 &&& 0x3f).toNat = b2.toNat % 64 :=
  Nat.and_two_pow_sub_one_eq_mod b2.toNat 6

theorem stands_first (b0 : UInt8) : Stands (table.getD (b0 >>> 2).toNat 0) (b0.toNat / 4) := by
  rw [show (b0 >>> 2).toNat = b0.toNat / 4 from toNat_shiftRight_lit b0 (by decide)]
  exact stands_getD (by have := b0.toNat_lt; omega)

theorem stands_second (b0 b1 : UInt8) :
    Stands (table.getD (((b0 &&& 0x03) <<< 4) ||| (b1 >>> 4)).toNat 0) (b0.toNat % 4 * 16 + b1.toNat / 16) := by
  rw [toNat_highBits]
  exact stands_getD (by have := b1.toNat_lt; omega)

theorem stands_third (b1 b2 : UInt8) :
    Stands (table.getD (((b1 &&& 0x0f) <<< 2) ||| (b2 >>> 6)).toNat 0) (b1.toNat % 16 * 4 + b2.toNat / 64) := by
  rw [toNat_middleBits]
  exact stands_getD (by have := b2.toNat_lt; omega)

theorem stands_fourth (b2 : UInt8) : Stands (table.getD (b2 &&& 0x3f).toNat 0) (b2.toNat % 64) := by
  rw [toNat_lowBits]
  exact stands_getD (Nat.mod_lt _ (by decide))

theorem decodes_base64Encode (bytes : List UInt8) : Decodes (base64Encode bytes) bytes := by
  unfold base64Encode
  induction bytes using chunkInduction (show 0 < 3 by decide) with
  | nil =>
    rw [chunks_nil]
    exact .nil
  | short bytes hne hlt =>
    rw [chunks_short hne (Nat.le_of_lt hlt), List.flatMap_singleton]
    match bytes, hne, hlt with
    | [b0], _, _ =>
      have h := Decodes.two (stands_first b0) (stands_second b0 0) rfl
      rw [← ofNat_eq (show b0.toNat = _ by have := b0.toNat_lt; simp; omega)] at h
      exact h
    | [b0, b1], _, _ =>
      have h := Decodes.one (stands_first b0) (stands_second b0 b1) (stands_third b1 0) rfl
      rw [← ofNat_eq (show b0.toNat = _ by have := b0.toNat_lt; have := b1.toNat_lt; simp; omega),
        ← ofNat_eq (show b1.toNat = _ by have := b0.toNat_lt; have := b1.toNat_lt; simp; omega)] at h
      exact h
  | append piece rest hpiece ih =>
    obtain ⟨b0, b1, b2, rfl⟩ := List.length_eq_three.1 hpiece
    rw [chunks_append (by decide) hpiece, List.flatMap_cons]
    have h := Decodes.full (stands_first b0) (stands_second b0 b1) (stands_third b1 b2) (stands_fourth b2) rfl ih
    have h0 := b0.toNat_lt
    have h1 := b1.toNat_lt
    have h2 := b2.toNat_lt
    rw [← ofNat_eq (show b0.toNat = _ by omega), ← ofNat_eq (show b1.toNat = _ by omega),
      ← ofNat_eq (show b2.toNat = _ by omega)] at h
    exact h

theorem length_base64Encode (bytes : List UInt8) : (base64Encode bytes).length = 4 * ((bytes.length + 2) / 3) := by
  have hpieces : (base64Encode bytes).length = 4 * (chunks 3 bytes).length := by
    unfold base64Encode
    generalize chunks 3 bytes = pieces
    induction pieces with
    | nil => rfl
    | cons piece pieces ih =>
      rw [List.flatMap_cons, List.length_append, ih, length_encodeChunk, List.length_cons]
      omega
  rw [hpieces, length_chunks (by decide)]

/-- Encoding is undone by decoding and has a length known beforehand; decoding accepts the texts of whole groups, and
gives the bytes of their numbers. -/
theorem base64_exact :
    (∀ bytes, base64Decode (base64Encode bytes) = .ok bytes ∧
      (base64Encode bytes).length = 4 * ((bytes.length + 2) / 3)) ∧
    ∀ text bytes, base64Decode text = .ok bytes ↔ Decodes text bytes :=
  ⟨fun bytes => ⟨(base64Decode_eq_ok_iff _ _).2 (decodes_base64Encode bytes), length_base64Encode bytes⟩,
    base64Decode_eq_ok_iff⟩

end BridgeVm.AgentConsole.Base64
