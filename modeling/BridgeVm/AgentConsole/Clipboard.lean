import BridgeVm.AgentConsole.ClipSync
import BridgeVm.Lib.Text
import Mathlib.Data.List.Infix

/-!
# Line ends of clipboard text

`clipboard.rs` on text as its characters, of which `normalize_clip` searches for pairs, `to_guest_crlf_into` looks one
ahead, and `to_guest_crlf_len` sees the UTF-8 bytes only. Both foldings commute with the encoding (`utf8_normalizeClip`,
`utf8_toGuestCrlf`), so that clipboard sync, which is about bytes, has the same ones. A CR before a CRLF makes a new
CRLF of what the folding leaves of it (`normalizeClip_idem_iff`).
-/

namespace BridgeVm.AgentConsole.Clipboard

open Lib

/-! ## The functions -/

/-- `str::replace` of a pattern that is not empty: matches do not overlap, and are found from the left. Of the last
match `skip` characters are still to be passed. -/
def replaceFrom (pat repl : List Char) : Nat → List Char → List Char
  | _, [] => []
  | skip + 1, _ :: s => replaceFrom pat repl skip s
  | 0, c :: s =>
    if pat.isPrefixOf (c :: s) then repl ++ replaceFrom pat repl (pat.length - 1) s else c :: replaceFrom pat repl 0 s

def normalizeClip (s : List Char) : List Char := replaceFrom ['\r', '\n'] ['\n'] 0 s

/-- `to_guest_crlf_into`. -/
def toGuestCrlf : List Char → List Char
  | '\r' :: '\n' :: s => '\r' :: '\n' :: toGuestCrlf s
  | '\n' :: s => '\r' :: '\n' :: toGuestCrlf s
  | ch :: s => ch :: toGuestCrlf s
  | [] => []

/-- The loop of `to_guest_crlf_len`, on the bytes from `index` on. -/
def crlfLenFrom (len : Nat) : List UInt8 → Nat
  | 13 :: 10 :: bytes => crlfLenFrom (len + 2) bytes
  | 10 :: bytes => crlfLenFrom (len + 2) bytes
  | _ :: bytes => crlfLenFrom (len + 1) bytes
  | [] => len

def toGuestCrlfLen (s : List Char) : Nat := crlfLenFrom 0 (utf8 s)

/-! ## Folding CRLF to LF -/

variable {s t pre suf : List Char} {c : Char}

theorem normalizeClip_nil : normalizeClip [] = [] := rfl

theorem normalizeClip_crlf (s : List Char) : normalizeClip ('\r' :: '\n' :: s) = '\n' :: normalizeClip s := by
  have hpre : ['\r', '\n'].isPrefixOf ('\r' :: '\n' :: s) = true :=
    List.isPrefixOf_iff_prefix.2 (List.prefix_append _ s)
  rw [normalizeClip, replaceFrom, if_pos hpre]
  rfl

theorem normalizeClip_cons (h : ¬ ['\r', '\n'] <+: c :: s) : normalizeClip (c :: s) = c :: normalizeClip s := by
  rw [normalizeClip, replaceFrom, if_neg fun hpre => h (List.isPrefixOf_iff_prefix.1 hpre)]
  rfl

theorem crlfInduction {motive : List Char → Prop} (nil : motive [])
    (crlf : ∀ s, motive s → motive ('\r' :: '\n' :: s))
    (other : ∀ c s, ¬ ['\r', '\n'] <+: c :: s → motive s → motive (c :: s)) (s : List Char) : motive s := by
  induction hlen : s.length using Nat.strongRecOn generalizing s with
  | _ len ih =>
    match s, hlen with
    | [], _ => exact nil
    | c :: s, hlen =>
      rw [List.length_cons] at hlen
      by_cases hpre : ['\r', '\n'] <+: c :: s
      · obtain ⟨rest, hrest⟩ := hpre
        cases hrest
        have hlt : rest.length < len := by
          rw [← hlen]
          exact Nat.lt_add_right 1 (Nat.lt_succ_self _)
        exact crlf rest (ih _ hlt rest rfl)
      · exact other c s hpre (ih _ (by omega) s rfl)

theorem length_normalizeClip_le (s : List Char) : (normalizeClip s).length ≤ s.length := by
  induction s using crlfInduction with
  | nil => exact Nat.le_refl 0
  | crlf s ih =>
    rw [normalizeClip_crlf]
    simp only [List.length_cons]
    omega
  | other c s hpre ih =>
    rw [normalizeClip_cons hpre]
    simpa only [List.length_cons, Nat.add_le_add_iff_right] using ih

theorem normalizeClip_eq_self_iff : normalizeClip s = s ↔ ¬ ['\r', '\n'] <:+: s := by
  induction s using crlfInduction with
  | nil => simp [normalizeClip_nil]
  | crlf s ih =>
    constructor
    · intro h
      have hlen := congrArg List.length h
      have := length_normalizeClip_le s
      rw [normalizeClip_crlf] at hlen
      simp only [List.length_cons] at hlen
      omega
    · intro h
      exact absurd (List.prefix_append ['\r', '\n'] s).isInfix h
  | other c s hpre ih =>
    rw [normalizeClip_cons hpre, List.cons.injEq, List.infix_cons_iff, ih]
    simp [hpre]

theorem lf_prefix_normalizeClip : ['\n'] <+: normalizeClip s ↔ ['\n'] <+: s ∨ ['\r', '\n'] <+: s := by
  induction s using crlfInduction with
  | nil => simp [normalizeClip_nil]
  | crlf s ih =>
    rw [normalizeClip_crlf]
    exact ⟨fun _ => .inr (List.prefix_append ['\r', '\n'] s), fun _ => List.prefix_append ['\n'] _⟩
  | other c s hpre ih =>
    rw [normalizeClip_cons hpre]
    simp only [List.cons_prefix_cons, List.nil_prefix, and_true] at hpre ⊢
    tauto

theorem crlf_infix_normalizeClip : ['\r', '\n'] <:+: normalizeClip s ↔ ['\r', '\r', '\n'] <:+: s := by
  induction s using crlfInduction with
  | nil => simp [normalizeClip_nil]
  | crlf s ih =>
    rw [normalizeClip_crlf, List.infix_cons_iff, List.infix_cons_iff, List.infix_cons_iff, ih]
    simp [List.cons_prefix_cons]
  | other c s hpre ih =>
    rw [normalizeClip_cons hpre, List.infix_cons_iff, List.infix_cons_iff, ih, List.cons_prefix_cons,
      lf_prefix_normalizeClip, List.cons_prefix_cons]
    rw [List.cons_prefix_cons] at hpre
    tauto

theorem normalizeClip_idem_iff : normalizeClip (normalizeClip s) = normalizeClip s ↔
    ¬ ['\r', '\r', '\n'] <:+: s := by
  rw [normalizeClip_eq_self_iff, crlf_infix_normalizeClip]

/-! ## Expanding LF to CRLF -/

section Expanding

attribute [local simp] toGuestCrlf

theorem toGuestCrlf_cons (hlf : c ≠ '\n') (hpre : ¬ ['\r', '\n'] <+: c :: s) :
    toGuestCrlf (c :: s) = c :: toGuestCrlf s := by
  rw [toGuestCrlf]
  · intro rest hc hs
    exact hpre ⟨rest, by rw [hc, hs]; rfl⟩
  · exact hlf

theorem expandInduction {motive : List Char → Prop} (nil : motive [])
    (crlf : ∀ s, motive s → motive ('\r' :: '\n' :: s)) (lf : ∀ s, motive s → motive ('\n' :: s))
    (other : ∀ c s, c ≠ '\n' → ¬ ['\r', '\n'] <+: c :: s → motive s → motive (c :: s)) (s : List Char) :
      motive s := by
  induction s using crlfInduction with
  | nil => exact nil
  | crlf s ih => exact crlf s ih
  | other c s hpre ih =>
    by_cases hlf : c = '\n'
    · rw [hlf]
      exact lf s ih
    · exact other c s hlf hpre ih

theorem not_lf_prefix_toGuestCrlf : ¬ ['\n'] <+: toGuestCrlf s := by
  induction s using expandInduction with
  | nil => simp
  | crlf s ih => simp
  | lf s ih => simp
  | other c s hlf hpre ih =>
    rw [toGuestCrlf_cons hlf hpre, List.cons_prefix_cons]
    exact fun h => hlf h.1.symm

theorem not_crlf_prefix : ¬ ['\r', '\n'] <+: c :: toGuestCrlf s := by
  rw [List.cons_prefix_cons]
  exact fun h => not_lf_prefix_toGuestCrlf h.2

theorem cr_suffix_of_toGuestCrlf (h : toGuestCrlf s = pre ++ '\n' :: suf) : ['\r'] <:+ pre := by
  induction s using expandInduction generalizing pre with
  | nil => simp at h
  | crlf s ih | lf s ih =>
    rw [toGuestCrlf] at h
    match pre, h with
    | [_], h =>
      rw [(List.cons.inj h).1]
    | _ :: _ :: pre, h =>
      have hrest := (List.cons.inj (List.cons.inj h).2).2
      exact ((ih hrest).trans (List.suffix_cons _ _)).trans (List.suffix_cons _ _)
  | other c s hlf hpre ih =>
    rw [toGuestCrlf_cons hlf hpre] at h
    match pre, h with
    | [], h => exact absurd (List.cons.inj h).1 hlf
    | _ :: pre, h => exact (ih (List.cons.inj h).2).trans (List.suffix_cons _ _)

theorem toGuestCrlf_idem (s : List Char) : toGuestCrlf (toGuestCrlf s) = toGuestCrlf s := by
  induction s using expandInduction with
  | nil => rfl
  | crlf s ih | lf s ih => rw [toGuestCrlf, toGuestCrlf, ih]
  | other c s hlf hpre ih => rw [toGuestCrlf_cons hlf hpre, toGuestCrlf_cons hlf not_crlf_prefix, ih]

theorem normalizeClip_toGuestCrlf (s : List Char) : normalizeClip (toGuestCrlf s) = normalizeClip s := by
  induction s using expandInduction with
  | nil => rfl
  | crlf s ih => rw [toGuestCrlf, normalizeClip_crlf, normalizeClip_crlf, ih]
  | lf s ih =>
    rw [toGuestCrlf, normalizeClip_crlf, ih, normalizeClip_cons (by simp [List.cons_prefix_cons])]
  | other c s hlf hpre ih =>
    rw [toGuestCrlf_cons hlf hpre, normalizeClip_cons not_crlf_prefix, normalizeClip_cons hpre, ih]

end Expanding

/-! ## The same on bytes -/

theorem utf8_cons (c : Char) (s : List Char) : utf8 (c :: s) = String.utf8EncodeChar c ++ utf8 s := List.flatMap_cons

theorem utf8EncodeChar_ascii (h : c.val.toNat ≤ 0x7f) : String.utf8EncodeChar c = [UInt8.ofNat c.val.toNat] :=
  if_pos h

theorem high_of_mem_utf8EncodeChar (h : ¬ c.val.toNat ≤ 0x7f) {b : UInt8} (hb : b ∈ String.utf8EncodeChar c) :
    128 ≤ b.toNat := by
  rw [String.utf8EncodeChar] at hb
  simp only [if_neg h] at hb
  split at hb
  · simp only [List.mem_cons, List.not_mem_nil, or_false] at hb
    rcases hb with rfl | rfl <;> simp <;> omega
  · split at hb
    · simp only [List.mem_cons, List.not_mem_nil, or_false] at hb
      rcases hb with rfl | rfl | rfl <;> simp <;> omega
    · simp only [List.mem_cons, List.not_mem_nil, or_false] at hb
      rcases hb with rfl | rfl | rfl | rfl <;> simp <;> omega

theorem ofNat_eq_iff (h : c.val.toNat ≤ 0x7f) (d : Char) (hd : d.val.toNat ≤ 0x7f) :
    UInt8.ofNat d.val.toNat = UInt8.ofNat c.val.toNat ↔ d = c := by
  constructor
  · intro heq
    have hnat := congrArg UInt8.toNat heq
    rw [UInt8.toNat_ofNat_of_lt' (show d.val.toNat < 256 by omega),
      UInt8.toNat_ofNat_of_lt' (show c.val.toNat < 256 by omega)] at hnat
    exact Char.ext (UInt32.toNat_inj.1 hnat)
  · rintro rfl
    rfl

theorem lf_prefix_utf8 : [10] <+: utf8 s ↔ ['\n'] <+: s := by
  cases s with
  | nil => simp [utf8]
  | cons c s =>
    rw [utf8_cons, List.cons_prefix_cons]
    by_cases hascii : c.val.toNat ≤ 0x7f
    · rw [utf8EncodeChar_ascii hascii, List.singleton_append, List.cons_prefix_cons]
      exact and_congr (ofNat_eq_iff hascii '\n' (by decide)) ⟨fun _ => List.nil_prefix, fun _ => List.nil_prefix⟩
    · have hhigh : ∀ b ∈ String.utf8EncodeChar c, 128 ≤ b.toNat := fun b => high_of_mem_utf8EncodeChar hascii
      have hne : '\n' ≠ c := by
        rintro rfl
        exact hascii (by decide)
      match hbytes : String.utf8EncodeChar c with
      | [] => exact absurd hbytes String.utf8EncodeChar_ne_nil
      | b :: bytes =>
        have hb := hhigh b (hbytes ▸ List.mem_cons_self)
        rw [List.cons_append, List.cons_prefix_cons]
        constructor
        · rintro ⟨rfl, -⟩
          exact absurd hb (by decide)
        · exact fun h => absurd h.1 hne

theorem crlf_prefix_utf8 (hascii : c.val.toNat ≤ 0x7f) :
    [13, 10] <+: UInt8.ofNat c.val.toNat :: utf8 s ↔ ['\r', '\n'] <+: c :: s := by
  rw [List.cons_prefix_cons, List.cons_prefix_cons, lf_prefix_utf8]
  exact and_congr (ofNat_eq_iff hascii '\r' (by decide)) Iff.rfl

theorem normalizeClip_byte {b : UInt8} {bytes : List UInt8} (hpre : ¬ [13, 10] <+: b :: bytes) :
    ClipSync.normalizeClip (b :: bytes) = b :: ClipSync.normalizeClip bytes := by
  rw [ClipSync.normalizeClip]
  intro rest hb hbytes
  exact hpre ⟨rest, by rw [hb, hbytes]; rfl⟩

theorem toGuestCrlf_byte {b : UInt8} {bytes : List UInt8} (hlf : b ≠ 10) (hpre : ¬ [13, 10] <+: b :: bytes) :
    ClipSync.toGuestCrlf (b :: bytes) = b :: ClipSync.toGuestCrlf bytes := by
  rw [ClipSync.toGuestCrlf]
  · intro rest hb hbytes
    exact hpre ⟨rest, by rw [hb, hbytes]; rfl⟩
  · exact hlf

theorem not_crlf_prefix_high {b : UInt8} {bytes : List UInt8} (h : 128 ≤ b.toNat) : ¬ [13, 10] <+: b :: bytes := by
  rw [List.cons_prefix_cons]
  rintro ⟨rfl, -⟩
  exact absurd h (by decide)

theorem normalizeClip_high {high bytes : List UInt8} (h : ∀ b ∈ high, 128 ≤ b.toNat) :
    ClipSync.normalizeClip (high ++ bytes) = high ++ ClipSync.normalizeClip bytes := by
  induction high with
  | nil => rfl
  | cons b high ih =>
    rw [List.cons_append, normalizeClip_byte (not_crlf_prefix_high (h b List.mem_cons_self)),
      ih fun b hb => h b (List.mem_cons_of_mem _ hb), List.cons_append]

theorem toGuestCrlf_high {high bytes : List UInt8} (h : ∀ b ∈ high, 128 ≤ b.toNat) :
    ClipSync.toGuestCrlf (high ++ bytes) = high ++ ClipSync.toGuestCrlf bytes := by
  induction high with
  | nil => rfl
  | cons b high ih =>
    have hb := h b List.mem_cons_self
    have hlf : b ≠ 10 := by
      rintro rfl
      exact absurd hb (by decide)
    rw [List.cons_append, toGuestCrlf_byte hlf (not_crlf_prefix_high hb),
      ih fun b hb => h b (List.mem_cons_of_mem _ hb),
      List.cons_append]

theorem utf8_normalizeClip (s : List Char) : utf8 (normalizeClip s) = ClipSync.normalizeClip (utf8 s) := by
  induction s using crlfInduction with
  | nil => rfl
  | crlf s ih =>
    rw [normalizeClip_crlf, utf8_cons, ih]
    rfl
  | other c s hpre ih =>
    rw [normalizeClip_cons hpre, utf8_cons, utf8_cons, ih]
    by_cases hascii : c.val.toNat ≤ 0x7f
    · rw [utf8EncodeChar_ascii hascii, List.singleton_append, List.singleton_append,
        normalizeClip_byte (mt (crlf_prefix_utf8 hascii).1 hpre)]
    · rw [normalizeClip_high fun b => high_of_mem_utf8EncodeChar hascii]

theorem utf8_toGuestCrlf (s : List Char) : utf8 (toGuestCrlf s) = ClipSync.toGuestCrlf (utf8 s) := by
  induction s using expandInduction with
  | nil => rfl
  | crlf s ih | lf s ih =>
    rw [toGuestCrlf, utf8_cons, utf8_cons, ih]
    rfl
  | other c s hlf hpre ih =>
    rw [toGuestCrlf_cons hlf hpre, utf8_cons, utf8_cons, ih]
    by_cases hascii : c.val.toNat ≤ 0x7f
    · have hbyte : UInt8.ofNat c.val.toNat ≠ 10 :=
        fun h => hlf ((ofNat_eq_iff hascii '\n' (by decide)).1 h.symm).symm
      rw [utf8EncodeChar_ascii hascii, List.singleton_append, List.singleton_append,
        toGuestCrlf_byte hbyte (mt (crlf_prefix_utf8 hascii).1 hpre)]
    · rw [toGuestCrlf_high fun b => high_of_mem_utf8EncodeChar hascii]

theorem crlfLenFrom_eq (len : Nat) (bytes : List UInt8) :
    crlfLenFrom len bytes = len + (ClipSync.toGuestCrlf bytes).length := by
  fun_induction crlfLenFrom len bytes with
  | case1 len bytes ih | case2 len bytes ih =>
    rw [ih, ClipSync.toGuestCrlf, List.length_cons, List.length_cons]
    omega
  | case3 len b bytes hcrlf hlf ih =>
    rw [ih, ClipSync.toGuestCrlf, List.length_cons]
    · omega
    · exact hcrlf
    · exact hlf
  | case4 len => rfl

theorem length_toGuestCrlf (s : List Char) : (utf8 (toGuestCrlf s)).length = toGuestCrlfLen s := by
  rw [utf8_toGuestCrlf, toGuestCrlfLen, crlfLenFrom_eq, Nat.zero_add]

/-! ## Both together -/

/-- The two foldings of a text agree with each other. -/
structure Coherent (s : List Char) : Prop where
  length : (utf8 (toGuestCrlf s)).length = toGuestCrlfLen s
  noBareLf : ∀ pre suf, toGuestCrlf s = pre ++ '\n' :: suf → ['\r'] <:+ pre
  expanded : toGuestCrlf (toGuestCrlf s) = toGuestCrlf s
  sameText : normalizeClip (toGuestCrlf s) = normalizeClip s
  /-- What is put on the Mac is the synced text when it comes back. -/
  recognised : normalizeClip (normalizeClip s) = normalizeClip s

/-- They do, unless a CR is before a CRLF. -/
theorem coherent_iff (s : List Char) : Coherent s ↔ ¬ ['\r', '\r', '\n'] <:+: s :=
  ⟨fun h => normalizeClip_idem_iff.1 h.recognised, fun h => {
    length := length_toGuestCrlf s
    noBareLf := fun _ _ => cr_suffix_of_toGuestCrlf
    expanded := toGuestCrlf_idem s
    sameText := normalizeClip_toGuestCrlf s
    recognised := normalizeClip_idem_iff.2 h }⟩

/-- CR CR LF is folded to CRLF, and that to LF. -/
theorem not_coherent_cr_crlf : ¬ ∀ s, Coherent s := fun h => absurd (h ['\r', '\r', '\n']).recognised (by decide)

end BridgeVm.AgentConsole.Clipboard
