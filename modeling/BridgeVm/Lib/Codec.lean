import BridgeVm.Lib.LittleEndian

/-!
# Readers of byte formats

A reader consumes a stream of bytes and may fail. A format says which bytes stand for which value. A reader *accepts* a
format when it reads every word of the format, whatever follows, and reads nothing else: then a round trip, the
uniqueness of what is read and the rejection of everything else are statements about the format.
-/

namespace BridgeVm.Lib

/-- The bytes left to read, and how many were read. -/
structure Stream where
  pos : Nat
  rest : List UInt8
deriving DecidableEq, Repr

abbrev Reader (ε α : Type) := StateT Stream (Except ε) α

/-- Which bytes stand for which value. -/
abbrev Format (α : Type) := List UInt8 → α → Prop

namespace Format

variable {α β : Type}

/-- One spelling for each allowed value. -/
def spelled (enc : α → List UInt8) (allowed : α → Prop) : Format α := fun bytes v => bytes = enc v ∧ allowed v

/-- The empty word, for `v` only, when `p` holds. -/
def only (v : α) (p : Prop) : Format α := fun bytes w => bytes = [] ∧ w = v ∧ p

/-- A word of `F` for some `a`, then a word of `G a`. -/
def bind (F : Format α) (G : α → Format β) : Format β :=
  fun bytes v => ∃ a b₁ b₂, bytes = b₁ ++ b₂ ∧ F b₁ a ∧ G a b₂ v

theorem bind_spelled {enc : α → List UInt8} {allowed : α → Prop} {G : α → Format β}
    {bytes : List UInt8} {v : β} :
    (spelled enc allowed).bind G bytes v ↔ ∃ a b, bytes = enc a ++ b ∧ allowed a ∧ G a b v := by
  constructor
  · rintro ⟨a, b₁, b₂, rfl, ⟨rfl, ha⟩, hv⟩
    exact ⟨a, b₂, rfl, ha, hv⟩
  · rintro ⟨a, b, rfl, ha, hv⟩
    exact ⟨a, enc a, b, rfl, ⟨rfl, ha⟩, hv⟩

theorem bind_only {a : α} {p : Prop} {G : α → Format β} {bytes : List UInt8} {v : β} :
    (only a p).bind G bytes v ↔ p ∧ G a bytes v := by
  constructor
  · rintro ⟨a, b₁, b₂, rfl, ⟨rfl, rfl, hp⟩, hv⟩
    exact ⟨hp, hv⟩
  · rintro ⟨hp, hv⟩
    exact ⟨a, [], bytes, rfl, ⟨rfl, rfl, hp⟩, hv⟩

end Format

namespace Reader

variable {ε α β : Type} {r : Reader ε α} {f : α → Reader ε β} {F F' : Format α} {G : α → Format β}
  {bytes b₁ b₂ : List UInt8} {a v : α} {w : β} {s s' : Stream} {n : Nat} {enc : α → List UInt8}
  {allowed : α → Prop}

/-- Fail with `e` unless `b`. -/
def check (b : Bool) (e : ε) : Reader ε Unit := if b then pure () else throw e

/-- The reader takes exactly `bytes`, for `v`, as far as positions fit 64 bits. -/
def Reads (r : Reader ε α) (bytes : List UInt8) (v : α) : Prop :=
  ∀ pos rest, pos + bytes.length < 2 ^ 64 → r.run ⟨pos, bytes ++ rest⟩ = .ok (v, ⟨pos + bytes.length, rest⟩)

/-- The reader reads every word of the format, and nothing else. -/
structure Accepts (r : Reader ε α) (F : Format α) : Prop where
  reads : ∀ bytes v, F bytes v → Reads r bytes v
  word : ∀ s v s', r.run s = .ok (v, s') → ∃ bytes, s.rest = bytes ++ s'.rest ∧ F bytes v

theorem Reads.bind (hr : Reads r b₁ a) (hf : Reads (f a) b₂ w) : Reads (r >>= f) (b₁ ++ b₂) w := by
  intro pos rest hpos
  rw [List.length_append] at hpos
  rw [StateT.run_bind, List.append_assoc, hr pos _ (by omega)]
  show (f a).run _ = _
  rw [hf _ rest (by omega), List.length_append, Nat.add_assoc]

/-- The two steps of a bind that succeeds. -/
theorem run_bind_ok (h : (r >>= f).run s = .ok (w, s')) :
    ∃ a t, r.run s = .ok (a, t) ∧ (f a).run t = .ok (w, s') := by
  rw [StateT.run_bind] at h
  cases hr : r.run s with
  | error e => rw [hr] at h; cases h
  | ok p => rw [hr] at h; exact ⟨p.1, p.2, rfl, h⟩

namespace Accepts

theorem congr (h : Accepts r F) (heq : ∀ bytes v, F bytes v ↔ F' bytes v) : Accepts r F' where
  reads bytes v hv := h.reads bytes v ((heq bytes v).2 hv)
  word s v s' hs := by
    obtain ⟨bytes, hb, hv⟩ := h.word s v s' hs
    exact ⟨bytes, hb, (heq bytes v).1 hv⟩

theorem bind (hr : Accepts r F) (hf : ∀ a, Accepts (f a) (G a)) : Accepts (r >>= f) (F.bind G) where
  reads bytes v hv := by
    obtain ⟨a, b₁, b₂, rfl, h₁, h₂⟩ := hv
    exact (hr.reads b₁ a h₁).bind ((hf a).reads b₂ v h₂)
  word s v s' hs := by
    obtain ⟨a, t, hs, ht⟩ := run_bind_ok hs
    obtain ⟨b₁, hb₁, h₁⟩ := hr.word s a t hs
    obtain ⟨b₂, hb₂, h₂⟩ := (hf a).word t v s' ht
    exact ⟨b₁ ++ b₂, by rw [hb₁, hb₂, List.append_assoc], a, b₁, b₂, rfl, h₁, h₂⟩

theorem pure (v : α) : Accepts (pure v : Reader ε α) (Format.only v True) where
  reads bytes w hw := by
    obtain ⟨rfl, rfl, -⟩ := hw
    intro pos rest _
    rfl
  word s w s' hs := by
    cases hs
    exact ⟨[], rfl, rfl, rfl, trivial⟩

theorem fail (e : ε) : Accepts (throw e : Reader ε α) fun _ _ => False where
  reads _ _ hv := nomatch hv
  word _ _ _ hs := nomatch hs

theorem check (b : Bool) (e : ε) : Accepts (Reader.check b e) (Format.only () (b = true)) := by
  cases b with
  | true => exact (pure ()).congr fun bytes v => by simp [Format.only]
  | false => exact (fail e).congr fun bytes v => by simp [Format.only]

/-- Two readings of words that start the same stream agree. -/
theorem unique (h : Accepts r F) {v' : α} {rest₁ rest₂ : List UInt8} (h₁ : F b₁ v) (h₂ : F b₂ v')
    (hlen : b₁.length < 2 ^ 64) (hlen' : b₂.length < 2 ^ 64) (heq : b₁ ++ rest₁ = b₂ ++ rest₂) :
    v = v' ∧ b₁ = b₂ ∧ rest₁ = rest₂ := by
  have hr₁ := h.reads b₁ v h₁ 0 rest₁ (by omega)
  have hr₂ := h.reads b₂ v' h₂ 0 rest₂ (by omega)
  rw [heq, hr₂] at hr₁
  simp only [Except.ok.injEq, Prod.mk.injEq, Stream.mk.injEq] at hr₁
  obtain ⟨hv, -, hrest⟩ := hr₁
  rw [hrest] at heq
  exact ⟨hv.symm, List.append_cancel_right heq, hrest.symm⟩

end Accepts

/-! ## Repetition -/

/-- `n` readings in a row. -/
def times (r : Reader ε α) : Nat → Reader ε (List α)
  | 0 => pure []
  | n + 1 => do
    let v ← r
    let vs ← times r n
    return v :: vs

/-- `n` readings in a row, as an array of fixed length. -/
def vector (r : Reader ε α) : (n : Nat) → Reader ε (Vector α n)
  | 0 => pure #v[]
  | n + 1 => do
    let vs ← vector r n
    let v ← r
    return vs.push v

theorem Accepts.times (h : Accepts r (.spelled enc allowed)) (n : Nat) :
    Accepts (r.times n) (.spelled (List.flatMap enc) fun vs => vs.length = n ∧ ∀ v ∈ vs, allowed v) := by
  induction n with
  | zero =>
    refine (Accepts.pure []).congr fun bytes vs => ?_
    simp only [Format.only, Format.spelled, List.length_eq_zero_iff]
    constructor
    · rintro ⟨rfl, rfl, -⟩
      simp
    · rintro ⟨rfl, rfl, -⟩
      simp
  | succ n ih =>
    refine (h.bind fun v => ih.bind fun vs => Accepts.pure (v :: vs)).congr fun bytes vs => ?_
    simp only [Format.bind_spelled, Format.only, Format.spelled]
    constructor
    · rintro ⟨v, b, rfl, hv, vs', b', rfl, ⟨hlen, hvs⟩, rfl, rfl, -⟩
      exact ⟨by simp, by simp [hlen], List.forall_mem_cons.2 ⟨hv, hvs⟩⟩
    · rintro ⟨rfl, hlen, hvs⟩
      cases vs with
      | nil => simp at hlen
      | cons v vs =>
        have hv := List.forall_mem_cons.1 hvs
        exact ⟨v, vs.flatMap enc, by simp, hv.1, vs, [], by simp, ⟨by simpa using hlen, hv.2⟩, rfl,
          rfl, trivial⟩

theorem Accepts.vector (h : Accepts r (.spelled enc allowed)) (n : Nat) :
    Accepts (r.vector n) (.spelled (fun vs => vs.toList.flatMap enc) fun vs => ∀ v ∈ vs, allowed v) := by
  induction n with
  | zero =>
    refine (Accepts.pure #v[]).congr fun bytes vs => ?_
    have hvs : vs = #v[] := by simp
    subst hvs
    simp [Format.only, Format.spelled]
  | succ n ih =>
    refine (ih.bind fun vs => h.bind fun v => Accepts.pure (vs.push v)).congr fun bytes vs => ?_
    simp only [Format.bind_spelled, Format.only, Format.spelled]
    constructor
    · rintro ⟨vs', b, rfl, hvs, v, b', rfl, hv, rfl, rfl, -⟩
      refine ⟨by simp [Vector.toList_push], fun x hx => ?_⟩
      rcases Vector.mem_push.1 hx with hx | rfl
      · exact hvs x hx
      · exact hv
    · rintro ⟨rfl, hvs⟩
      have hpush : vs.pop.push vs.back = vs := Vector.push_pop_back vs
      rw [← hpush] at hvs ⊢
      generalize vs.pop = xs, vs.back = x at hvs
      exact ⟨xs, enc x, by simp [Vector.toList_push], fun v hv => hvs v (Vector.mem_push.2 (.inl hv)), x, [], by simp,
        hvs x (Vector.mem_push.2 (.inr rfl)), rfl, rfl, trivial⟩

end Reader

end BridgeVm.Lib
