import BridgeVm.Pcie.Endpoints

/-!
# What config writes change (`pcie/capabilities.rs`)

A write of config space sets the command, a BAR, or a few bytes of a capability. The capability list itself is none of
those bytes, so the capabilities stay where they were built.
-/

namespace BridgeVm.Pcie

open BridgeVm.Pcie.Function

section SetByte

variable {off off' : UInt16} {value : UInt8} {bytes : List (UInt16 × UInt8)}

theorem byteAt_cons (p : UInt16 × UInt8) : byteAt (p :: bytes) off = if p.1 = off then p.2 else byteAt bytes off := by
  unfold byteAt
  rw [List.find?_cons]
  by_cases h : p.1 = off <;> simp [h]

theorem byteAt_setByte : byteAt (setByte off value bytes) off' = if off = off' then value else byteAt bytes off' := by
  induction bytes with
  | nil => rw [setByte, byteAt_cons]
  | cons p bytes ih =>
    unfold setByte
    by_cases hp : p.1 = off
    · rw [if_pos hp, byteAt_cons, byteAt_cons, hp]
      by_cases h : off = off' <;> simp [h]
    · rw [if_neg hp, byteAt_cons, byteAt_cons, ih]
      by_cases h : p.1 = off'
      · rw [if_pos h, if_pos h, if_neg fun heq => hp (h.trans heq.symm)]
      · rw [if_neg h, if_neg h]

theorem setByte_offsets (h : off ∈ bytes.map Prod.fst) :
    (setByte off value bytes).map Prod.fst = bytes.map Prod.fst := by
  induction bytes with
  | nil => cases h
  | cons p bytes ih =>
    unfold setByte
    split
    · rfl
    · rename_i hp
      rw [List.map_cons, List.map_cons, ih]
      exact (List.mem_cons.1 h).resolve_left fun heq => hp heq.symm

end SetByte

/-! ## Writable bytes -/

/-- Places in the MSI capability that a write can set. -/
def msiWritable : List UInt16 := [2, 4, 5, 6, 7, 8, 9, 10, 11, 12, 13]

/-- The offsets that a write of capability bytes can set. -/
def Function.writable (f : Function) : List UInt16 :=
  ((f.capabilityOffset capIdMsi).elim [] fun cap => msiWritable.map (cap + ·)) ++
    (((f.capabilityOffset capIdPm).elim [] fun cap => [cap + 4]) ++
      ((f.capabilityOffset capIdMsix).elim [] fun cap => [cap + 2, cap + 2 + 1]))

/-- `f` with some bytes at the offsets `places` set. -/
inductive SetsBytes (places : List UInt16) : Function → Function → Prop
  | refl (f : Function) : SetsBytes places f f
  | set {f g : Function} {off : UInt16} (value : UInt8) :
      SetsBytes places f g → off ∈ places → SetsBytes places f (g.setCapabilityByte off value)

section Writes

variable {places places' : List UInt16} {f g k : Function} {cap reg off : UInt16} {value : UInt32}

theorem SetsBytes.trans (h : SetsBytes places f g) (h' : SetsBytes places g k) : SetsBytes places f k := by
  induction h' with
  | refl => exact h
  | set value _ hoff ih => exact .set value ih hoff

theorem SetsBytes.mono (h : SetsBytes places f g) (hsub : ∀ off ∈ places, off ∈ places') :
    SetsBytes places' f g := by
  induction h with
  | refl => exact .refl _
  | set value _ hoff ih => exact .set value ih (hsub _ hoff)

theorem SetsBytes.frame (h : SetsBytes places f g) : g = { f with capBytes := g.capBytes } := by
  induction h with
  | refl => rfl
  | set value _ _ ih => rw [ih]; rfl

theorem SetsBytes.byteAt_eq (h : SetsBytes places f g) (hoff : off ∉ places) :
    byteAt g.capBytes off = byteAt f.capBytes off := by
  induction h with
  | refl => rfl
  | set value _ hplace ih =>
    refine (byteAt_setByte.trans (if_neg ?_)).trans ih
    rintro rfl
    exact hoff hplace

theorem SetsBytes.offsets (h : SetsBytes places f g) (hlisted : ∀ off ∈ places, off ∈ f.capBytes.map Prod.fst) :
    g.capBytes.map Prod.fst = f.capBytes.map Prod.fst := by
  induction h with
  | refl => rfl
  | set value _ hplace ih => exact (setByte_offsets (by rw [ih]; exact hlisted _ hplace)).trans ih

theorem mem_msiWritable (h : off = 2 ∨ off = 4 ∨ 5 ≤ off ∧ off ≤ 13) : off ∈ msiWritable := by
  rcases h with rfl | rfl | ⟨hlo, hhi⟩
  · decide
  · decide
  · rw [UInt16.le_iff_toNat_le] at hlo hhi
    have hoff : off = .ofNat off.toNat := UInt16.ofNat_toNat.symm
    have hlo' : 5 ≤ off.toNat := hlo
    have hhi' : off.toNat ≤ 13 := hhi
    have hcases : off.toNat = 5 ∨ off.toNat = 6 ∨ off.toNat = 7 ∨ off.toNat = 8 ∨ off.toNat = 9 ∨
      off.toNat = 10 ∨
        off.toNat = 11 ∨ off.toNat = 12 ∨ off.toNat = 13 := by omega
    rw [hoff]
    rcases hcases with h | h | h | h | h | h | h | h | h <;> rw [h] <;> decide

theorem writeMsiByte_sets (byte : UInt16 × UInt8) :
    SetsBytes (msiWritable.map (cap + ·)) f (writeMsiByte cap reg f byte) := by
  have hplace : ∀ {off : UInt16}, off - cap = 2 ∨ off - cap = 4 ∨ 5 ≤ off - cap ∧ off - cap ≤ 13 →
      off ∈ msiWritable.map (cap + ·) := fun {off} h =>
    List.mem_map.2 ⟨off - cap, mem_msiWritable h, by rw [UInt16.add_comm, UInt16.sub_add_cancel]⟩
  unfold writeMsiByte
  simp only
  split
  · exact .refl f
  · split
    · rename_i h
      exact .set _ (.refl f) (hplace (.inl h))
    · split
      · rename_i h
        exact .set _ (.refl f) (hplace (.inr (.inl h)))
      · split
        · rename_i h
          exact .set _ (.refl f) (hplace (.inr (.inr h)))
        · exact .refl f

theorem writeMsiBytes_sets (bytes : List (UInt16 × UInt8)) :
    SetsBytes (msiWritable.map (cap + ·)) f (bytes.foldl (writeMsiByte cap reg) f) := by
  induction bytes generalizing f with
  | nil => exact .refl f
  | cons byte bytes ih => exact (writeMsiByte_sets byte).trans ih

theorem writeMsi_sets (h : f.writeMsiCapabilityDword reg value = some g) : SetsBytes f.writable f g := by
  obtain ⟨cap, hcap, hg⟩ := Option.bind_eq_some_iff.1 h
  split at hg
  · cases hg
  · cases hg
    refine (writeMsiBytes_sets _).mono fun off hoff => List.mem_append_left _ ?_
    rw [hcap]
    exact hoff

theorem writePm_sets (h : f.writePmCapabilityDword reg value = some g) : SetsBytes f.writable f g := by
  obtain ⟨cap, hcap, hg⟩ := Option.bind_eq_some_iff.1 h
  simp only at hg
  split at hg
  · cases hg
  · split at hg
    · cases hg
      exact .refl f
    · cases hg
      refine .set _ (.refl f) (List.mem_append_right _ (List.mem_append_left _ ?_))
      rw [hcap]
      exact List.mem_cons_self

theorem writeMsix_sets (h : f.writeMsixCapabilityDword reg value = some g) : SetsBytes f.writable f g := by
  obtain ⟨cap, hcap, hg⟩ := Option.bind_eq_some_iff.1 h
  have hplace : ∀ off, off = cap + 2 ∨ off = cap + 2 + 1 → off ∈ f.writable := fun off hoff => by
    refine List.mem_append_right _ (List.mem_append_right _ ?_)
    unfold Function.msixCapabilityOffset at hcap
    rw [hcap]
    simpa using hoff
  simp only at hg
  split at hg
  · cases hg
  · cases hg
    exact .set _ (.set _ (.refl f) (hplace _ (.inl rfl))) (hplace _ (.inr rfl))

theorem writeCapability_sets (h : f.writeCapabilityDword reg value = some g) : SetsBytes f.writable f g := by
  unfold Function.writeCapabilityDword at h
  cases hmsi : f.writeMsiCapabilityDword reg value with
  | some k =>
    rw [hmsi] at h
    cases h
    exact writeMsi_sets hmsi
  | none =>
    rw [hmsi] at h
    cases hpm : f.writePmCapabilityDword reg value with
    | some k =>
      rw [hpm] at h
      cases h
      exact writePm_sets hpm
    | none =>
      rw [hpm] at h
      exact writeMsix_sets h

theorem writeDword_cases (f : Function) (reg : UInt16) (value : UInt32) :
    f.writeDword reg value = { f with command := value.toUInt16 &&& cmdWritableMask } ∨
    (∃ idx : Fin numBars, f.writeDword reg value =
      { f with bars := f.bars.set idx ((f.bars.get idx).write value) idx.isLt }) ∨
    SetsBytes f.writable f (f.writeDword reg value) := by
  unfold Function.writeDword
  split
  · exact .inl rfl
  · cases barIndex reg with
    | some idx => exact .inr (.inl ⟨idx, rfl⟩)
    | none =>
      refine .inr (.inr ?_)
      cases h : f.writeCapabilityDword reg value with
      | none => exact .refl f
      | some g => exact writeCapability_sets h

theorem writeDword_bdf (f : Function) (reg : UInt16) (value : UInt32) : (f.writeDword reg value).bdf = f.bdf := by
  rcases writeDword_cases f reg value with h | ⟨idx, h⟩ | h
  · rw [h]
  · rw [h]
  · rw [h.frame]

end Writes

end BridgeVm.Pcie
