import BridgeVm.Lib.Counting
import BridgeVm.Nvme.DataPath
import BridgeVm.Nvme.RefusedWrite

/-!
# The bytes of a namespace

- `DiskBackend.byteAt`: what the guest reads at a position of a backing store, and `readAtInto_eq`: every read returns
  it;
- `DiskBackend.Room`, `DiskBackend.Accepted`: the prefixes a store takes of a write and what they change, for every kind
  of store; `writeAt_accepted`: a write takes the longest;
- the stores a command leaves alone.
-/

namespace BridgeVm.Nvme

open Lib

variable {d : DataPath} {b b' b₁ b₂ : DiskBackend} {nsid nsid' off n k m : Nat} {data data' : List UInt8}
  {disk : RawFileDisk}

/-- The byte the guest sees at a position of the store. -/
def DiskBackend.byteAt : DiskBackend → Nat → Option UInt8
  | .memory disk, i => disk[i]?
  | .rawFile disk, i => disk.byteAt i

/-- A store as it is made and kept: a read-only file under its overlay, or a write-back file with none. -/
def DiskBackend.Sound : DiskBackend → Prop
  | .memory _ => True
  | .rawFile disk => disk.Wf ∨ disk.writeBack = true ∧ disk.file.length = disk.len ∧ disk.overlay = ∅

/-- A read inside the store returns its bytes. -/
theorem readAtInto_eq (hs : b.Sound) (hin : off + n ≤ b.byteLen) :
    ∃ bytes, b.readAtInto HostIo.fine off n = some bytes ∧ bytes.length = n ∧ ∀ j < n,
    bytes[j]? = b.byteAt (off + j) := by
  unfold DiskBackend.readAtInto
  rw [if_neg (Nat.not_lt.2 hin)]
  cases b with
  | memory disk => exact ⟨_, rfl, length_slice hin, fun j hj => by rw [getElem?_slice, if_pos hj]; rfl⟩
  | rawFile disk =>
    dsimp only
    rcases hs with hwf | ⟨-, hfile, hempty⟩
    · have hio : HostIo.fine.readFails off = false := rfl
      obtain ⟨bytes, hread, hlen, hget⟩ := readAt_eq hwf hin hio
      rw [hread]
      exact ⟨bytes, rfl, hlen, hget⟩
    · have hin' : off + n ≤ disk.file.length := hfile ▸ hin
      have hread : disk.readAt HostIo.fine off n = .ok (slice disk.file off n) := by
        unfold RawFileDisk.readAt RawFileDisk.readExactAt
        by_cases hn : n = 0
        · rw [if_pos hn, hn]
          simp [slice]
        · rw [if_neg hn, if_neg (by simp [HostIo.fine]), if_neg (Nat.not_lt.2 hin'), hempty]
          rfl
      rw [hread]
      refine ⟨_, rfl, length_slice hin', fun j hj => ?_⟩
      rw [getElem?_slice, if_pos hj]
      show _ = ChunkMap.elemAt fileOverlayChunkSize disk.file disk.overlay (off + j)
      rw [hempty, ChunkMap.elemAt_empty]

theorem readAtInto_of_bytes (hs : b.Sound) (hin : off + n ≤ b.byteLen) (hlen : data.length = n)
    (hdata : ∀ j < n, data[j]? = b.byteAt (off + j)) : b.readAtInto HostIo.fine off n = some data := by
  obtain ⟨bytes, hread, hblen, hbytes⟩ := readAtInto_eq hs hin
  have hsame : bytes = data := by
    refine List.ext_getElem? fun j => ?_
    by_cases hj : j < n
    · rw [hbytes j hj, hdata j hj]
    · rw [List.getElem?_eq_none (by omega), List.getElem?_eq_none (by omega)]
  rw [hread, hsame]

/-! ## What a store takes of a write -/

/-- The store takes `k` bytes at `off`: an overlay needs room for them. -/
def DiskBackend.Room (b : DiskBackend) (off k : Nat) : Prop :=
  match b with
  | .memory _ => True
  | .rawFile disk => disk.writeBack = true ∨ disk.Room HostIo.fine off k k

/-- The store after it took `data`'s first `k` bytes at `off`. -/
structure DiskBackend.Accepted (b b' : DiskBackend) (off : Nat) (data : List UInt8) (k : Nat) : Prop where
  sound : b'.Sound
  length : b'.byteLen = b.byteLen
  bytes : ∀ i, b'.byteAt i = if off ≤ i ∧ i < off + k then data[i - off]? else b.byteAt i
  room : ∀ m, b.Room off (k + m) ↔ b'.Room (off + k) m

theorem room_fine : RawFileDisk.Room disk HostIo.fine off n k ↔ RawFileDisk.Room disk HostIo.fine off m k :=
  ⟨fun h => ⟨h.inImage, h.quota, fun _ _ _ _ => rfl⟩, fun h => ⟨h.inImage, h.quota, fun _ _ _ _ => rfl⟩⟩

theorem DiskBackend.Room.of_le (h : b.Room off k) (hm : m ≤ k) : b.Room off m := by
  cases b with
  | memory disk => trivial
  | rawFile disk => exact h.imp id fun h => room_fine.1 (RawFileDisk.Room.of_le h hm)

theorem DiskBackend.room_zero (hs : b.Sound) (off : Nat) : b.Room off 0 := by
  cases b with
  | memory disk => trivial
  | rawFile disk => exact hs.symm.imp And.left Nvme.room_zero

theorem writeAt_writeBack (hback : disk.writeBack = true) (off : Nat) (data : List UInt8) :
    disk.writeAt HostIo.fine off data = ({ disk with file := splice disk.file off data }, .done) := by
  unfold RawFileDisk.writeAt
  cases data with
  | nil => rw [splice_nil]; rfl
  | cons c data =>
    rw [if_neg (by simp), if_pos hback]
    rfl

/-- A write inside the store: it takes the longest prefix there is room for, and succeeds when that is all of it. -/
theorem writeAt_accepted (hs : b.Sound) (hin : off + data.length ≤ b.byteLen) :
    ∃ k ≤ data.length, b.Room off k ∧ (k < data.length → ¬b.Room off (k + 1)) ∧
      b.Accepted (b.writeAt HostIo.fine off data).1 off data k ∧
      ((b.writeAt HostIo.fine off data).2 = true ↔ k = data.length) := by
  unfold DiskBackend.writeAt
  rw [if_neg (Nat.not_lt.2 hin)]
  cases b with
  | memory disk =>
    exact ⟨data.length, le_rfl, trivial, fun h => absurd h (Nat.lt_irrefl _),
      ⟨trivial, length_splice hin, getElem?_splice hin, fun _ => Iff.rfl⟩, by simp⟩
  | rawFile disk =>
    dsimp only
    rcases hs with hwf | ⟨hback, hfile, hempty⟩
    · rw [writeAt_overlay HostIo.fine hwf]
      obtain ⟨k, hk, hroom, hmax, hacc, hend⟩ := writeChunks_accepts HostIo.fine hwf off data le_rfl
      have hin' : off + data.length ≤ disk.len := hin
      have hns : (RawFileDisk.writeChunks HostIo.fine data.length disk off data).2 ≠ .stuck := fun hstuck => by
        have hall : k = data.length := by
          have := (hend.stuck hstuck).1
          omega
        rw [hend.done.2 hall] at hstuck
        cases hstuck
      have hacc := hacc hns
      refine ⟨k, hk, .inr (room_fine.1 hroom), fun hlt => ?_,
        ⟨.inl hacc.wf, hacc.same.2.1, hacc.bytes, fun m => ?_⟩, ?_⟩
      · rintro (hback | hmore)
        · rw [hwf.readOnly] at hback
          cases hback
        · exact hmax hlt (room_fine.1 hmore)
      · refine or_congr (by rw [hwf.readOnly, hacc.wf.readOnly]) ?_
        rw [room_fine (n := k + m) (m := data.length + m), room_fine (n := m) (m := data.length + m - k)]
        exact hacc.room_add (room_fine.1 hroom) (by omega)
      · rw [decide_eq_true_iff]
        exact hend.done
    · rw [writeAt_writeBack hback]
      have hin' : off + data.length ≤ disk.file.length := hfile ▸ hin
      refine ⟨data.length, le_rfl, .inl hback, fun h => absurd h (Nat.lt_irrefl _),
        ⟨.inr ⟨hback, (length_splice hin').trans hfile, hempty⟩, rfl, fun i => ?_,
          fun _ => ⟨fun _ => .inl hback, fun _ => .inl hback⟩⟩,
        by simp⟩
      show ChunkMap.elemAt fileOverlayChunkSize (splice disk.file off data) disk.overlay i =
        if off ≤ i ∧ i < off + data.length then data[i - off]?
          else ChunkMap.elemAt fileOverlayChunkSize disk.file disk.overlay i
      rw [hempty, ChunkMap.elemAt_empty, ChunkMap.elemAt_empty, getElem?_splice hin']

theorem DiskBackend.Accepted.congr (h : b.Accepted b' off data k) (hdata : ∀ i < k, data[i]? = data'[i]?) :
    b.Accepted b' off data' k := by
  refine ⟨h.sound, h.length, fun i => ?_, h.room⟩
  rw [h.bytes i]
  split
  · exact hdata _ (by omega)
  · rfl

theorem DiskBackend.Room.longest_unique (hk : k ≤ n) (hm : m ≤ n) (hroom : b.Room off k) (hroom' : b.Room off m)
    (hmax : k < n → ¬b.Room off (k + 1)) (hmax' : m < n → ¬b.Room off (m + 1)) : k = m := by
  rcases Nat.lt_trichotomy k m with hlt | heq | hlt
  · exact absurd (hroom'.of_le hlt) (hmax (by omega))
  · exact heq
  · exact absurd (hroom.of_le hlt) (hmax' (by omega))

theorem DiskBackend.Accepted.refl (hs : b.Sound) (off : Nat) (data : List UInt8) : b.Accepted b off data 0 :=
  ⟨hs, rfl, fun i => by rw [if_neg (by omega)], fun m => by rw [Nat.zero_add, Nat.add_zero]⟩

theorem DiskBackend.Accepted.trans (h : b.Accepted b₁ off data k)
    (h' : b₁.Accepted b₂ (off + k) (data.drop k) m) :
    b.Accepted b₂ off data (k + m) where
  sound := h'.sound
  length := h'.length.trans h.length
  bytes i := by
    rw [h'.bytes i, h.bytes i, ite_prefix_add]
  room j := by rw [Nat.add_assoc, h.room, h'.room, Nat.add_assoc]

namespace DataPath

/-- The byte at a position of a namespace. -/
def diskByte (d : DataPath) (nsid i : Nat) : Option UInt8 := (d.backendForNsid nsid).bind fun b => b.byteAt i

theorem backendForNsid_setBackend (h : (d.backendForNsid nsid).isSome) (b : DiskBackend) :
    (d.setBackend nsid b).backendForNsid nsid' = if nsid' = nsid then some b else d.backendForNsid nsid' := by
  unfold backendForNsid at h
  unfold setBackend backendForNsid
  by_cases h1 : nsid = nsid1
  · subst h1
    rw [if_pos rfl]
    by_cases h' : nsid' = nsid1
    · rw [if_pos h', if_pos h']
    · rw [if_neg h', if_neg h', if_neg h']
  · rw [if_neg h1]
    dsimp only
    by_cases h2 : nsid = nsid2
    · subst h2
      by_cases h' : nsid' = nsid2
      · subst h'
        rfl
      · rw [if_neg h', if_neg h', if_neg h']
    · rw [if_neg h1, if_neg h2] at h
      cases h

theorem backendForNsid_hostCall (d : DataPath) (nsid : Nat) :
    d.hostCall.2.backendForNsid nsid = d.backendForNsid nsid := rfl

theorem mem_setBackend (d : DataPath) (nsid : Nat) (b : DiskBackend) : (d.setBackend nsid b).mem = d.mem := by
  unfold setBackend
  split <;> rfl

theorem host_setBackend (d : DataPath) (nsid : Nat) (b : DiskBackend) : (d.setBackend nsid b).host = d.host := by
  unfold setBackend
  split <;> rfl

theorem hostPtr_setBackend (d : DataPath) (nsid : Nat) (b : DiskBackend) :
    (d.setBackend nsid b).hostPtr = d.hostPtr := by
  unfold setBackend
  split <;> rfl

end DataPath

end BridgeVm.Nvme
