import BridgeVm.Lib.EventLog
import BridgeVm.Lib.Transition
import BridgeVm.Tpm.Tis

/-!
# Framing of commands, isolation of localities

What the guest did is a log of its accesses. `Framed` ties the shared buffer to the log: in the reception of the active
locality it holds the first 4096 bytes written since the last Ready state, after a command its response. Every call of
the backend is then the command as it was written, and every byte read belongs to the response of the locality's own
command. A command of 4096 bytes with bytes behind it is the exception: the buffer is full and drops them.
-/

namespace BridgeVm.Tpm

open Lib

/-! ## Accesses by register -/

local instance neZeroLocalities : NeZero 5 := ⟨by decide⟩

/-- What an access is to the locality whose page it hits. -/
inductive Access
  | fifoRead (l : Fin 5) (size : Nat)
  | fifoWrite (l : Fin 5) (bytes : List UInt8)
  | status (l : Fin 5) (value : Nat)
  | access (l : Fin 5) (value : Nat)
  | other
deriving DecidableEq

def Mmio.access : Mmio → Access
  | .read offset size =>
    if ¬(size = 1 ∨ size = 2 ∨ size = 4) ∨ mmioSize ≤ offset then .other
    else if isFifo (offset % localitySize) then .fifoRead (Fin.ofNat 5 (offset / localitySize)) size
    else .other
  | .write offset size value =>
    if ¬(size = 1 ∨ size = 2 ∨ size = 4) ∨ mmioSize ≤ offset then .other
    else
      let locality := Fin.ofNat 5 (offset / localitySize)
      let registerOffset := offset % localitySize
      let aligned := registerOffset - registerOffset % 4
      let shifted := ((value % 2 ^ 32) <<< (registerOffset % 4 * 8)) % 2 ^ 32
      if isFifo registerOffset then .fifoWrite locality (accessBytes registerOffset size value)
      else if aligned = regAccess then .access locality (shifted % 256)
      else if aligned = regSts then .status locality shifted
      else .other

/-- The locality an access belongs to. -/
def Mmio.locality (op : Mmio) : Fin 5 := Fin.ofNat 5 (op.offset / localitySize)

namespace Entry

variable (l : Fin 5) (e : Entry)

/-- The active locality `l` enters its Ready state. -/
def ready : Bool :=
  match e.op.access with
  | .status l' value => l' = l && e.active = some l && value &&& stsCommandReady ≠ 0
  | _ => false

/-- A GO of the active locality `l`. -/
def go : Bool :=
  match e.op.access with
  | .status l' value => l' = l && e.active = some l && value &&& stsTpmGo ≠ 0
  | _ => false

/-- A response-retry of `l`. -/
def retry : Bool :=
  match e.op.access with
  | .status l' value => l' = l && value &&& stsResponseRetry ≠ 0
  | _ => false

/-- The bytes that `l` writes to its FIFO. -/
def written : List UInt8 :=
  match e.op.access with
  | .fifoWrite l' bytes => if l' = l then bytes else []
  | _ => []

/-- How many bytes `l` reads from its FIFO. -/
def readSize : Nat :=
  match e.op.access with
  | .fifoRead l' size => if l' = l then size else 0
  | _ => 0

end Entry

/-- What `l` wrote to its FIFO since its last Ready state. -/
def bytesSince (l : Fin 5) (log : List Entry) : List UInt8 :=
  (since (Entry.ready l) log).reverse.flatMap (Entry.written l)

/-- How many bytes `l` read since its last response-retry. -/
def bytesRead (l : Fin 5) (log : List Entry) : Nat := ((since (Entry.retry l) log).map (Entry.readSize l)).sum

/-- The response in the buffer: `l` got it to its GO, and has been active since, with no Ready state in between. -/
structure Answered (l : Fin 5) (response : List UInt8) (later : List Entry) (g : Entry) : Prop where
  go : g.go l = true
  response : g.response = some response
  later : ∀ e ∈ later, e.active = some l ∧ e.ready l = false ∧ e.response = none

/-! ## The buffer -/

section Bytes

variable {buffer bytes : List UInt8}

theorem pushBytes_fst (hle : buffer.length ≤ maxBufferSize) :
    (pushBytes buffer bytes).1 = (buffer ++ bytes).take maxBufferSize := by
  induction bytes generalizing buffer with
  | nil => rw [pushBytes, List.append_nil, List.take_of_length_le hle]
  | cons byte bytes ih =>
    rw [pushBytes]
    split
    · rw [List.take_append_of_le_length (by omega), List.take_of_length_le hle]
    · rw [ih (by rw [List.length_append, List.length_singleton]; omega), List.append_assoc, List.singleton_append]

theorem take_append_take {α : Type} (n : Nat) (xs ys : List α) : (xs.take n ++ ys).take n = (xs ++ ys).take n := by
  rw [List.take_append, List.take_append, List.take_take, Nat.min_self]
  by_cases h : xs.length ≤ n
  · rw [List.length_take, Nat.min_eq_right h]
  · rw [List.length_take, Nat.min_eq_left (by omega), Nat.sub_self, show n - xs.length = 0 by omega]

theorem packetSize_take (h : 6 ≤ buffer.length) {n : Nat} (hn : 6 ≤ n) :
    packetSize ((buffer ++ bytes).take n) = packetSize buffer := by
  have hlen : 6 ≤ ((buffer ++ bytes).take n).length := by
    rw [List.length_take, List.length_append]
    omega
  unfold packetSize
  rw [if_pos hlen, if_pos h, List.drop_take, List.take_take, Nat.min_eq_left (by omega),
    List.drop_append_of_le_length (by omega), List.take_append_of_le_length (by rw [List.length_drop]; omega)]

theorem takeBytes_spec (buffer : List UInt8) (n : Nat) : ∀ offset, offset ≤ buffer.length →
    takeBytes buffer offset n =
      ((buffer.drop offset ++ List.replicate n 0xff).take n, min buffer.length (offset + n)) := by
  induction n with
  | zero =>
    intro offset hle
    simp [takeBytes, hle]
  | succ n ih =>
    intro offset hle
    rw [takeBytes]
    by_cases hlt : offset < buffer.length
    · rw [if_pos hlt, ih (offset + 1) (by omega), List.getElem?_eq_getElem hlt, List.drop_eq_getElem_cons hlt]
      simp only [Option.getD_some, List.cons_append, List.take_succ_cons, Prod.mk.injEq, List.cons.injEq, true_and]
      refine ⟨?_, by omega⟩
      rw [List.replicate_succ', ← List.append_assoc]
      refine (List.take_append_of_le_length ?_).symm
      rw [List.length_append, List.length_replicate]
      omega
    · have hend : buffer.drop offset = [] := List.drop_eq_nil_of_le (by omega)
      rw [if_neg hlt, ih offset hle, List.getElem?_eq_none (by omega), hend]
      simp only [Option.getD_none, List.nil_append, List.replicate_succ, List.take_succ_cons, Prod.mk.injEq, true_and]
      omega

end Bytes

/-! ## The invariant -/

variable {β : Type} {execute : β → Fin 5 → List UInt8 → Option (List UInt8) × β}

/-- The buffer of the active locality `a`, in its state. -/
def BufferHolds (t : TpmTis β) (log : List Entry) (a : Fin 5) : TisState → Prop
  | .idle => True
  | .ready => bytesSince a log = []
  | .reception =>
    t.buffer = (bytesSince a log).take maxBufferSize ∧
      (maxBufferSize < (bytesSince a log).length → packetSize t.buffer ≠ .ok maxBufferSize)
  | .completion =>
    ∃ later g earlier, log = later ++ g :: earlier ∧ Answered a t.buffer later g ∧
      t.rwOffset = min t.buffer.length (bytesRead a later)

/-- What every access keeps. -/
structure Framed (t : TpmTis β) (log : List Entry) : Prop where
  idle : ∀ l, t.activeLocality ≠ some l → (t.localities l).state = .idle
  active : ∀ a, t.activeLocality = some a → BufferHolds t log a (t.localities a).state

theorem framed_new (backend : β) : Framed (TpmTis.new backend) [] where
  idle := fun _ _ => rfl
  active := nofun

/-- A reception that takes a command of the maximum size no further than its last byte. -/
def Fits (t : TpmTis β) (op : Mmio) : Prop :=
  match op.access with
  | .fifoWrite l bytes =>
    t.activeLocality = some l → (t.localities l).state = .reception →
      t.buffer.length + bytes.length ≤ maxBufferSize ∨ packetSize t.buffer ≠ .ok maxBufferSize
  | _ => True

instance (t : TpmTis β) (op : Mmio) : Decidable (Fits t op) := by
  unfold Fits
  split <;> infer_instance

/-- An access that left the buffer, the offset, the active locality and all states alone. -/
structure SameCore (t t' : TpmTis β) : Prop where
  activeLocality : t'.activeLocality = t.activeLocality
  buffer : t'.buffer = t.buffer
  rwOffset : t'.rwOffset = t.rwOffset
  state : ∀ l, (t'.localities l).state = (t.localities l).state

theorem SameCore.refl (t : TpmTis β) : SameCore t t := ⟨rfl, rfl, rfl, fun _ => rfl⟩

section Log

variable {t t' : TpmTis β} {log : List Entry} {e : Entry} {a l : Fin 5}

@[simp] theorem setLocality_same (t : TpmTis β) (l : Fin 5) (f : Locality → Locality) :
    (t.setLocality l f).localities l = f (t.localities l) := by simp [TpmTis.setLocality]

theorem setLocality_other (t : TpmTis β) {l l' : Fin 5} (f : Locality → Locality) (h : l' ≠ l) :
    (t.setLocality l f).localities l' = t.localities l' := by simp [TpmTis.setLocality, h]

theorem bytesSince_cons (h : e.ready a = false) : bytesSince a (e :: log) = bytesSince a log ++ e.written a := by
  rw [bytesSince, since_event h, List.reverse_cons, List.flatMap_append, List.flatMap_singleton, ← bytesSince]

theorem bytesSince_ready (h : e.ready a = true) : bytesSince a (e :: log) = [] := by
  rw [bytesSince, since_mark h]
  rfl

theorem bytesRead_cons (h : e.retry a = false) : bytesRead a (e :: log) = e.readSize a + bytesRead a log := by
  rw [bytesRead, since_event h, List.map_cons, List.sum_cons, ← bytesRead]

theorem bytesRead_retry (h : e.retry a = true) : bytesRead a (e :: log) = 0 := by
  rw [bytesRead, since_mark h]
  rfl

/-- An access the active locality's buffer does not hear of. -/
theorem Framed.quiet (h : Framed t log) (hcore : SameCore t t') (hactive : e.active = t.activeLocality)
    (hresponse : e.response = none) (hready : ∀ a, t.activeLocality = some a → e.ready a = false)
    (hwritten : ∀ a, t.activeLocality = some a → (t.localities a).state = .ready ∨
      (t.localities a).state = .reception →
      e.written a = [])
    (hread : ∀ a, t.activeLocality = some a → (t.localities a).state = .completion →
      e.retry a = false ∧ e.readSize a = 0) : Framed t' (e :: log) := by
  refine ⟨fun l hl => ?_, fun a ha => ?_⟩
  · rw [hcore.state]
    exact h.idle l (by rwa [← hcore.activeLocality])
  · rw [hcore.activeLocality] at ha
    rw [hcore.state]
    have hold := h.active a ha
    cases hstate : (t.localities a).state with
    | idle => trivial
    | ready =>
      rw [hstate] at hold
      show bytesSince a (e :: log) = []
      rw [bytesSince_cons (hready a ha), hwritten a ha (.inl hstate), List.append_nil]
      exact hold
    | reception =>
      rw [hstate] at hold
      show t'.buffer = _ ∧ (_ → packetSize t'.buffer ≠ _)
      rw [bytesSince_cons (hready a ha), hwritten a ha (.inr hstate), List.append_nil, hcore.buffer]
      exact hold
    | completion =>
      rw [hstate] at hold
      obtain ⟨later, g, earlier, rfl, hans, hoff⟩ := hold
      obtain ⟨hretry, hsize⟩ := hread a ha hstate
      refine ⟨e :: later, g, earlier, rfl, ⟨hans.go, ?_, ?_⟩, ?_⟩
      · rw [hcore.buffer]
        exact hans.response
      · intro x hx
        rcases List.mem_cons.mp hx with rfl | hx
        · exact ⟨hactive.trans ha, hready a ha, hresponse⟩
        · exact hans.later x hx
      · rw [hcore.rwOffset, hcore.buffer, bytesRead_cons hretry, hsize, Nat.zero_add]
        exact hoff

theorem framed_of_idle (h : ∀ l, (t.localities l).state = .idle) : Framed t log where
  idle := fun l _ => h l
  active := by
    intro a _
    rw [h a]
    trivial

theorem Framed.update (h : Framed t log) (ha : t.activeLocality = some a) (hactive : t'.activeLocality = some a)
    (hothers : ∀ l, l ≠ a → (t'.localities l).state = (t.localities l).state)
    (hholds : BufferHolds t' (e :: log) a (t'.localities a).state) : Framed t' (e :: log) := by
  refine ⟨fun l hl => ?_, fun l hl => ?_⟩
  · have hne : l ≠ a := fun heq => hl (heq ▸ hactive)
    rw [hothers l hne]
    exact h.idle l (by rw [ha]; exact fun heq => hne (Option.some_inj.mp heq).symm)
  · obtain rfl : a = l := Option.some_inj.mp (hactive.symm.trans hl)
    exact hholds

/-! ## Accesses, one by one -/

theorem requestUse_state (t : TpmTis β) (l l' : Fin 5) :
    ((requestUse t l).localities l').state = (t.localities l').state := by
  unfold requestUse
  dsimp only
  by_cases hl : l' = l
  · subst hl
    split <;> simp
  · split <;> simp [setLocality_other, hl]

theorem requestUse_core (t : TpmTis β) (l : Fin 5) (h : t.activeLocality ≠ none) : SameCore t (requestUse t l) := by
  refine ⟨?_, ?_, ?_, requestUse_state t l⟩ <;> simp [requestUse, TpmTis.setLocality, h]

/-- A locality that loses the interface, and one that gets it, is idle. -/
theorem framed_writeAccess {value : Nat} (h : Framed t log) (hop : e.op.access = .access l value)
    (hactive : e.active = t.activeLocality) (hresponse : e.response = none) :
    Framed (writeAccess t l value) (e :: log) := by
  have hquiet : ∀ t' : TpmTis β, SameCore t t' → Framed t' (e :: log) := fun t' hcore =>
    h.quiet hcore hactive hresponse (by simp [Entry.ready, hop]) (by simp [Entry.written, hop])
      (by simp [Entry.retry, Entry.readSize, hop])
  unfold writeAccess
  by_cases hrelease : value &&& accessActiveLocality ≠ 0 ∧ t.activeLocality = some l
  · have hidle : ∀ l', ((relinquish t l).localities l').state = .idle := by
      intro l'
      by_cases hl : l' = l
      · subst hl
        show ((t.setLocality l' fun _ => Locality.default).localities l').state = .idle
        rw [setLocality_same]
        rfl
      · show ((t.setLocality l fun _ => Locality.default).localities l').state = .idle
        rw [setLocality_other t _ hl]
        apply h.idle
        rw [hrelease.2]
        exact fun heq => hl (Option.some_inj.mp heq).symm
    simp only [if_pos hrelease]
    split
    · exact framed_of_idle fun l' => by rw [requestUse_state, hidle]
    · exact framed_of_idle hidle
  · simp only [if_neg hrelease]
    split
    · by_cases hnone : t.activeLocality = none
      · refine framed_of_idle fun l' => ?_
        rw [requestUse_state]
        exact h.idle l' (by simp [hnone])
      · exact hquiet _ (requestUse_core t l hnone)
    · exact hquiet t (.refl t)

theorem requestUse_buffer (t : TpmTis β) (l : Fin 5) :
    (requestUse t l).buffer = t.buffer ∧ (requestUse t l).rwOffset = t.rwOffset := by
  unfold requestUse
  dsimp only
  split <;> exact ⟨rfl, rfl⟩

theorem writeAccess_buffer (t : TpmTis β) (l : Fin 5) (value : Nat) :
    (writeAccess t l value).buffer = t.buffer ∧ (writeAccess t l value).rwOffset = t.rwOffset := by
  unfold writeAccess
  dsimp only
  split <;> split
  · exact requestUse_buffer (relinquish t l) l
  · exact requestUse_buffer t l
  · exact ⟨rfl, rfl⟩
  · exact ⟨rfl, rfl⟩

theorem receive_reception (hstate : (t.localities l).state = .reception) (hle : t.buffer.length ≤ maxBufferSize)
    (bytes : List UInt8) :
    (receive t l bytes).buffer = (t.buffer ++ bytes).take maxBufferSize ∧
      (receive t l bytes).activeLocality = t.activeLocality ∧
      ∀ l', ((receive t l bytes).localities l').state = (t.localities l').state := by
  unfold receive
  rw [if_neg (by simp [hstate])]
  refine ⟨pushBytes_fst hle, rfl, fun l' => ?_⟩
  by_cases hl : l' = l
  · subst hl
    simp
  · simp [setLocality_other, hl]

/-- The bytes of a reception that has begun, or begins with them. -/
theorem framed_receive {bytes : List UInt8} {t₁ : TpmTis β} (h : Framed t log) (ha : t.activeLocality = some l)
    (hactive : t₁.activeLocality = some l) (hothers : ∀ l', l' ≠ l →
      (t₁.localities l').state = (t.localities l').state)
    (hstate : (t₁.localities l).state = .reception) (hholds : BufferHolds t₁ log l .reception)
    (hready : e.ready l = false) (hwritten : e.written l = bytes) (hshort : bytes.length ≤ 4)
    (hfits : t₁.buffer.length + bytes.length ≤ maxBufferSize ∨ packetSize t₁.buffer ≠ .ok maxBufferSize) :
    Framed (receive t₁ l bytes) (e :: log) := by
  obtain ⟨hbuffer, hover⟩ := hholds
  have hlen : t₁.buffer.length = min maxBufferSize (bytesSince l log).length := by rw [hbuffer, List.length_take]
  obtain ⟨hbuf, hact, hstates⟩ := receive_reception hstate (by omega) bytes
  refine h.update ha (hact.trans hactive) (fun l' hl => (hstates l').trans (hothers l' hl)) ?_
  rw [hstates l, hstate]
  refine ⟨?_, fun hlong => ?_⟩
  · rw [hbuf, hbuffer, bytesSince_cons hready, hwritten, take_append_take]
  · -- bytes were dropped, by this write or before it
    rw [bytesSince_cons hready, hwritten, List.length_append] at hlong
    have hmax : maxBufferSize = 4096 := rfl
    rw [hbuf, packetSize_take (by omega) (by omega)]
    by_cases hbefore : maxBufferSize < (bytesSince l log).length
    · exact hover hbefore
    · exact hfits.resolve_left (by omega)

/-- A FIFO write. -/
theorem framed_writeFifo {registerOffset size value : Nat} (h : Framed t log)
    (hop : e.op.access = .fifoWrite l (accessBytes registerOffset size value)) (hactive : e.active = t.activeLocality)
    (hresponse : e.response = none) (hfits : Fits t e.op) :
    Framed (writeFifo t l registerOffset size value) (e :: log) := by
  have hready : ∀ a, e.ready a = false := fun a => by simp [Entry.ready, hop]
  have hread : ∀ a, e.retry a = false ∧ e.readSize a = 0 := fun a => by simp [Entry.retry, Entry.readSize, hop]
  have hwritten : e.written l = accessBytes registerOffset size value := by simp [Entry.written, hop]
  have hshort : (accessBytes registerOffset size value).length ≤ 4 := by
    rw [accessBytes, length_toLeBytes]
    omega
  unfold writeFifo
  split
  · rename_i hne
    refine h.quiet (.refl t) hactive hresponse (fun a _ => hready a) (fun a ha _ => ?_) fun a _ _ => hread a
    have hla : l ≠ a := fun heq => hne (heq ▸ ha)
    simp [Entry.written, hop, hla]
  · rename_i ha
    have ha : t.activeLocality = some l := not_not.mp ha
    have hold := h.active l ha
    cases hstate : (t.localities l).state with
    | idle =>
      have hsame : receive (beginReception t l) l (accessBytes registerOffset size value) = t := by
        simp [receive, beginReception, hstate]
      rw [hsame]
      refine h.update ha ha (fun _ _ => rfl) ?_
      rw [hstate]
      trivial
    | ready =>
      -- the first bytes: nothing was written since the Ready state
      rw [hstate] at hold
      have hnone : bytesSince l log = [] := hold
      have hbegin : beginReception t l =
          { t.setLocality l fun item => { item with state := .reception, status := stsValid ||| stsExpect } with
            buffer := [], rwOffset := 0 } := by rw [beginReception, if_pos hstate]
      rw [hbegin]
      refine framed_receive h ha ha (fun l' hl => ?_) (by simp) ?_ (hready l) hwritten hshort (.inl ?_)
      · simp [setLocality_other, hl]
      · simp [BufferHolds, hnone]
      · show 0 + _ ≤ 4096
        omega
    | reception =>
      rw [hstate] at hold
      have hbegin : beginReception t l = t := by simp [beginReception, hstate]
      rw [hbegin]
      rw [Fits, hop] at hfits
      exact framed_receive h ha ha (fun _ _ => rfl) hstate hold (hready l) hwritten hshort (hfits ha hstate)
    | completion =>
      have hsame : receive (beginReception t l) l (accessBytes registerOffset size value) = t := by
        simp [receive, beginReception, hstate]
      rw [hsame]
      refine h.quiet (.refl t) hactive hresponse (fun a _ => hready a) (fun a ha' hs => ?_) fun a _ _ => hread a
      obtain rfl : l = a := Option.some_inj.mp (ha.symm.trans ha')
      simp [hstate] at hs

/-- A FIFO read: the next bytes of the response. -/
theorem framed_readFifo {size : Nat} (h : Framed t log) (hop : e.op.access = .fifoRead l size)
    (hactive : e.active = t.activeLocality) (hresponse : e.response = none) :
    Framed (readFifo t l size).2 (e :: log) := by
  have hready : ∀ a, e.ready a = false := fun a => by simp [Entry.ready, hop]
  have hwritten : ∀ a, e.written a = [] := fun a => by simp [Entry.written, hop]
  have hretry : ∀ a, e.retry a = false := fun a => by simp [Entry.retry, hop]
  unfold readFifo
  split
  · rename_i hnot
    refine h.quiet (.refl t) hactive hresponse (fun a _ => hready a) (fun a _ _ => hwritten a) fun a ha hs => ?_
    have hla : l ≠ a := fun heq => by
      subst heq
      exact hnot.elim (fun hne => hne ha) fun hne => hne hs
    exact ⟨hretry a, by simp [Entry.readSize, hop, hla]⟩
  · rename_i hcan
    obtain ⟨ha, hstate⟩ : t.activeLocality = some l ∧ (t.localities l).state = .completion := by
      simpa using hcan
    have hold := h.active l ha
    rw [hstate] at hold
    obtain ⟨later, g, earlier, rfl, hans, hoff⟩ := hold
    have hsize : e.readSize l = size := by simp [Entry.readSize, hop]
    have htake := takeBytes_spec t.buffer size t.rwOffset (by omega)
    have hholds : ∀ t' : TpmTis β, t'.buffer = t.buffer → t'.rwOffset = min t.buffer.length (t.rwOffset + size) →
        BufferHolds t' (e :: (later ++ g :: earlier)) l .completion := by
      intro t' hbuffer hnext
      refine ⟨e :: later, g, earlier, rfl, ⟨hans.go, ?_, ?_⟩, ?_⟩
      · rw [hbuffer]
        exact hans.response
      · intro x hx
        rcases List.mem_cons.mp hx with rfl | hx
        · exact ⟨hactive.trans ha, hready l, hresponse⟩
        · exact hans.later x hx
      · rw [hnext, hbuffer, bytesRead_cons (hretry l), hsize, hoff]
        omega
    simp only [htake]
    split
    · refine h.update ha ha (fun l' hl => ?_) ?_
      · simp [setLocality_other, hl]
      · rw [setLocality_same]
        simp only [hstate]
        exact hholds _ rfl rfl
    · refine h.update ha ha (fun _ _ => rfl) ?_
      rw [hstate]
      exact hholds _ rfl rfl

/-- A status write. -/
theorem framed_writeStatus {value : Nat} (h : Framed t log) (hop : e.op.access = .status l value)
    (hactive : e.active = t.activeLocality) (hresponse : e.response = (writeStatus t l execute value).2.2) :
    Framed (writeStatus t l execute value).1 (e :: log) := by
  have hwritten : ∀ a, e.written a = [] := fun a => by simp [Entry.written, hop]
  have hsize : ∀ a, e.readSize a = 0 := fun a => by simp [Entry.readSize, hop]
  unfold writeStatus at hresponse ⊢
  split at hresponse
  · -- not the active locality
    rename_i hne
    rw [if_pos hne]
    have hla : ∀ a, t.activeLocality = some a → l ≠ a := fun a ha heq => hne (heq ▸ ha)
    exact h.quiet (.refl t) hactive hresponse (fun a ha => by simp [Entry.ready, hop, hla a ha])
      (fun a _ _ => hwritten a) fun a ha _ => ⟨by simp [Entry.retry, hop, hla a ha], hsize a⟩
  · rename_i ha
    rw [if_neg ha]
    have ha : t.activeLocality = some l := not_not.mp ha
    have hself : ∀ a, t.activeLocality = some a → l = a := fun a ha' => Option.some_inj.mp (ha.symm.trans ha')
    split at hresponse
    · rename_i hcmd
      rw [if_pos hcmd]
      refine h.update ha ha (fun l' hl => by simp [setLocality_other, hl]) ?_
      have hready : e.ready l = true := by simp [Entry.ready, hop, hactive, ha, hcmd]
      have hnone : bytesSince l (e :: log) = [] := bytesSince_ready hready
      simpa [BufferHolds] using hnone
    · rename_i hcmd
      rw [if_neg hcmd]
      have hready : ∀ a, e.ready a = false := fun a => by simp_all [Entry.ready]
      split at hresponse
      · -- the response from its start
        rename_i hretry
        rw [if_pos hretry]
        have hold := h.active l ha
        rw [hretry.2] at hold
        obtain ⟨later, g, earlier, rfl, hans, -⟩ := hold
        refine h.update ha ha (fun l' hl => by simp [setLocality_other, hl]) ?_
        rw [setLocality_same]
        simp only [hretry.2]
        refine ⟨e :: later, g, earlier, rfl, ⟨hans.go, hans.response, ?_⟩, ?_⟩
        · intro x hx
          rcases List.mem_cons.mp hx with rfl | hx
          · exact ⟨hactive.trans ha, hready l, hresponse⟩
          · exact hans.later x hx
        · rw [bytesRead_retry (by simp [Entry.retry, hop, hretry.1])]
          exact (Nat.min_zero _).symm
      · rename_i hretry
        rw [if_neg hretry]
        split at hresponse
        · -- the command gets its response
          rename_i hgo
          rw [if_pos hgo]
          refine h.update ha ha (fun l' hl => by simp [executeCommand, setLocality_other, hl]) ?_
          have hstate : ((executeCommand t l execute).1.localities l).state = .completion := by simp [executeCommand]
          rw [hstate]
          refine ⟨[], e, log, rfl, ⟨?_, hresponse, by simp⟩, (Nat.min_zero _).symm⟩
          simp [Entry.go, hop, hactive, ha, hgo.1]
        · rename_i hgo
          rw [if_neg hgo]
          refine h.quiet (.refl t) hactive hresponse (fun a _ => hready a) (fun a _ _ => hwritten a) ?_
          intro a ha' hs
          obtain rfl := hself a ha'
          exact ⟨by simp_all [Entry.retry], hsize l⟩

/-- A call of the backend is the command as it was written, and of the size it declares. -/
def Commanded (e : Entry) (log : List Entry) : Prop :=
  ∀ l command, e.call = some (l, command) →
    e.go l = true ∧ command = bytesSince l log ∧ packetSize command = .ok command.length

theorem commanded_writeStatus {value : Nat} (h : Framed t log) (hop : e.op.access = .status l value)
    (hactive : e.active = t.activeLocality) (hcall : e.call = (writeStatus t l execute value).2.1) :
    Commanded e log := by
  intro l' command hsome
  rw [hcall] at hsome
  unfold writeStatus at hsome
  split at hsome
  · cases hsome
  · rename_i ha
    have ha : t.activeLocality = some l := not_not.mp ha
    split at hsome
    · cases hsome
    · split at hsome
      · cases hsome
      · split at hsome
        · rename_i hgo
          obtain ⟨hbit, hstate, -⟩ := hgo
          have hold := h.active l ha
          rw [hstate] at hold
          obtain ⟨hbuffer, hover⟩ := hold
          simp only [executeCommand, respond] at hsome
          split at hsome
          · cases hsome
          · rename_i hvalid
            obtain ⟨hlen, hsize⟩ := validatePacket_ok hvalid
            obtain ⟨rfl, rfl⟩ : l = l' ∧ t.buffer = command := by simpa using hsome
            refine ⟨by simp [Entry.go, hop, hactive, ha, hbit], ?_, hsize⟩
            by_cases hlong : maxBufferSize < (bytesSince l log).length
            · -- a full buffer would declare its own size
              have hfull : t.buffer.length = maxBufferSize := by
                rw [hbuffer, List.length_take]
                omega
              rw [hfull] at hsize
              exact absurd hsize (hover hlong)
            · rw [hbuffer, List.take_of_length_le (by omega)]
        · cases hsome

/-- What a FIFO read returns is the next bytes of the response to the locality's own command, `0xff` behind its end. -/
def ReadsOwn (e : Entry) (log : List Entry) : Prop :=
  ∀ l size, e.op.access = .fifoRead l size → e.value ≠ 2 ^ 64 - 1 →
    e.active = some l ∧ ∃ later g earlier response, log = later ++ g :: earlier ∧ Answered l response later g ∧
      e.value = ofLeBytes ((response.drop (bytesRead l later) ++ List.replicate size 0xff).take size)

theorem readsOwn_readFifo {size : Nat} (h : Framed t log) (hop : e.op.access = .fifoRead l size)
    (hactive : e.active = t.activeLocality) (hvalue : e.value = (readFifo t l size).1) : ReadsOwn e log := by
  intro l' size' hop' hsome
  obtain ⟨rfl, rfl⟩ : l = l' ∧ size = size' := by simpa [hop] using hop'
  unfold readFifo at hvalue
  split at hvalue
  · exact absurd hvalue hsome
  · rename_i hcan
    obtain ⟨ha, hstate⟩ : t.activeLocality = some l ∧ (t.localities l).state = .completion := by
      simpa using hcan
    have hold := h.active l ha
    rw [hstate] at hold
    obtain ⟨later, g, earlier, rfl, hans, hoff⟩ := hold
    refine ⟨hactive.trans ha, later, g, earlier, t.buffer, rfl, hans, ?_⟩
    simp only [takeBytes_spec t.buffer size t.rwOffset (by omega)] at hvalue
    have hdrop : t.buffer.drop t.rwOffset = t.buffer.drop (bytesRead l later) := by
      rw [hoff]
      by_cases hle : bytesRead l later ≤ t.buffer.length
      · rw [Nat.min_eq_right hle]
      · rw [Nat.min_eq_left (by omega), List.drop_length, List.drop_eq_nil_of_le (by omega)]
    rw [hvalue, hdrop]

theorem Framed.other (h : Framed t log) (hcore : SameCore t t') (hop : e.op.access = .other)
    (hactive : e.active = t.activeLocality) (hresponse : e.response = none) : Framed t' (e :: log) :=
  h.quiet hcore hactive hresponse (by simp [Entry.ready, hop]) (by simp [Entry.written, hop])
    (by simp [Entry.retry, Entry.readSize, hop])

theorem setLocality_core (t : TpmTis β) (l : Fin 5) (f : Locality → Locality)
    (hf : ∀ item, (f item).state = item.state) :
    SameCore t (t.setLocality l f) := by
  refine ⟨rfl, rfl, rfl, fun l' => ?_⟩
  by_cases hl : l' = l
  · subst hl
    rw [setLocality_same, hf]
  · rw [setLocality_other t f hl]

end Log

/-! ## Runs -/

section Runs

variable {s s' : Session β} {op : Mmio} {t : TpmTis β}

theorem mmioRead_cases (t : TpmTis β) (offset size : Nat) :
    ((Mmio.read offset size).access = .fifoRead (Mmio.read offset size).locality size ∧
      mmioRead t offset size = readFifo t (Mmio.read offset size).locality size) ∨
      (Mmio.read offset size).access = .other ∧ (mmioRead t offset size).2 = t := by
  unfold Mmio.access mmioRead
  by_cases hbad : ¬(size = 1 ∨ size = 2 ∨ size = 4) ∨ mmioSize ≤ offset
  · simp only [if_pos hbad]
    exact .inr ⟨trivial, trivial⟩
  · simp only [if_neg hbad]
    by_cases hfifo : isFifo (offset % localitySize) = true
    · simp only [if_pos hfifo]
      exact .inl ⟨rfl, rfl⟩
    · simp only [if_neg hfifo]
      exact .inr ⟨trivial, trivial⟩

/-- What a write does, by its register. -/
theorem mmioWrite_cases (execute : β → Fin 5 → List UInt8 → Option (List UInt8) × β) (t : TpmTis β)
    {offset size value : Nat} (hop : op = .write offset size value) :
    (∃ registerOffset, op.access = .fifoWrite op.locality (accessBytes registerOffset size value) ∧
      mmioWrite t execute offset size value = (writeFifo t op.locality registerOffset size value, none, none)) ∨
    (∃ v, op.access = .access op.locality v ∧
      mmioWrite t execute offset size value = (writeAccess t op.locality v, none, none)) ∨
    (∃ v, op.access = .status op.locality v ∧
      mmioWrite t execute offset size value = writeStatus t op.locality execute v) ∨
    op.access = .other ∧ ∃ t', mmioWrite t execute offset size value = (t', none, none) ∧ SameCore t t' := by
  subst hop
  unfold Mmio.access mmioWrite
  by_cases hbad : ¬(size = 1 ∨ size = 2 ∨ size = 4) ∨ mmioSize ≤ offset
  · simp only [if_pos hbad]
    exact .inr (.inr (.inr ⟨trivial, t, rfl, .refl t⟩))
  · simp only [if_neg hbad]
    by_cases hfifo : isFifo (offset % localitySize) = true
    · simp only [if_pos hfifo]
      exact .inl ⟨_, rfl, rfl⟩
    · simp only [if_neg hfifo]
      by_cases haccess : offset % localitySize - offset % localitySize % 4 = regAccess
      · simp only [if_pos haccess]
        exact .inr (.inl ⟨_, rfl, rfl⟩)
      · simp only [if_neg haccess]
        by_cases hsts : offset % localitySize - offset % localitySize % 4 = regSts
        · simp only [if_pos hsts]
          exact .inr (.inr (.inl ⟨_, rfl, rfl⟩))
        · simp only [if_neg hsts]
          refine .inr (.inr (.inr ⟨trivial, ?_⟩))
          split
          · refine ⟨_, rfl, ?_⟩
            apply setLocality_core
            exact fun _ => rfl
          · split
            · refine ⟨_, rfl, ?_⟩
              apply setLocality_core
              exact fun _ => rfl
            · exact ⟨t, rfl, .refl t⟩

theorem readsOwn_write {e : Entry} {log : List Entry} (h : ∀ l size, e.op.access ≠ .fifoRead l size) :
    ReadsOwn e log :=
  fun l size hop => absurd hop (h l size)

theorem commanded_none {e : Entry} {log : List Entry} (h : e.call = none) : Commanded e log := by
  intro l command hcall
  rw [h] at hcall
  cases hcall

/-- One access keeps the invariant, and is framed. -/
theorem step_framed (h : Framed s.tis s.log) (hfits : Fits s.tis op) (hs : s.step execute op = some s') :
    Framed s'.tis s'.log ∧ ∃ e, s'.log = e :: s.log ∧ Commanded e s.log ∧ ReadsOwn e s.log := by
  cases op with
  | read offset size =>
    simp only [Session.step, Option.some.injEq] at hs
    subst hs
    rcases mmioRead_cases s.tis offset size with ⟨hop, hread⟩ | ⟨hop, hsame⟩
    · rw [hread]
      exact ⟨framed_readFifo h hop rfl rfl, _, rfl, commanded_none rfl, readsOwn_readFifo h hop rfl rfl⟩
    · refine ⟨h.other ?_ hop rfl rfl, _, rfl, commanded_none rfl, readsOwn_write (by simp [hop])⟩
      rw [hsame]
      exact .refl _
  | write offset size value =>
    simp only [Session.step, Option.some.injEq] at hs
    subst hs
    rcases mmioWrite_cases execute s.tis rfl with ⟨ro, hop, hwrite⟩ | ⟨v, hop, hwrite⟩ | ⟨v, hop, hwrite⟩ |
      ⟨hop, t', hwrite, hcore⟩ <;> rw [hwrite]
    · exact ⟨framed_writeFifo h hop rfl rfl hfits, _, rfl, commanded_none rfl, readsOwn_write (by simp [hop])⟩
    · exact ⟨framed_writeAccess h hop rfl rfl, _, rfl, commanded_none rfl, readsOwn_write (by simp [hop])⟩
    · exact ⟨framed_writeStatus h hop rfl rfl, _, rfl, commanded_writeStatus h hop rfl rfl,
        readsOwn_write (by simp [hop])⟩
    · exact ⟨h.other hcore hop rfl rfl, _, rfl, commanded_none rfl, readsOwn_write (by simp [hop])⟩

/-- A locality that is not active leaves the buffer and its offset alone. -/
theorem step_inactive (hs : s.step execute op = some s') (hinactive : s.tis.activeLocality ≠ some op.locality) :
    s'.tis.buffer = s.tis.buffer ∧ s'.tis.rwOffset = s.tis.rwOffset := by
  cases op with
  | read offset size =>
    simp only [Session.step, Option.some.injEq] at hs
    subst hs
    rcases mmioRead_cases s.tis offset size with ⟨-, hread⟩ | ⟨-, hsame⟩
    · rw [hread, readFifo, if_pos (.inl hinactive)]
      exact ⟨rfl, rfl⟩
    · rw [hsame]
      exact ⟨rfl, rfl⟩
  | write offset size value =>
    simp only [Session.step, Option.some.injEq] at hs
    subst hs
    rcases mmioWrite_cases execute s.tis rfl with ⟨ro, -, hwrite⟩ | ⟨v, -, hwrite⟩ | ⟨v, -, hwrite⟩ |
      ⟨-, t', hwrite, hcore⟩ <;> rw [hwrite]
    · rw [writeFifo, if_pos hinactive]
      exact ⟨rfl, rfl⟩
    · exact writeAccess_buffer s.tis _ v
    · rw [writeStatus, if_pos hinactive]
      exact ⟨rfl, rfl⟩
    · exact ⟨hcore.buffer, hcore.rwOffset⟩

theorem framed_reaches {backend : β}
    (h : Reaches (Session.step execute) (fun s op => Fits s.tis op) ⟨.new backend, []⟩ s) :
    Framed s.tis s.log ∧ Traced Commanded s.log ∧ Traced ReadsOwn s.log := by
  induction h with
  | start => exact ⟨framed_new backend, trivial, trivial⟩
  | next op _ hfits hstep ih =>
    obtain ⟨hframed, hcommanded, hreads⟩ := ih
    obtain ⟨hframed', e, hlog, hcmd, hread⟩ := step_framed hframed hfits hstep
    rw [hlog] at hframed' ⊢
    exact ⟨hframed', ⟨hcmd, hcommanded⟩, ⟨hread, hreads⟩⟩

end Runs

/-- In a run whose receptions take no command of the maximum size further than its last byte: the backend gets a
command as it was written and of the size it declares, on a GO of the active locality; a response is read by the
locality that issued its command, each byte once and in order until a response-retry; and an inactive locality
leaves the buffer alone. -/
theorem tis_framing_and_isolation (execute : β → Fin 5 → List UInt8 → Option (List UInt8) × β) (backend : β)
    {s : Session β} (h : Reaches (Session.step execute) (fun s op => Fits s.tis op) ⟨.new backend, []⟩ s) :
    Traced Commanded s.log ∧ Traced ReadsOwn s.log ∧
    ∀ op s', s.step execute op = some s' → s.tis.activeLocality ≠ some op.locality →
      s'.tis.buffer = s.tis.buffer ∧ s'.tis.rwOffset = s.tis.rwOffset :=
  ⟨(framed_reaches h).2.1, (framed_reaches h).2.2, fun _ _ hs hinactive => step_inactive hs hinactive⟩

/-- A Startup command to a backend that answers it, and the first bytes of the response. -/
def startupAccesses : List Mmio :=
  [.write regAccess 1 accessRequestUse, .write regSts 1 stsCommandReady, .write regDataFifo 4 0x00000180,
    .write regDataFifo 4 0x00000a00, .write regDataFifo 2 0x4401, .write regSts 1 stsTpmGo, .read regDataFifo 4]

def answering (_ : Unit) (_ : Fin 5) (_ : List UInt8) : Option (List UInt8) × Unit :=
  (some [0x80, 0x01, 0, 0, 0, 10, 0, 0, 0, 0], ())

theorem tis_framing_startup : ∃ s : Session Unit,
    runs (guarded (Session.step answering) fun s op => Fits s.tis op) ⟨.new (), []⟩ startupAccesses = some s ∧
      s.log.head?.map Entry.value = some 0x180 ∧ Traced Commanded s.log ∧ Traced ReadsOwn s.log := by
  refine ⟨_, rfl, by decide +kernel, ?_⟩
  have hreach := Reaches.start.of_runs (show runs (guarded (Session.step answering) fun s op => Fits s.tis op)
    ⟨.new (), []⟩ startupAccesses = some _ from rfl)
  exact ⟨(tis_framing_and_isolation answering () hreach).1, (tis_framing_and_isolation answering () hreach).2.1⟩

/-! ## A command of the maximum size -/

section Overlong

variable {s : Session Unit} {bytes : List UInt8}

/-- Locality 0 in a reception of `bytes`. -/
structure Receiving (s : Session Unit) (bytes : List UInt8) : Prop where
  active : s.tis.activeLocality = some 0
  state : (s.tis.localities 0).state = .reception
  buffer : s.tis.buffer = bytes.take maxBufferSize
  written : bytesSince 0 s.log = bytes

theorem receiving_write (h : Receiving s bytes) (value : Nat) : ∃ s',
    s.step answering (.write regDataFifo 4 value) = some s' ∧ Receiving s' (bytes ++ toLeBytes 4 value) ∧
      ∃ full status, (s'.tis.localities 0).status = receptionStatus s'.tis.buffer full status := by
  have hwrite : mmioWrite s.tis answering regDataFifo 4 value =
      (receive s.tis 0 (toLeBytes 4 value), none, none) := by
    show (writeFifo s.tis 0 regDataFifo 4 value, none, none) = _
    simp only [writeFifo, h.active, ne_eq, not_true_eq_false, if_false, beginReception, h.state]
    rfl
  have hlen : s.tis.buffer.length ≤ maxBufferSize := by
    rw [h.buffer, List.length_take]
    omega
  obtain ⟨hbuf, hact, hstate⟩ := receive_reception h.state hlen (toLeBytes 4 value)
  let e : Entry := ⟨.write regDataFifo 4 value, s.tis.activeLocality, 0, none, none⟩
  refine ⟨⟨receive s.tis 0 (toLeBytes 4 value), e :: s.log⟩, ?_, ⟨hact.trans h.active, ?_, ?_, ?_⟩, ?_⟩
  · rw [Session.step, hwrite]
  · rw [hstate]
    exact h.state
  · rw [hbuf, h.buffer, take_append_take]
  · have hop : e.op.access = .fifoWrite 0 (toLeBytes 4 value) := rfl
    rw [bytesSince_cons (by simp [Entry.ready, hop]), h.written, Entry.written, hop]
    rfl
  · refine ⟨(pushBytes s.tis.buffer (toLeBytes 4 value)).2, (s.tis.localities 0).status, ?_⟩
    simp [receive, h.state]

theorem receiving_zeros {init : Session Unit} (n : Nat) :
    ∀ {s bytes}, Reaches (Session.step answering) (fun _ _ => True) init s → Receiving s bytes →
      ∃ s', Reaches (Session.step answering) (fun _ _ => True) init s' ∧
        Receiving s' (bytes ++ List.replicate (4 * n) 0) := by
  induction n with
  | zero => exact fun hreach h => ⟨_, hreach, by simpa using h⟩
  | succ n ih =>
    intro s bytes hreach h
    obtain ⟨s', hstep, h', -⟩ := receiving_write h 0
    obtain ⟨s'', hreach'', h''⟩ := ih (.next _ hreach trivial hstep) h'
    refine ⟨s'', hreach'', ?_⟩
    have happend : bytes ++ List.replicate (4 * (n + 1)) 0 = bytes ++ toLeBytes 4 0 ++ List.replicate (4 * n) 0 := by
      rw [show toLeBytes 4 0 = List.replicate 4 (0 : UInt8) from rfl, List.append_assoc,
        List.replicate_append_replicate]
      congr 2
      omega
    rw [happend]
    exact h''

/-- A complete packet of the maximum size, whatever was dropped behind it, is executed by a GO. -/
theorem receiving_go (h : Receiving s bytes) (hsize : packetSize s.tis.buffer = .ok s.tis.buffer.length)
    (hlen : s.tis.buffer.length = maxBufferSize)
    (hstatus : ∃ full status, (s.tis.localities 0).status = receptionStatus s.tis.buffer full status) :
    ∃ s' e, s.step answering (.write regSts 1 stsTpmGo) = some s' ∧ s'.log = e :: s.log ∧
      e.call = some (0, s.tis.buffer) := by
  obtain ⟨full, status, hstatus⟩ := hstatus
  have hvalid : validatePacket "command" s.tis.buffer = .ok () := by
    have hlow : tpm2HeaderSize ≤ maxBufferSize := by decide
    simp [validatePacket, hsize, hlow, hlen]
  have hexpect : (s.tis.localities 0).status &&& stsExpect = 0 := by
    rw [hstatus]
    have hsix : 6 ≤ s.tis.buffer.length := by
      rw [hlen]
      decide
    simp only [receptionStatus, if_pos hsix, hsize, if_true]
    decide
  have hwrite : mmioWrite s.tis answering regSts 1 stsTpmGo = writeStatus s.tis 0 answering stsTpmGo := rfl
  have hgo : writeStatus s.tis 0 answering stsTpmGo = executeCommand s.tis 0 answering := by
    rw [writeStatus, if_neg (not_not.mpr h.active), if_neg (by decide), if_neg (by simp [stsResponseRetry, stsTpmGo]),
      if_pos ⟨by decide, h.state, hexpect⟩]
  have hcall : (executeCommand s.tis 0 answering).2.1 = some (0, s.tis.buffer) := by
    simp only [executeCommand, respond, hvalid]
  refine ⟨_, _, rfl, rfl, ?_⟩
  show (mmioWrite s.tis answering regSts 1 stsTpmGo).2.1 = _
  rw [hwrite, hgo, hcall]

end Overlong

/-- 4100 bytes whose first 4096 are a packet of that size: the backend gets the packet. -/
theorem overlong_command_executed : ∃ s : Session Unit,
    Reaches (Session.step answering) (fun _ _ => True) ⟨.new (), []⟩ s ∧ ∃ e earlier command,
      s.log = e :: earlier ∧ e.call = some (0, command) ∧ command.length = 4096 ∧
        (bytesSince 0 earlier).length = 4100 := by
  let header : List UInt8 := [0x80, 0x01, 0, 0, 0x10, 0, 0, 0]
  have hbegin : ∃ s : Session Unit, Reaches (Session.step answering) (fun _ _ => True) ⟨.new (), []⟩ s ∧
      Receiving s header := by
    let accesses : List Mmio := [.write regAccess 1 accessRequestUse, .write regSts 1 stsCommandReady,
      .write regDataFifo 4 0x00000180, .write regDataFifo 4 0x00000010]
    refine ⟨_, Reaches.start.of_runs (show runs (guarded _ _) _ accesses = some _ from rfl), ?_⟩
    exact ⟨rfl, rfl, by decide +kernel, by decide +kernel⟩
  obtain ⟨s, hreach, hheader⟩ := hbegin
  obtain ⟨s₁, hreach₁, hzeros⟩ := receiving_zeros 1022 hreach hheader
  obtain ⟨s₂, hstep₂, hover, hstatus⟩ := receiving_write hzeros 0
  have hmax : maxBufferSize = 4096 := rfl
  have hbytes : (header ++ List.replicate (4 * 1022) 0 ++ toLeBytes 4 0).length = 4100 := by
    rw [List.length_append, List.length_append, List.length_replicate, length_toLeBytes]
    rfl
  have hlen : s₂.tis.buffer.length = maxBufferSize := by
    rw [hover.buffer, List.length_take, hbytes]
    rfl
  have hsize : packetSize s₂.tis.buffer = .ok s₂.tis.buffer.length := by
    rw [hlen, hover.buffer, List.append_assoc, packetSize_take (by decide) (by decide)]
    decide +kernel
  obtain ⟨s₃, e, hstep₃, hlog, hcall⟩ := receiving_go hover hsize hlen hstatus
  refine ⟨s₃, .next _ (.next _ hreach₁ trivial hstep₂) trivial hstep₃, e, s₂.log, _, hlog,
    hcall, hlen, ?_⟩
  rw [hover.written, hbytes]

end BridgeVm.Tpm
