import BridgeVm.AgentConsole.Base64
import BridgeVm.Lib.Splice
import BridgeVm.Lib.Text

/-!
# Reassembly of chunked replies

`begin_get`, `accum_get_chunk`, `begin_out` and `accum_out_chunk` of `harness_protocol.rs`, and `finish_out` of
`output_finish.rs`. An output is reported when its chunks are the declared pieces in order, and not otherwise
(`finishOut_eq_output_iff`). A GETCHUNK's number is not read, so that the bytes of a file are those of the chunks that
decode and fit (`foldl_accumGetChunk`).
-/

namespace BridgeVm.AgentConsole.ChunkedReplies

open Lib Base64

/-! ## Accumulators -/

def parseUsize (text : List Char) : Option Nat := parseUnsigned (2 ^ 64) text

/-- `MAX_AGENT_GET_BYTES`. -/
def maxAgentGetBytes : Nat := 64 * 1024 * 1024

/-- `COMMAND_OUTPUT_CHUNK_BYTES`. -/
def commandOutputChunkBytes : Nat := 24 * 1024

/-- `COMMAND_OUTPUT_CHUNK_B64_BYTES`. -/
def commandOutputChunkB64Bytes : Nat := (commandOutputChunkBytes + 2) / 3 * 4

/-- `MAX_COMMAND_OUTPUT_BYTES`. -/
def maxCommandOutputBytes : Nat := 16 * 1024 * 1024

def decodeText (text : List Char) : Except Base64DecodeError (List UInt8) := base64Decode (utf8 text)

structure GetAccum where
  path : List Char
  total : Nat
  nchunks : Nat
  bytes : List UInt8
  /-- The capacity `bytes` was made with. -/
  reserved : Nat
  chunksSeen : Nat

structure OutAccum where
  exitCode : Int
  total : Nat
  nchunks : Nat
  bytes : List UInt8
  /-- The capacity `bytes` was made with. -/
  reserved : Nat
  chunksSeen : Nat
  valid : Bool

/-- What a GET accumulates at most. -/
def getLimit (total : Nat) : Nat := if total ≤ maxAgentGetBytes then total else 0

/-- `begin_get`: GETBEG <b64(path)> <total> <nchunks>. -/
def beginGet (rest : List Char) : GetAccum :=
  let fields := rest.splitOn ' '
  let path :=
    match fields[0]?.map decodeText with
    | some (.ok bytes) => fromUtf8Lossy bytes
    | _ => []
  let total := (fields[1]?.bind parseUsize).getD 0
  let nchunks := (fields[2]?.bind parseUsize).getD 0
  { path, total, nchunks, bytes := [], reserved := getLimit total, chunksSeen := 0 }

/-- `accum_get_chunk`: GETCHUNK <seq> <b64(rawbytes)>. -/
def accumGetChunk (accum : GetAccum) (rest : List Char) : GetAccum :=
  let payload := ((splitOnce ' ' rest).map Prod.snd).getD rest
  match decodeText payload with
  | .error _ => accum
  | .ok bytes =>
    if getLimit accum.total < accum.bytes.length + bytes.length then accum
    else { accum with bytes := accum.bytes ++ bytes, chunksSeen := accum.chunksSeen + 1 }

/-- `begin_out`: OUTBEG <exit> <total> <nchunks>. -/
def beginOut (rest : List Char) : OutAccum :=
  let fields := splitWhitespace rest
  let exitCode := fields[0]?.bind (parseSigned 32)
  let total := fields[1]?.bind parseUsize
  let nchunks := fields[2]?.bind parseUsize
  let parsed := exitCode.isSome && total.isSome && nchunks.isSome && fields[3]?.isNone
  let expectedChunks := (total.getD 0 + (commandOutputChunkBytes - 1)) / commandOutputChunkBytes
  let valid := parsed && total.getD 0 ≤ maxCommandOutputBytes && nchunks = some expectedChunks
  { exitCode := exitCode.getD (-1)
    total := total.getD 0
    nchunks := nchunks.getD 0
    bytes := []
    reserved := if valid then total.getD 0 else 0
    chunksSeen := 0
    valid }

/-- `checked_sub`. -/
def checkedSub (a b : Nat) : Option Nat := if b ≤ a then some (a - b) else none

/-- The length the chunk `seq` must have. -/
def expectedLen (accum : OutAccum) (seq : Nat) : Option Nat :=
  if 2 ^ 64 ≤ seq * commandOutputChunkBytes then none
  else if seq + 1 = accum.nchunks then checkedSub accum.total (seq * commandOutputChunkBytes)
  else some commandOutputChunkBytes

/-- The bytes of chunk `seq`, if it is the next piece of the output. -/
def outPiece (accum : OutAccum) (seq : Nat) (payload : List Char) : Option (List UInt8) :=
  if seq ≠ accum.chunksSeen ∨ accum.nchunks ≤ accum.chunksSeen then none
  else if commandOutputChunkB64Bytes < (utf8 payload).length then none
  else
    match decodeText payload with
    | .error _ => none
    | .ok bytes =>
      if 2 ^ 64 ≤ accum.bytes.length + bytes.length then none
      else
        match expectedLen accum accum.chunksSeen with
        | none => none
        | some len =>
          if bytes.length ≠ len ∨ accum.total < accum.bytes.length + bytes.length then none else some bytes

/-- `accum_out_chunk`: OUTCHUNK <seq> <b64(rawbytes)>; another chunk than the next one poisons the reply. -/
def accumOutChunk (accum : OutAccum) (rest : List Char) : OutAccum :=
  match splitOnce ' ' rest with
  | none => { accum with valid := false }
  | some (seqText, payload) =>
    match parseUsize seqText with
    | none => { accum with valid := false }
    | some seq =>
      let counted := { accum with chunksSeen := min (accum.chunksSeen + 1) (2 ^ 64 - 1) }
      if !accum.valid then counted
      else
        match outPiece accum seq payload with
        | none => { counted with valid := false }
        | some bytes => { counted with bytes := accum.bytes ++ bytes }

/-- What is reported at OUTEND. -/
inductive OutReport
  | output (exitCode : Int) (bytes : List UInt8)
  | withoutBegin
  | protocolError (declaredExit : Int) (bytes total chunks nchunks : Nat) (stop : Option Nat)

/-- `finish_out`: OUTEND <nchunks>. -/
def finishOut (accum : Option OutAccum) (rest : List Char) : OutReport :=
  match accum with
  | none => .withoutBegin
  | some accum =>
    let endCount := parseUsize (trim rest)
    if accum.valid ∧ endCount = some accum.nchunks ∧ accum.chunksSeen = accum.nchunks ∧
        accum.bytes.length = accum.total then
      .output accum.exitCode accum.bytes
    else
      .protocolError accum.exitCode accum.bytes.length accum.total accum.chunksSeen accum.nchunks endCount

/-! ## What an output is -/

/-- The number and the bytes of a chunk. -/
def chunkFields (rest : List Char) : Option (Nat × List UInt8) :=
  match splitOnce ' ' rest with
  | none => none
  | some (seqText, payload) =>
    match parseUsize seqText, decodeText payload with
    | some seq, .ok bytes => some (seq, bytes)
    | _, _ => none

/-- The first `k` pieces of an output, numbered. -/
def pieces (bytes : List UInt8) (k : Nat) : List (Option (Nat × List UInt8)) :=
  (List.range k).map fun i => some (i, slice bytes (i * commandOutputChunkBytes) commandOutputChunkBytes)

/-- `total.div_ceil(COMMAND_OUTPUT_CHUNK_BYTES)`. -/
def pieceCount (total : Nat) : Nat := (total + (commandOutputChunkBytes - 1)) / commandOutputChunkBytes

/-- A declaration that is valid. -/
structure Declares (beg : List Char) (exitCode : Int) (total : Nat) : Prop where
  bound : total ≤ maxCommandOutputBytes
  fields : ∃ exitText totalText nchunksText, splitWhitespace beg = [exitText, totalText, nchunksText] ∧
    parseSigned 32 exitText = some exitCode ∧ parseUsize totalText = some total ∧
    parseUsize nchunksText = some (pieceCount total)

/-- The lines of an output: its exit code, its length and the number of its pieces are declared, and the pieces follow
in order, and no other ones. -/
structure Transmits (beg : List Char) (chunks : List (List Char)) (stop : List Char) (exitCode : Int)
    (bytes : List UInt8) : Prop where
  declares : Declares beg exitCode bytes.length
  inOrder : chunks.map chunkFields = pieces bytes (pieceCount bytes.length)
  stop : parseUsize (trim stop) = some (pieceCount bytes.length)

/-! ## Outputs -/

variable {accum : OutAccum} {rest beg stop : List Char} {chunks : List (List Char)} {bytes : List UInt8}
  {exitCode : Int}

/-- The accumulator with a further piece. -/
def OutAccum.push (accum : OutAccum) (bytes : List UInt8) : OutAccum :=
  { accum with bytes := accum.bytes ++ bytes, chunksSeen := min (accum.chunksSeen + 1) (2 ^ 64 - 1) }

/-- The piece `bytes` of a chunk is the next one. -/
structure Next (accum : OutAccum) (rest : List Char) (bytes : List UInt8) : Prop where
  fields : chunkFields rest = some (accum.chunksSeen, bytes)
  seq : accum.chunksSeen < accum.nchunks
  len : expectedLen accum accum.chunksSeen = some bytes.length
  fits : accum.bytes.length + bytes.length ≤ accum.total

theorem decodeText_length {payload : List Char} (h : decodeText payload = .ok bytes) :
    (utf8 payload).length = 4 * ((bytes.length + 2) / 3) := ((base64Decode_eq_ok_iff _ _).1 h).length_eq

theorem outPiece_eq_some {seq : Nat} {payload : List Char} (h : outPiece accum seq payload = some bytes) :
    seq = accum.chunksSeen ∧ decodeText payload = .ok bytes ∧ accum.chunksSeen < accum.nchunks ∧
      expectedLen accum accum.chunksSeen = some bytes.length ∧ accum.bytes.length + bytes.length ≤ accum.total := by
  unfold outPiece at h
  split at h
  · cases h
  · rename_i hseq
    split at h
    · cases h
    · cases hdecode : decodeText payload with
      | error e =>
        rw [hdecode] at h
        cases h
      | ok decoded =>
        rw [hdecode] at h
        dsimp only at h
        split at h
        · cases h
        · cases hlen : expectedLen accum accum.chunksSeen with
          | none =>
            rw [hlen] at h
            cases h
          | some len =>
            rw [hlen] at h
            dsimp only at h
            split at h
            · cases h
            · rename_i hfits
              obtain rfl := Option.some.inj h
              obtain ⟨rfl, hle⟩ : decoded.length = len ∧ accum.bytes.length + decoded.length ≤ accum.total := by
                omega
              exact ⟨by omega, rfl, by omega, rfl, hle⟩

theorem outPiece_of_next {payload : List Char} (hdecode : decodeText payload = .ok bytes)
    (hseq : accum.chunksSeen < accum.nchunks) (hlen : expectedLen accum accum.chunksSeen = some bytes.length)
    (hfits : accum.bytes.length + bytes.length ≤ accum.total) (htotal : accum.total ≤ maxCommandOutputBytes)
    (hpiece : bytes.length ≤ commandOutputChunkBytes) : outPiece accum accum.chunksSeen payload = some bytes := by
  have hmax : maxCommandOutputBytes = 16777216 := rfl
  have hchunk : commandOutputChunkBytes = 24576 := rfl
  have hb64 : commandOutputChunkB64Bytes = 32768 := rfl
  have hpayload := decodeText_length hdecode
  unfold outPiece
  rw [if_neg (by omega), if_neg (by omega), hdecode]
  dsimp only
  rw [if_neg (by omega), hlen]
  dsimp only
  rw [if_neg (by omega)]

/-- A reply stays valid only by its next piece. -/
theorem accumOutChunk_valid (h : (accumOutChunk accum rest).valid = true) :
    accum.valid = true ∧ ∃ bytes, Next accum rest bytes ∧ accumOutChunk accum rest = accum.push bytes := by
  unfold accumOutChunk at h ⊢
  cases hsplit : splitOnce ' ' rest with
  | none =>
    rw [hsplit] at h
    cases h
  | some parts =>
    obtain ⟨seqText, payload⟩ := parts
    rw [hsplit] at h
    dsimp only at h ⊢
    cases hparse : parseUsize seqText with
    | none =>
      rw [hparse] at h
      cases h
    | some seq =>
      rw [hparse] at h
      dsimp only at h ⊢
      by_cases hvalid : accum.valid = true
      · have hopen : ¬(!accum.valid) = true := by
          rw [hvalid]
          decide
        rw [if_neg hopen] at h ⊢
        cases hpiece : outPiece accum seq payload with
        | none =>
          rw [hpiece] at h
          cases h
        | some bytes =>
          obtain ⟨rfl, hdecode, hseq, hlen, hfits⟩ := outPiece_eq_some hpiece
          refine ⟨hvalid, bytes, ⟨?_, hseq, hlen, hfits⟩, rfl⟩
          unfold chunkFields
          rw [hsplit]
          dsimp only
          rw [hparse, hdecode]
      · rw [if_pos (by rw [Bool.eq_false_iff.2 hvalid]; rfl)] at h
        exact absurd h hvalid

/-- The next piece is added. -/
theorem accumOutChunk_of_next (hvalid : accum.valid = true) (h : Next accum rest bytes)
    (htotal : accum.total ≤ maxCommandOutputBytes) (hpiece : bytes.length ≤ commandOutputChunkBytes) :
    accumOutChunk accum rest = accum.push bytes := by
  have hfields := h.fields
  unfold chunkFields at hfields
  unfold accumOutChunk
  cases hsplit : splitOnce ' ' rest with
  | none =>
    rw [hsplit] at hfields
    cases hfields
  | some parts =>
    obtain ⟨seqText, payload⟩ := parts
    rw [hsplit] at hfields
    dsimp only at hfields ⊢
    cases hparse : parseUsize seqText with
    | none =>
      rw [hparse] at hfields
      cases hfields
    | some seq =>
      rw [hparse] at hfields
      cases hdecode : decodeText payload with
      | error e =>
        rw [hdecode] at hfields
        cases hfields
      | ok decoded =>
        rw [hdecode] at hfields
        cases hfields
        dsimp only
        rw [if_neg (by rw [hvalid]; decide), outPiece_of_next hdecode h.seq h.len h.fits htotal hpiece]
        rfl

/-- The accumulator after a valid declaration. -/
def declared (exitCode : Int) (total : Nat) : OutAccum where
  exitCode := exitCode
  total := total
  nchunks := pieceCount total
  bytes := []
  reserved := total
  chunksSeen := 0
  valid := true

theorem beginOut_of_declares {total : Nat} (h : Declares beg exitCode total) :
    beginOut beg = declared exitCode total := by
  obtain ⟨exitText, totalText, nchunksText, hbeg, hexit, htotal, hnchunks⟩ := h.fields
  have hexit' : (splitWhitespace beg)[0]?.bind (parseSigned 32) = some exitCode := by rw [hbeg]; exact hexit
  have htotal' : (splitWhitespace beg)[1]?.bind parseUsize = some total := by rw [hbeg]; exact htotal
  have hnchunks' : (splitWhitespace beg)[2]?.bind parseUsize = some (pieceCount total) := by rw [hbeg]; exact hnchunks
  have hend : (splitWhitespace beg)[3]? = none := by rw [hbeg]; rfl
  have hcount : some (pieceCount total) =
      some ((total + (commandOutputChunkBytes - 1)) / commandOutputChunkBytes) := rfl
  have hvalid : (beginOut beg).valid = true := by
    unfold beginOut
    dsimp only
    rw [hexit', htotal', hnchunks', hend, Option.getD_some, decide_eq_true h.bound, decide_eq_true hcount]
    rfl
  have hfields : beginOut beg =
      { exitCode := ((splitWhitespace beg)[0]?.bind (parseSigned 32)).getD (-1)
        total := ((splitWhitespace beg)[1]?.bind parseUsize).getD 0
        nchunks := ((splitWhitespace beg)[2]?.bind parseUsize).getD 0
        bytes := []
        reserved := if (beginOut beg).valid then ((splitWhitespace beg)[1]?.bind parseUsize).getD 0 else 0
        chunksSeen := 0
        valid := (beginOut beg).valid } := rfl
  -- not by `rfl`: the kernel would evaluate the division
  rw [hfields, hvalid, hexit', htotal', hnchunks', Option.getD_some, Option.getD_some, Option.getD_some, if_pos rfl,
    declared]

theorem declares_of_beginOut (h : (beginOut beg).valid = true) :
    Declares beg (beginOut beg).exitCode (beginOut beg).total := by
  simp only [beginOut, Bool.and_eq_true, decide_eq_true_eq] at h
  obtain ⟨⟨⟨⟨⟨hexit, htotal⟩, hnchunks⟩, hlast⟩, hbound⟩, hcount⟩ := h
  match hfields : splitWhitespace beg with
  | [exitText, totalText, nchunksText] =>
    rw [hfields] at hexit htotal hnchunks hbound hcount
    obtain ⟨exitCode, hexit⟩ := Option.isSome_iff_exists.1 hexit
    obtain ⟨total, htotal⟩ := Option.isSome_iff_exists.1 htotal
    have hexitText : parseSigned 32 exitText = some exitCode := hexit
    have htotalText : parseUsize totalText = some total := htotal
    have hnchunksText : parseUsize nchunksText = _ := hcount
    simp only [htotal, Option.getD_some] at hbound hnchunksText
    have hbegin : Declares beg exitCode total :=
      ⟨hbound, exitText, totalText, nchunksText, hfields, hexitText, htotalText,
      hnchunksText⟩
    rw [beginOut_of_declares hbegin]
    exact hbegin
  | [] => simp [hfields] at hexit
  | [_] => simp [hfields] at htotal
  | [_, _] => simp [hfields] at hnchunks
  | _ :: _ :: _ :: _ :: _ => simp [hfields] at hlast

theorem chunkBytes_eq : commandOutputChunkBytes = 24576 := rfl

theorem mul_chunkBytes (n : Nat) : n * commandOutputChunkBytes = n * 24576 := by
  rw [chunkBytes_eq]

theorem pieceCount_eq (total : Nat) : pieceCount total = (total + 24575) / 24576 := by
  simp only [pieceCount, chunkBytes_eq]

theorem taken_whole {k total len : Nat} (hk : k < pieceCount total)
    (hlen : len = min (k * commandOutputChunkBytes) total) :
    len = k * commandOutputChunkBytes := by
  rw [pieceCount_eq] at hk
  rw [mul_chunkBytes] at hlen ⊢
  omega

theorem taken_next {k total len piece : Nat} (hlen : len = k * commandOutputChunkBytes) (hk : k < pieceCount total)
    (hpiece : min commandOutputChunkBytes (total - k * commandOutputChunkBytes) = piece) :
    len + piece = min ((k + 1) * commandOutputChunkBytes) total := by
  rw [pieceCount_eq] at hk
  rw [mul_chunkBytes] at hlen ⊢
  rw [mul_chunkBytes, chunkBytes_eq] at hpiece
  omega

theorem min_chunksSeen {k total : Nat} (hk : k < pieceCount total) (hbound : total ≤ maxCommandOutputBytes) :
    min (k + 1) (2 ^ 64 - 1) = k + 1 := by
  have hmax : maxCommandOutputBytes = 16777216 := rfl
  rw [pieceCount_eq] at hk
  exact Nat.min_eq_left (by omega)

theorem length_pieces (bytes : List UInt8) (k : Nat) : (pieces bytes k).length = k := by
  rw [pieces, List.length_map, List.length_range]

theorem pieces_succ (bytes : List UInt8) (k : Nat) : pieces bytes (k + 1) =
    pieces bytes k ++ [some (k, slice bytes (k * commandOutputChunkBytes) commandOutputChunkBytes)] := by
  rw [pieces, List.range_succ, List.map_append, List.map_singleton, pieces]

theorem pieces_append {k : Nat} (more : List UInt8) (h : k * commandOutputChunkBytes ≤ bytes.length) :
    pieces (bytes ++ more) k = pieces bytes k := by
  refine List.map_congr_left fun i hi => ?_
  have hlt := List.mem_range.1 hi
  have hle : i * commandOutputChunkBytes + commandOutputChunkBytes ≤ bytes.length := by
    have := Nat.mul_le_mul_right commandOutputChunkBytes (show i + 1 ≤ k by omega)
    rw [Nat.succ_mul] at this
    omega
  rw [slice, slice, List.drop_append_of_le_length (by omega), List.take_append_of_le_length (by
    rw [List.length_drop]
    omega)]

theorem expectedLen_eq {k : Nat} (hk : k < accum.nchunks) (hcount : accum.nchunks = pieceCount accum.total)
    (hbound : accum.total ≤ maxCommandOutputBytes) :
    expectedLen accum k = some (min commandOutputChunkBytes (accum.total - k * commandOutputChunkBytes)) := by
  have hmax : maxCommandOutputBytes = 16777216 := rfl
  have hchunk : commandOutputChunkBytes = 24576 := rfl
  unfold pieceCount at hcount
  rw [hchunk] at hcount
  unfold expectedLen checkedSub
  rw [hchunk, if_neg (by omega)]
  by_cases hlast : k + 1 = accum.nchunks
  · rw [if_pos hlast, if_pos (by omega)]
    congr 1
    omega
  · rw [if_neg hlast]
    congr 1
    omega

/-- What a valid reply has taken so far: the first pieces of an output. -/
structure Took (total : Nat) (chunks : List (List Char)) (accum : OutAccum) : Prop where
  count : chunks.length ≤ pieceCount total
  length : accum.bytes.length = min (chunks.length * commandOutputChunkBytes) total
  inOrder : chunks.map chunkFields = pieces accum.bytes chunks.length

theorem foldl_accumOutChunk_valid (h : (chunks.foldl accumOutChunk (beginOut beg)).valid = true) :
    ∃ exitCode total, Declares beg exitCode total ∧
    Took total chunks (chunks.foldl accumOutChunk (beginOut beg)) ∧
      chunks.foldl accumOutChunk (beginOut beg) =
        { declared exitCode total with
          bytes := (chunks.foldl accumOutChunk (beginOut beg)).bytes, chunksSeen := chunks.length } := by
  induction chunks using List.reverseRecOn with
  | nil =>
    have hdeclares := declares_of_beginOut h
    have hbegin := beginOut_of_declares hdeclares
    refine ⟨_, _, hdeclares, ⟨Nat.zero_le _, ?_, rfl⟩, ?_⟩
    · rw [List.foldl_nil, hbegin]
      simp [declared]
    · rw [List.foldl_nil, hbegin]
      rfl
  | append_singleton chunks rest ih =>
    rw [List.foldl_append, List.foldl_cons, List.foldl_nil] at h ⊢
    obtain ⟨hvalid, bytes, hnext, hpush⟩ := accumOutChunk_valid h
    obtain ⟨exitCode, total, hdeclares, htook, haccum⟩ := ih hvalid
    generalize chunks.foldl accumOutChunk (beginOut beg) = accum at *
    obtain ⟨hfields, hseq, hlen, hfits⟩ := hnext
    have hseen : accum.chunksSeen = chunks.length := by rw [haccum]
    have htotal : accum.total = total := by rw [haccum]; rfl
    have hnchunks : accum.nchunks = pieceCount total := by rw [haccum]; rfl
    have hbound := hdeclares.bound
    rw [expectedLen_eq hseq (by rw [hnchunks, htotal]) (by rw [htotal]; exact hbound), Option.some.injEq, htotal, hseen]
      at hlen
    rw [hseen] at hfields hseq
    rw [hnchunks] at hseq
    have hwhole := taken_whole hseq htook.length
    refine ⟨exitCode, total, hdeclares, ⟨?_, ?_, ?_⟩, ?_⟩
    · rw [List.length_append, List.length_singleton]
      exact hseq
    · rw [hpush]
      simp only [OutAccum.push, List.length_append, List.length_singleton]
      exact taken_next hwhole hseq hlen
    · have hfits : bytes.length ≤ commandOutputChunkBytes := hlen ▸ Nat.min_le_left _ _
      have hpiece : slice (accum.bytes ++ bytes) (chunks.length * commandOutputChunkBytes) commandOutputChunkBytes =
        bytes := by
        rw [slice_skip hwhole.le, ← hwhole, Nat.sub_self, slice, List.drop_zero, List.take_of_length_le hfits]
      rw [hpush]
      simp only [OutAccum.push]
      rw [List.map_append, List.map_singleton, List.length_append, List.length_singleton, pieces_succ,
        pieces_append bytes hwhole.ge, hpiece, htook.inOrder, hfields]
    · rw [hpush, OutAccum.push, hseen, min_chunksSeen hseq hbound, haccum, List.length_append, List.length_singleton]

/-- The pieces of an output are taken one after the other. -/
theorem foldl_accumOutChunk_of_pieces (hdeclares : Declares beg exitCode bytes.length)
    {k : Nat} (hk : k ≤ pieceCount bytes.length) (horder : chunks.map chunkFields = pieces bytes k) :
    chunks.foldl accumOutChunk (beginOut beg) =
      { declared exitCode bytes.length with bytes := bytes.take (k * commandOutputChunkBytes), chunksSeen := k } := by
  induction chunks using List.reverseRecOn generalizing k with
  | nil =>
    have hzero := congrArg List.length horder
    rw [length_pieces, List.map_nil, List.length_nil] at hzero
    rw [← hzero, List.foldl_nil, beginOut_of_declares hdeclares, Nat.zero_mul, List.take_zero]
    rfl
  | append_singleton chunks rest ih =>
    obtain ⟨k, rfl⟩ : ∃ j, k = j + 1 := by
      have hlen := congrArg List.length horder
      rw [length_pieces, List.length_map, List.length_append, List.length_singleton] at hlen
      exact ⟨chunks.length, hlen.symm⟩
    rw [pieces_succ, List.map_append, List.map_singleton] at horder
    obtain ⟨horder, hrest⟩ := List.append_inj' horder rfl
    have hfields : chunkFields rest = some (k, slice bytes (k * commandOutputChunkBytes) commandOutputChunkBytes) :=
      (List.cons.inj hrest).1
    rw [List.foldl_append, List.foldl_cons, List.foldl_nil, ih (by omega) horder]
    have hbound := hdeclares.bound
    have hmax : maxCommandOutputBytes = 16777216 := rfl
    have hchunk := chunkBytes_eq
    have hcount := pieceCount_eq bytes.length
    have hmul := mul_chunkBytes k
    have hpiece : (slice bytes (k * commandOutputChunkBytes) commandOutputChunkBytes).length =
        min commandOutputChunkBytes (bytes.length - k * commandOutputChunkBytes) := by
      rw [slice, List.length_take, List.length_drop]
    have hnext : Next { declared exitCode bytes.length with
        bytes := bytes.take (k * commandOutputChunkBytes), chunksSeen := k } rest
          (slice bytes (k * commandOutputChunkBytes) commandOutputChunkBytes) := by
      refine ⟨hfields, hk, ?_, ?_⟩
      · rw [hpiece]
        exact expectedLen_eq (show k < pieceCount bytes.length from hk) rfl hbound
      · rw [hpiece]
        simp only [List.length_take, declared]
        omega
    rw [accumOutChunk_of_next rfl hnext hbound (by omega)]
    simp only [OutAccum.push, min_chunksSeen hk hbound]
    rw [take_append_slice, ← Nat.succ_mul]

/-- An output is reported when its lines transmit it, and not otherwise. -/
theorem finishOut_eq_output_iff : finishOut (some (chunks.foldl accumOutChunk (beginOut beg))) stop =
    .output exitCode bytes ↔ Transmits beg chunks stop exitCode bytes := by
  constructor
  · intro h
    simp only [finishOut] at h
    split at h
    · rename_i hdone
      obtain ⟨hvalid, hend, hseen, hlen⟩ := hdone
      obtain ⟨exitCode', total, hdeclares, htook, haccum⟩ := foldl_accumOutChunk_valid hvalid
      generalize chunks.foldl accumOutChunk (beginOut beg) = accum at *
      have hcount : accum.nchunks = pieceCount total := by rw [haccum]; rfl
      have htotal : accum.total = total := by rw [haccum]; rfl
      have hnum : accum.chunksSeen = chunks.length := by rw [haccum]
      have hexit : accum.exitCode = exitCode' := by rw [haccum]; rfl
      obtain ⟨hcode, rfl⟩ := OutReport.output.inj h
      rw [htotal] at hlen
      subst hlen
      rw [hnum, hcount] at hseen
      refine ⟨by rw [← hcode, hexit]; exact hdeclares, by rw [← hseen]; exact htook.inOrder, by rw [hend,
        hcount]⟩
    · cases h
  · rintro ⟨hdeclares, horder, hstop⟩
    rw [foldl_accumOutChunk_of_pieces hdeclares (Nat.le_refl _) horder]
    have hall : bytes.take (pieceCount bytes.length * commandOutputChunkBytes) = bytes := by
      refine List.take_of_length_le ?_
      rw [mul_chunkBytes, pieceCount_eq]
      omega
    rw [hall]
    simp only [finishOut]
    rw [if_pos ⟨rfl, hstop, rfl, rfl⟩]
    rfl

/-! ## Files -/

variable {get : GetAccum} {parts : List (List UInt8)}

/-- Chunks numbered from 0, each with a part. -/
def numbered (parts : List (List UInt8)) : List (Option (Nat × List UInt8)) :=
  parts.zipIdx.map fun (bytes, i) => some (i, bytes)

theorem accumGetChunk_of_fields {seq : Nat} (h : chunkFields rest = some (seq, bytes))
    (hfits : get.bytes.length + bytes.length ≤ getLimit get.total) :
    accumGetChunk get rest = { get with bytes := get.bytes ++ bytes, chunksSeen := get.chunksSeen + 1 } := by
  unfold chunkFields at h
  cases hsplit : splitOnce ' ' rest with
  | none =>
    rw [hsplit] at h
    cases h
  | some fields =>
    obtain ⟨seqText, payload⟩ := fields
    rw [hsplit] at h
    dsimp only at h
    cases hparse : parseUsize seqText with
    | none =>
      rw [hparse] at h
      cases h
    | some num =>
      rw [hparse] at h
      cases hdecode : decodeText payload with
      | error e =>
        rw [hdecode] at h
        cases h
      | ok decoded =>
        rw [hdecode] at h
        cases h
        unfold accumGetChunk
        rw [hsplit, Option.map_some, Option.getD_some]
        dsimp only
        rw [hdecode]
        exact if_neg (Nat.not_lt.2 hfits)

theorem accumGetChunk_total (get : GetAccum) (rest : List Char) :
    (accumGetChunk get rest).total = get.total ∧ (accumGetChunk get rest).reserved = get.reserved := by
  unfold accumGetChunk
  dsimp only
  split
  · exact ⟨rfl, rfl⟩
  · split <;> exact ⟨rfl, rfl⟩

theorem foldl_accumGetChunk_total (get : GetAccum) (chunks : List (List Char)) :
    (chunks.foldl accumGetChunk get).total = get.total := by
  induction chunks generalizing get with
  | nil => rfl
  | cons rest chunks ih => rw [List.foldl_cons, ih, (accumGetChunk_total get rest).1]

/-- Numbered chunks that fit are put together in order. -/
theorem foldl_accumGetChunk (hget : get.bytes = []) (h : chunks.map chunkFields = numbered parts)
    (hfits : parts.flatten.length ≤ getLimit get.total) :
    (chunks.foldl accumGetChunk get).bytes = parts.flatten := by
  induction chunks using List.reverseRecOn generalizing parts with
  | nil =>
    have hnil : parts = [] := by
      have hlen := congrArg List.length h
      rw [numbered, List.length_map, List.length_map, List.length_zipIdx, List.length_nil] at hlen
      exact List.length_eq_zero_iff.1 hlen.symm
    rw [hnil, List.foldl_nil, hget]
    rfl
  | append_singleton chunks rest ih =>
    cases parts using List.reverseRecOn with
    | nil => simp [numbered] at h
    | append_singleton parts part =>
      rw [numbered, List.zipIdx_append, List.map_append, List.map_append, List.map_singleton] at h
      obtain ⟨horder, hrest⟩ := List.append_inj' h rfl
      have hfields := (List.cons.inj hrest).1
      rw [List.flatten_append, List.flatten_singleton, List.length_append] at hfits
      have hbytes := ih horder (by omega)
      rw [List.foldl_append, List.foldl_cons, List.foldl_nil, accumGetChunk_of_fields hfields, hbytes,
        List.flatten_append, List.flatten_singleton]
      rw [hbytes, foldl_accumGetChunk_total]
      exact hfits

/-! ## Memory -/

/-- What a GET holds is no more than was declared, and no more than a GET may have. -/
structure GetAccum.Bounded (get : GetAccum) : Prop where
  held : get.bytes.length ≤ get.reserved
  reserved : get.reserved = getLimit get.total

theorem bounded_beginGet (rest : List Char) : (beginGet rest).Bounded := ⟨Nat.zero_le _, rfl⟩

theorem GetAccum.Bounded.accumGetChunk (h : get.Bounded) (rest : List Char) : (accumGetChunk get rest).Bounded := by
  unfold ChunkedReplies.accumGetChunk
  dsimp only
  split
  · exact h
  · split
    · exact h
    · rename_i hfits
      refine ⟨?_, h.reserved⟩
      rw [List.length_append, h.reserved]
      exact Nat.not_lt.1 hfits

/-- What an output holds is no more than was declared, and no more than an output may have. -/
structure OutAccum.Bounded (accum : OutAccum) : Prop where
  held : accum.bytes.length ≤ accum.reserved
  declared : accum.reserved ≤ accum.total
  bound : accum.reserved ≤ maxCommandOutputBytes
  valid : accum.valid = true → accum.reserved = accum.total

theorem bounded_beginOut (rest : List Char) : (beginOut rest).Bounded := by
  cases hvalid : (beginOut rest).valid with
  | true =>
    have hdeclares := declares_of_beginOut hvalid
    rw [beginOut_of_declares hdeclares]
    exact ⟨Nat.zero_le _, Nat.le_refl _, hdeclares.bound, fun _ => rfl⟩
  | false =>
    have hreserved : (beginOut rest).reserved = 0 := if_neg (Bool.eq_false_iff.1 hvalid)
    refine ⟨Nat.zero_le _, ?_, ?_, fun h => nomatch hvalid.symm.trans h⟩
    · rw [hreserved]
      exact Nat.zero_le _
    · rw [hreserved]
      exact Nat.zero_le _

/-- A chunk that poisons a reply adds nothing. -/
theorem accumOutChunk_invalid (h : (accumOutChunk accum rest).valid = false) :
    (accumOutChunk accum rest).bytes = accum.bytes ∧ (accumOutChunk accum rest).reserved = accum.reserved ∧
      (accumOutChunk accum rest).total = accum.total := by
  unfold accumOutChunk at h ⊢
  cases hsplit : splitOnce ' ' rest with
  | none => exact ⟨rfl, rfl, rfl⟩
  | some fields =>
    obtain ⟨seqText, payload⟩ := fields
    rw [hsplit] at h
    dsimp only at h ⊢
    cases hparse : parseUsize seqText with
    | none => exact ⟨rfl, rfl, rfl⟩
    | some seq =>
      rw [hparse] at h
      dsimp only at h ⊢
      by_cases hvalid : accum.valid = true
      · have hopen : ¬(!accum.valid) = true := by
          rw [hvalid]
          decide
        rw [if_neg hopen] at h ⊢
        cases hpiece : outPiece accum seq payload with
        | none => exact ⟨rfl, rfl, rfl⟩
        | some bytes =>
          rw [hpiece] at h
          exact absurd (hvalid.symm.trans h) (by decide)
      · rw [if_pos (by rw [Bool.eq_false_iff.2 hvalid]; rfl)]
        exact ⟨rfl, rfl, rfl⟩

theorem OutAccum.Bounded.accumOutChunk (h : accum.Bounded) (rest : List Char) : (accumOutChunk accum rest).Bounded := by
  cases hvalid : (ChunkedReplies.accumOutChunk accum rest).valid with
  | true =>
    obtain ⟨hbefore, bytes, hnext, hpush⟩ := accumOutChunk_valid hvalid
    rw [hpush]
    refine ⟨?_, h.declared, h.bound, fun _ => h.valid hbefore⟩
    have hfits := hnext.fits
    rw [← h.valid hbefore] at hfits
    simp only [OutAccum.push, List.length_append]
    exact hfits
  | false =>
    obtain ⟨hbytes, hreserved, htotal⟩ := accumOutChunk_invalid hvalid
    refine ⟨by rw [hbytes, hreserved]; exact h.held, by rw [hreserved, htotal]; exact h.declared,
      by rw [hreserved]; exact h.bound, fun hyes => nomatch hvalid.symm.trans hyes⟩

end BridgeVm.AgentConsole.ChunkedReplies
