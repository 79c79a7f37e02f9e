import BridgeVm.Lib.LineReader
import BridgeVm.Lib.Text

/-!
# Framing of the agent channel (`line_codec.rs`, `framed_reader.rs`)

An envelope is a line of JSON; its type `E`, its text and what makes one valid are those of a `Codec`. The reader of a
socket collects a line over as many reads as it takes, keeps what it has when a read would block, and refuses a line of
more than `MAX_FRAME_BYTES`. Its results are those of the bytes alone (`envelopes_of_stream`), and what one side writes
the other reads (`written_envelopes_arrive`).
-/

namespace BridgeVm.Agentd

open Lib

/-! ## Text -/

/-- The characters of a `String`. -/
abbrev Text := List Char

structure Utf8Error where
  validUpTo : Nat
  errorLen : Option Nat
deriving DecidableEq

/-- Where bytes that are no text stop being one; `skip` bytes of the last sequence are still to be passed. -/
def utf8ErrorFrom : (skip index : Nat) → List UInt8 → Option Utf8Error
  | _, _, [] => none
  | skip + 1, index, _ :: bytes => utf8ErrorFrom skip (index + 1) bytes
  | 0, index, lead :: bytes =>
    if lead < 0x80 then utf8ErrorFrom 0 (index + 1) bytes
    else
      match followers lead with
      | none => some { validUpTo := index, errorLen := some 1 }
      | some (n, low, high) =>
        let rest := continuation n low high bytes
        if rest.length = n then utf8ErrorFrom n (index + 1) bytes
        else some { validUpTo := index, errorLen := if rest.length <
          bytes.length then some (rest.length + 1) else none }

/-- The `Display` of a `Utf8Error`. -/
def Utf8Error.text (e : Utf8Error) : Text :=
  match e.errorLen with
  | some n => "invalid utf-8 sequence of ".toList ++ Nat.toDigits 10 n ++ " bytes from index ".toList ++
    Nat.toDigits 10 e.validUpTo
  | none => "incomplete utf-8 byte sequence from index ".toList ++ Nat.toDigits 10 e.validUpTo

/-- `String::from_utf8`. -/
def fromUtf8 (bytes : List UInt8) : Except Text Text :=
  match bytes.toByteArray.utf8Decode? with
  | some chars => .ok chars.toList
  | none => .error (((utf8ErrorFrom 0 0 bytes).map Utf8Error.text).getD [])

theorem fromUtf8_utf8 (text : Text) : fromUtf8 (utf8 text) = .ok text := by
  have hdecode : (utf8 text).toByteArray.utf8Decode? = some text.toArray := List.utf8Decode?_utf8Encode
  rw [fromUtf8, hdecode]

/-! ## Envelopes -/

def MAX_FRAME_BYTES : Nat := 1024 * 1024

inductive ErrorKind
  | wouldBlock
  | timedOut
  | invalidData
  | other (code : Nat)
deriving DecidableEq

inductive AgentCodecError (V : Type)
  | emptyFrame
  | missingFrameTerminator
  | multipleFrames
  | frameTooLarge
  | io (kind : ErrorKind) (message : Text)
  | json (message : Text)
  | protocol (e : V)

/-- `serde_json` for envelopes, and `AgentEnvelope::validate`. -/
structure Codec (E V : Type) where
  toString : E → Except Text Text
  fromStr : Text → Except Text E
  validate : E → Except V Unit

variable {E V : Type}

def encodeEnvelopeLine (codec : Codec E V) (envelope : E) : Except (AgentCodecError V) Text := do
  (codec.validate envelope).mapError .protocol
  let line ← (codec.toString envelope).mapError .json
  return line ++ ['\n']

/-- `write_envelope_line`: the bytes that go to the socket. -/
def writeEnvelopeLine (codec : Codec E V) (envelope : E) : Except (AgentCodecError V) (List UInt8) :=
  (encodeEnvelopeLine codec envelope).map utf8

def decodeEnvelopeLine (codec : Codec E V) (line : Text) : Except (AgentCodecError V) E :=
  if line.isEmpty then .error .emptyFrame
  else if line.getLast? ≠ some '\n' then .error .missingFrameTerminator
  else
    let frame := (line.rdropWhile (· = '\n')).rdropWhile (· = '\r')
    if (trim frame).isEmpty then .error .emptyFrame
    else if '\n' ∈ frame then .error .multipleFrames
    else do
      let envelope ← (codec.fromStr frame).mapError .json
      (codec.validate envelope).mapError .protocol
      return envelope

/-! ## The reader -/

/-- A failure of the socket: its kind and its text. -/
abbrev IoFailure := ErrorKind × Text

/-- `EnvelopeLineReader`: the pending bytes, over a `BufReader`. -/
abbrev EnvelopeLineReader := LineReader IoFailure

/-- `EnvelopeLineReader::new`, over a socket that will answer this. -/
def EnvelopeLineReader.new (fills : List (Fill IoFailure)) : EnvelopeLineReader :=
  { pending := [], buffer := [], fills }

abbrev ReadResult (E V : Type) := Except (AgentCodecError V) (Option E)

/-- A line of bytes becomes an envelope. -/
def decodeLine (codec : Codec E V) (bytes : List UInt8) : Except (AgentCodecError V) (Option E) := do
  let line ← (fromUtf8 bytes).mapError (.io .invalidData)
  let envelope ← decodeEnvelopeLine codec line
  return some envelope

def LineResult.decode (codec : Codec E V) : LineRead IoFailure → ReadResult E V
  | .line bytes => decodeLine codec bytes
  | .eof => .ok none
  | .tooLong => .error .frameTooLarge
  | .failed (kind, message) => .error (.io kind message)

/-- The byte of `\n`. -/
def LF : UInt8 := 10

def EnvelopeLineReader.readEnvelope (codec : Codec E V) (reader : EnvelopeLineReader) :
    ReadResult E V × EnvelopeLineReader :=
  let (result, reader) := LineReader.readLine LF MAX_FRAME_BYTES reader
  (LineResult.decode codec result, reader)

/-- The results of a number of calls. -/
def readAll (codec : Codec E V) : Nat → EnvelopeLineReader → List (ReadResult E V)
  | 0, _ => []
  | n + 1, reader => (reader.readEnvelope codec).1 :: readAll codec n (reader.readEnvelope codec).2

/-! ## Results and bytes -/

theorem readAll_eq (codec : Codec E V) (n : Nat) (reader : EnvelopeLineReader) :
    readAll codec n reader = (LineReader.calls LF MAX_FRAME_BYTES n reader).map (LineResult.decode codec) := by
  induction n generalizing reader with
  | zero => rfl
  | succ n ih =>
    rw [readAll, ih]
    rfl

theorem wf_new (fills : List (Fill IoFailure)) : (EnvelopeLineReader.new fills).WF LF MAX_FRAME_BYTES :=
  ⟨List.not_mem_nil, Nat.zero_le _⟩

theorem unread_new (fills : List (Fill IoFailure)) : (EnvelopeLineReader.new fills).unread = fillBytes fills := rfl

/-- **Whatever the sizes of the reads, the interruptions and the moments at which the socket has no data, the results of
the calls are the failures of the socket, in order, and between them the frames of its bytes: no byte is lost, none is
read twice, and a frame is refused for its own length only.** -/
theorem envelopes_of_stream (codec : Codec E V) (fills : List (Fill IoFailure)) (n : Nat) :
    ∃ k ≤ min n (failures fills).length, ∃ results : List (LineRead IoFailure),
      readAll codec n (.new fills) = results.map (LineResult.decode codec) ∧
      results.filterMap LineRead.failure? = (failures fills).take k ∧
      results.filter (fun result => result.failure?.isNone) =
        LineReader.cuts LF MAX_FRAME_BYTES (n - k) (fillBytes fills) := by
  obtain ⟨k, hk, hfailures, hlines⟩ := LineReader.calls_results (wf_new fills) n
  exact ⟨k, hk, _, readAll_eq codec n _, hfailures, hlines⟩

/-! ## What is written is read -/

theorem lf_ne_high {x m base : Nat} (hbase : 128 ≤ base) (hpos : 0 < m) (hm : base + m ≤ 256) :
    LF ≠ UInt8.ofNat (x % m + base) := by
  have hlt := Nat.mod_lt x hpos
  intro heq
  have hnat := congrArg UInt8.toNat heq
  rw [UInt8.toNat_ofNat_of_lt' (show x % m + base < 2 ^ 8 by omega)] at hnat
  have hten : UInt8.toNat LF = 10 := rfl
  omega

theorem eq_of_lf_mem {c : Char} (h : LF ∈ String.utf8EncodeChar c) : c = '\n' := by
  unfold String.utf8EncodeChar at h
  dsimp only at h
  split at h
  · rename_i hle
    have heq : LF = UInt8.ofNat c.val.toNat := by simpa using h
    have hnat := congrArg UInt8.toNat heq
    rw [UInt8.toNat_ofNat_of_lt' (show c.val.toNat < 2 ^ 8 by omega)] at hnat
    exact Char.ext (UInt32.toNat_inj.mp hnat.symm)
  · split at h
    · simp only [List.mem_cons, List.not_mem_nil, or_false] at h
      obtain h | h := h <;> exact absurd h (lf_ne_high (by decide) (by decide) (by decide))
    · split at h
      · simp only [List.mem_cons, List.not_mem_nil, or_false] at h
        obtain h | h | h := h <;> exact absurd h (lf_ne_high (by decide) (by decide) (by decide))
      · simp only [List.mem_cons, List.not_mem_nil, or_false] at h
        obtain h | h | h | h := h <;> exact absurd h (lf_ne_high (by decide) (by decide) (by decide))

theorem lf_not_mem_utf8 {text : Text} (h : '\n' ∉ text) : LF ∉ utf8 text := by
  intro hmem
  obtain ⟨c, hc, hbyte⟩ := List.mem_flatMap.mp hmem
  exact h (eq_of_lf_mem hbyte ▸ hc)

/-- `serde_json` writes this envelope as an object on one line, and reads the same one back. -/
structure Codec.RoundTrips (codec : Codec E V) (e : E) : Prop where
  round_trip {text : Text} (h : codec.toString e = .ok text) : codec.fromStr text = .ok e
  one_line {text : Text} (h : codec.toString e = .ok text) : '\n' ∉ text
  object {text : Text} (h : codec.toString e = .ok text) : text.head? = some '{' ∧ text.getLast? = some '}'

theorem of_encode {codec : Codec E V} {e : E} {line : Text} (h : encodeEnvelopeLine codec e = .ok line) :
    codec.validate e = .ok () ∧ ∃ text, codec.toString e = .ok text ∧ line = text ++ ['\n'] := by
  unfold encodeEnvelopeLine at h
  cases hvalid : codec.validate e with
  | error err =>
    rw [hvalid] at h
    cases h
  | ok u =>
    rw [hvalid] at h
    refine ⟨rfl, ?_⟩
    cases htext : codec.toString e with
    | error err =>
      rw [htext] at h
      cases h
    | ok text =>
      rw [htext] at h
      cases h
      exact ⟨text, rfl, rfl⟩

theorem rdropWhile_object {text : Text} {c : Char} (hlast : text.getLast? = some '}') (hc : c ≠ '}') :
    text.rdropWhile (fun x => decide (x = c)) = text := by
  obtain ⟨front, rfl⟩ := List.getLast?_eq_some_iff.mp hlast
  rw [List.rdropWhile_concat_neg]
  simpa using hc.symm

theorem trim_object {text : Text} (hhead : text.head? = some '{') (hlast : text.getLast? = some '}') :
    trim text = text := by
  obtain ⟨rest, rfl⟩ : ∃ rest, text = '{' :: rest := by
    cases text with
    | nil => cases hhead
    | cons c rest =>
      cases hhead
      exact ⟨rest, rfl⟩
  rw [trim, List.dropWhile_cons_of_neg (by decide)]
  obtain ⟨front, hfront⟩ := List.getLast?_eq_some_iff.mp hlast
  rw [hfront, List.rdropWhile_concat_neg _ _ _ (by decide)]

theorem decode_encoded {codec : Codec E V} {e : E} (hcodec : codec.RoundTrips e) {text : Text}
    (hvalid : codec.validate e = .ok ()) (htext : codec.toString e = .ok text) :
    decodeEnvelopeLine codec (text ++ ['\n']) = .ok e := by
  obtain ⟨hhead, hlast⟩ := hcodec.object htext
  have hframe : ((text ++ ['\n']).rdropWhile (fun x => decide (x = '\n'))).rdropWhile (fun x => decide (x = '\r')) =
    text := by
    rw [List.rdropWhile_concat_pos _ _ _ (by simp), rdropWhile_object hlast (by decide),
      rdropWhile_object hlast (by decide)]
  have htrim : (trim text).isEmpty = false := by
    rw [trim_object hhead hlast]
    cases text with
    | nil => cases hhead
    | cons c text => rfl
  unfold decodeEnvelopeLine
  rw [if_neg (by simp), if_neg (by simp)]
  dsimp only
  rw [hframe, htrim, if_neg Bool.false_ne_true, if_neg (hcodec.one_line htext), hcodec.round_trip htext]
  dsimp only [Except.mapError, bind, Except.bind]
  rw [hvalid]
  rfl

theorem of_writeEnvelopeLine {codec : Codec E V} {e : E} (hcodec : codec.RoundTrips e) {line : List UInt8}
    (h : writeEnvelopeLine codec e = .ok line) :
    ∃ body, line = body ++ [LF] ∧ LF ∉ body ∧ decodeLine codec (body ++ [LF]) = .ok (some e) := by
  unfold writeEnvelopeLine at h
  cases hencode : encodeEnvelopeLine codec e with
  | error err =>
    rw [hencode] at h
    cases h
  | ok text =>
    rw [hencode] at h
    cases h
    obtain ⟨hvalid, text, htext, rfl⟩ := of_encode hencode
    have hline : utf8 (text ++ ['\n']) = utf8 text ++ [LF] := by
      rw [utf8, List.flatMap_append]
      rfl
    refine ⟨utf8 text, hline, lf_not_mem_utf8 (hcodec.one_line htext), ?_⟩
    rw [← hline, decodeLine, fromUtf8_utf8]
    dsimp only [Except.mapError, bind, Except.bind]
    rw [decode_encoded hcodec hvalid htext]
    rfl

theorem bodies_of_lines {codec : Codec E V} {sent : List E} (hcodec : ∀ e ∈ sent, codec.RoundTrips e)
    {lines : List (List UInt8)} (h : List.Forall₂ (fun e line => writeEnvelopeLine codec e = .ok line) sent lines) :
    ∃ bodies : List (List UInt8), lines = bodies.map (fun body => body ++ [LF]) ∧
    (∀ body ∈ bodies, LF ∉ body) ∧
      bodies.map (fun body => decodeLine codec (body ++ [LF])) = sent.map fun e => .ok (some e) := by
  induction h with
  | nil => exact ⟨[], rfl, by simp, rfl⟩
  | cons hwrite _ ih =>
    obtain ⟨body, rfl, hlf, hdecode⟩ := of_writeEnvelopeLine (hcodec _ List.mem_cons_self) hwrite
    obtain ⟨bodies, rfl, hall, hmap⟩ := ih fun e he => hcodec e (List.mem_cons_of_mem _ he)
    exact ⟨body :: bodies, rfl, List.forall_mem_cons.mpr
      ⟨hlf, hall⟩, by rw [List.map_cons, hdecode, hmap, List.map_cons]⟩

/-- **The envelopes that one side writes, when each can be read back from its text, arrive at the other, each once and
in order, and then the end of the channel: however the bytes are split, and however often the socket has none.** -/
theorem written_envelopes_arrive {codec : Codec E V} {sent : List E} (hcodec : ∀ e ∈ sent, codec.RoundTrips e)
    {lines : List (List UInt8)} (hwrite : List.Forall₂
      (fun e line => writeEnvelopeLine codec e = .ok line) sent lines)
    (hlength : ∀ line ∈ lines, line.length ≤ MAX_FRAME_BYTES) {fills : List (Fill IoFailure)}
    (hbytes : fillBytes fills = lines.flatten) (n : Nat) :
    ∃ k ≤ min n (failures fills).length, ∃ results : List (LineRead IoFailure),
      readAll codec n (.new fills) = results.map (LineResult.decode codec) ∧
      results.filterMap LineRead.failure? = (failures fills).take k ∧
      (results.filter fun result => result.failure?.isNone).map (LineResult.decode codec) =
        (sent.map (fun e => Except.ok (some e)) ++ List.replicate (n - k) (Except.ok none)).take (n - k) := by
  obtain ⟨k, hk, hfailures, hlines⟩ := LineReader.calls_results (wf_new fills) n
  refine ⟨k, hk, _, readAll_eq codec n _, hfailures, ?_⟩
  obtain ⟨bodies, rfl, hlf, hdecode⟩ := bodies_of_lines hcodec hwrite
  have hshort : ∀ body ∈ bodies, LF ∉ body ∧ body.length < MAX_FRAME_BYTES := fun body hbody =>
    ⟨hlf body hbody, Nat.lt_of_succ_le (by simpa using hlength _ (List.mem_map_of_mem hbody))⟩
  rw [hlines, unread_new, hbytes, ← List.flatMap_def, LineReader.cuts_lines hshort, List.map_take, List.map_append,
    List.map_map,
    List.map_replicate, ← hdecode]
  rfl

def heartbeatText : Text := "\x7b\"protocol_version\":1,\"message\":\"Heartbeat\"\x7d".toList

/-- The codec, as far as heartbeats go. -/
def heartbeatCodec : Codec Unit Unit where
  toString _ := .ok heartbeatText
  fromStr text := if text = heartbeatText then .ok () else .error []
  validate _ := .ok ()

theorem heartbeat_roundTrips : heartbeatCodec.RoundTrips () := by
  refine ⟨fun h => ?_, fun h => ?_, fun h => ?_⟩
  · cases h
    rfl
  · cases h
    decide
  · cases h
    exact ⟨rfl, rfl⟩

/-- The bytes of a heartbeat come in two reads, with none in between. -/
def heartbeatFills : List (Fill IoFailure) :=
  [.data 123 (utf8 (heartbeatText.tail.take 9)), .failed (.wouldBlock, []), .interrupted,
    .data 95 (utf8 (heartbeatText.drop 11 ++ ['\n']))]

theorem heartbeat_arrives : ∃ k ≤ min 3 (failures heartbeatFills).length, ∃ results : List (LineRead IoFailure),
    readAll heartbeatCodec 3 (.new heartbeatFills) = results.map (LineResult.decode heartbeatCodec) ∧
    results.filterMap LineRead.failure? = (failures heartbeatFills).take k ∧
    (results.filter fun result => result.failure?.isNone).map (LineResult.decode heartbeatCodec) =
      ([()].map (fun e => Except.ok (some e)) ++ List.replicate (3 - k) (Except.ok none)).take (3 - k) :=
  have hwritten : writeEnvelopeLine heartbeatCodec () = .ok (utf8 (heartbeatText ++ ['\n'])) := rfl
  have hbytes : fillBytes heartbeatFills = [utf8 (heartbeatText ++ ['\n'])].flatten := by decide +kernel
  written_envelopes_arrive (fun _ _ => heartbeat_roundTrips) (.cons hwritten .nil) (by decide +kernel) hbytes 3

end BridgeVm.Agentd
