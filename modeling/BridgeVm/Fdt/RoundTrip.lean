import BridgeVm.Fdt.Built

/-!
# Blobs are read back (`dtb.rs`)

A reader of the format takes each token, reservation and header word back, and assembles the forest that the calls
spell (`device_tree_round_trip`).
-/

namespace BridgeVm.Fdt

open Lib

/-! ## Reading a blob -/

section Reader

theorem balancedFrom_nesting {openNodes : List Bool} {tokens : List Token} (h : balancedFrom openNodes tokens = true) :
    (tokens.map Token.nesting).sum = -openNodes.length := by
  fun_induction balancedFrom openNodes tokens with
  | case1 => rfl
  | case2 => cases h
  | case3 name tokens ih =>
    have hrest := ih h
    simp only [List.length_cons, List.length_nil] at hrest
    simp only [List.map_cons, List.sum_cons, Token.nesting, hrest]
    rfl
  | case4 stack name tokens flag ih =>
    have hrest := ih h
    simp only [List.length_cons] at hrest ⊢
    simp only [List.map_cons, List.sum_cons, Token.nesting, hrest]
    omega
  | case5 stack name value tokens ih =>
    have hrest := ih h
    simp only [List.length_cons] at hrest ⊢
    simp only [List.map_cons, List.sum_cons, Token.nesting, hrest]
    omega
  | case6 => cases h
  | case7 => cases h
  | case8 flag stack tokens ih =>
    have hrest := ih h
    simp only [List.length_cons]
    simp only [List.map_cons, List.sum_cons, Token.nesting, hrest]
    omega
  | case9 => cases h

/-- The words of a header. -/
def Header.words (h : Header) : List Nat :=
  [fdtMagic, h.totalsize, h.offDtStruct, h.offDtStrings, h.offMemRsvmap, fdtVersion, fdtLastCompVersion, 0,
    h.sizeDtStrings, h.sizeDtStruct]

theorem readWords_encoded {words : List Nat} (hfits : ∀ word ∈ words, word < 2 ^ 32) (rest : List UInt8) :
    readWords words.length (words.flatMap (toBeBytes 4) ++ rest) = some words := by
  induction words with
  | nil => rfl
  | cons word words ih =>
    rw [List.length_cons, List.flatMap_cons, List.append_assoc, readWords, be32_head (hfits word (by simp)),
      Option.bind_some, List.drop_left' (length_toBeBytes 4 _), ih fun word hword => hfits word (by simp [hword])]
    rfl

theorem readHeader_encoded {h : Header} (hfits : ∀ word ∈ h.words, word < 2 ^ 32) (rest : List UInt8) :
    readHeader (h.words.flatMap (toBeBytes 4) ++ rest) = some h := by
  have hwords : readWords 10 (h.words.flatMap (toBeBytes 4) ++ rest) = some h.words := readWords_encoded hfits rest
  rw [readHeader, hwords]
  simp only [Header.words]
  rw [if_pos (by decide)]

theorem length_encodeReservation (entry : UInt64 × UInt64) : (FdtBuilder.encodeReservation entry).length = 16 := by
  rw [FdtBuilder.encodeReservation, List.length_append, length_toBeBytes, length_toBeBytes]

theorem length_encodeReservations (entries : List (UInt64 × UInt64)) :
    (entries.flatMap FdtBuilder.encodeReservation).length = 16 * entries.length := by
  induction entries with
  | nil => rfl
  | cons entry entries ih =>
    rw [List.flatMap_cons, List.length_append, ih, length_encodeReservation, List.length_cons]
    omega

theorem readReservation_head (entry : UInt64 × UInt64) (rest : List UInt8) :
    (UInt64.ofNat (ofBeBytes (slice (FdtBuilder.encodeReservation entry ++ rest) 0 8)),
      UInt64.ofNat (ofBeBytes (slice (FdtBuilder.encodeReservation entry ++ rest) 8 8))) = entry := by
  have hback (v : UInt64) : UInt64.ofNat (ofBeBytes (toBeBytes 8 v.toNat)) = v := by
    have hlt : v.toNat < 256 ^ 8 := v.toNat_lt
    rw [ofBeBytes_toBeBytes, Nat.mod_eq_of_lt hlt, UInt64.ofNat_toNat]
  have hskip : 8 - (toBeBytes 8 entry.1.toNat).length = 0 := by rw [length_toBeBytes]
  rw [FdtBuilder.encodeReservation, List.append_assoc, slice_head (length_toBeBytes 8 _),
    slice_skip (by rw [length_toBeBytes]), hskip, slice_head (length_toBeBytes 8 _), hback, hback]

/-- Reservations are read up to the null one. -/
theorem readReservations_encoded {entries : List (UInt64 × UInt64)}
    (hentries : ∀ entry ∈ entries, entry ≠ (0, 0))
    {fuel : Nat} (hfuel : entries.length < fuel) (rest : List UInt8) :
    readReservations fuel ((entries ++ [(0, 0)]).flatMap FdtBuilder.encodeReservation ++ rest) = some entries := by
  induction entries generalizing fuel with
  | nil =>
    obtain ⟨fuel, rfl⟩ : ∃ n, fuel = n + 1 := ⟨fuel - 1, by omega⟩
    have hroom : 16 ≤ (FdtBuilder.encodeReservation (0, 0) ++ rest).length := by
      rw [List.length_append, length_encodeReservation]
      omega
    rw [List.nil_append, List.flatMap_cons, List.flatMap_nil, List.append_nil, readReservations,
      if_neg (by omega), readReservation_head]
    exact if_pos rfl
  | cons entry entries ih =>
    obtain ⟨fuel, rfl⟩ : ∃ n, fuel = n + 1 := ⟨fuel - 1, by omega⟩
    rw [List.length_cons] at hfuel
    have hroom (more : List UInt8) : 16 ≤ (FdtBuilder.encodeReservation entry ++ more).length := by
      rw [List.length_append, length_encodeReservation]
      omega
    rw [List.cons_append, List.flatMap_cons, List.append_assoc, readReservations,
      if_neg (Nat.not_lt.2 (hroom _)), readReservation_head, List.drop_left' (length_encodeReservation entry)]
    dsimp only
    rw [if_neg (hentries entry (by simp)), ih (fun entry hentry => hentries entry (by simp [hentry])) (by omega)]
    rfl

/-- The name of a node or property. -/
def Token.name : Token → List UInt8
  | .beginNode name => name
  | .endNode => []
  | .prop name _ => name

/-- A token that stands for another resolves to it. -/
theorem Stands.resolve {offsets : AssocMap (List UInt8) Nat} {strings : List UInt8}
    (hkept : ∀ name off, offsets.get name = some off → NameAt strings off name) {raw : RawToken} {token : Token}
    (h : Stands offsets raw token) (hname : 0 ∉ token.name) : resolve strings raw = some token := by
  cases raw with
  | beginNode name =>
    cases token with
    | beginNode name' => exact congrArg (some ∘ Token.beginNode) h
    | endNode => cases h
    | prop name' value => cases h
  | endNode =>
    cases token with
    | beginNode name' => cases h
    | endNode => rfl
    | prop name' value => cases h
  | prop nameoff value =>
    cases token with
    | beginNode name' => cases h
    | endNode => cases h
    | prop name' value' =>
      rw [Fdt.resolve, (hkept _ _ h.1).cstring hname, h.2]
      rfl

theorem mapM_resolve {offsets : AssocMap (List UInt8) Nat} {strings : List UInt8}
    (hkept : ∀ name off, offsets.get name = some off → NameAt strings off name) {raws : List RawToken}
    {tokens : List Token} (h : List.Forall₂ (Stands offsets) raws tokens) (hnames : ∀ token ∈ tokens,
      0 ∉ token.name) :
    raws.mapM (resolve strings) = some tokens := by
  induction h with
  | nil => rfl
  | cons hstands _ ih =>
    rw [List.mapM_cons, hstands.resolve hkept (hnames _ (by simp)),
      ih fun token htoken => hnames token (by simp [htoken])]
    rfl

/-- The header of a blob with so many reservations, and blocks of these lengths. -/
def layout (entries structLen stringsLen : Nat) : Header where
  offMemRsvmap := headerLen
  offDtStruct := headerLen + 16 * (entries + 1)
  sizeDtStruct := structLen
  offDtStrings := headerLen + 16 * (entries + 1) + structLen
  sizeDtStrings := stringsLen
  totalsize := headerLen + 16 * (entries + 1) + structLen + stringsLen

/-- The sections fill a blob, without gaps. -/
structure Header.Partitions (h : Header) (entries size : Nat) : Prop where
  reservations : h.offMemRsvmap = headerLen
  structBlock : h.offDtStruct = h.offMemRsvmap + 16 * (entries + 1)
  strings : h.offDtStrings = h.offDtStruct + h.sizeDtStruct
  total : h.totalsize = h.offDtStrings + h.sizeDtStrings
  whole : h.totalsize = size

/-- The bytes of a blob. -/
def blobBytes (entries : List (UInt64 × UInt64)) (structBlock strings : List UInt8) : List UInt8 :=
  (layout entries.length structBlock.length strings.length).words.flatMap (toBeBytes 4) ++
    ((entries ++ [(0, 0)]).flatMap FdtBuilder.encodeReservation ++ (structBlock ++ strings))

theorem length_words (h : Header) : (h.words.flatMap (toBeBytes 4)).length = headerLen := by
  simp [Header.words, headerLen]

theorem length_reservations (entries : List (UInt64 × UInt64)) :
    ((entries ++ [(0, 0)]).flatMap FdtBuilder.encodeReservation).length = 16 * (entries.length + 1) := by
  rw [length_encodeReservations, List.length_append, List.length_singleton]

theorem length_blobBytes (entries : List (UInt64 × UInt64)) (structBlock strings : List UInt8) :
    (blobBytes entries structBlock strings).length =
      (layout entries.length structBlock.length strings.length).totalsize := by
  rw [blobBytes, List.length_append, length_words, List.length_append, length_reservations, List.length_append]
  simp only [layout]
  omega

theorem layout_partitions (entries structLen stringsLen : Nat) :
    (layout entries structLen stringsLen).Partitions entries (layout entries structLen stringsLen).totalsize :=
  ⟨rfl, rfl, rfl, rfl, rfl⟩

theorem layout_words {entries structLen stringsLen : Nat}
    (h : (layout entries structLen stringsLen).totalsize < 2 ^ 32) :
    ∀ word ∈ (layout entries structLen stringsLen).words, word < 2 ^ 32 := by
  simp only [layout] at h
  intro word hword
  simp only [Header.words, layout, List.mem_cons, List.not_mem_nil, or_false] at hword
  simp only [fdtMagic, fdtVersion, fdtLastCompVersion, headerLen] at h hword
  omega

/-- A blob of less than 2³² bytes is read back. -/
theorem parseDtb_blobBytes {entries : List (UInt64 × UInt64)} {raws : List RawToken} {strings : List UInt8}
    {named : List Token} {nodes : List Node} (hentries : ∀ entry ∈ entries, entry ≠ (0, 0))
    (hfits : ∀ raw ∈ raws, raw.Fits) (hnamed : raws.mapM (resolve strings) = some named)
    (hnodes : assemble [] [] named = some nodes)
    (hsize : (blobBytes entries (raws.flatMap RawToken.encode ++ toBeBytes 4 fdtEnd) strings).length < 2 ^ 32) :
    parseDtb (blobBytes entries (raws.flatMap RawToken.encode ++ toBeBytes 4 fdtEnd) strings) =
      some ⟨layout entries.length (raws.flatMap RawToken.encode ++ toBeBytes 4 fdtEnd).length strings.length, entries,
        placed (headerLen + 16 * (entries.length + 1)) raws, nodes⟩ := by
  have htokens (pos : Nat) (hpos : pos % 4 = 0) :
      readTokens (raws.flatMap RawToken.encode ++ toBeBytes 4 fdtEnd).length pos
        (raws.flatMap RawToken.encode ++ toBeBytes 4 fdtEnd) = some (placed pos raws) := by
    have hle := length_le_encoded raws
    refine readTokens_encoded hfits hpos ?_
    rw [List.length_append, length_toBeBytes]
    omega
  generalize hblock : raws.flatMap RawToken.encode ++ toBeBytes 4 fdtEnd = structBlock at hsize htokens ⊢
  have hlength := length_blobBytes entries structBlock strings
  have hheader := readHeader_encoded (layout_words (hlength ▸ hsize))
    ((entries ++ [(0, 0)]).flatMap FdtBuilder.encodeReservation ++ (structBlock ++ strings))
  have hwords := length_words (layout entries.length structBlock.length strings.length)
  have hrsv := length_reservations entries
  have hstruct : slice (blobBytes entries structBlock strings) (headerLen + 16 * (entries.length + 1))
      structBlock.length = structBlock := by
    rw [blobBytes, slice_skip (by omega), slice_skip (by omega), hwords, hrsv, Nat.add_sub_cancel_left, Nat.sub_self,
      slice_head rfl]
  have hstrings : slice (blobBytes entries structBlock strings)
      (headerLen + 16 * (entries.length + 1) + structBlock.length) strings.length = strings := by
    rw [blobBytes, slice_skip (by omega), slice_skip (by omega), slice_skip (by omega), hwords, hrsv]
    rw [show headerLen + 16 * (entries.length + 1) + structBlock.length - headerLen - 16 * (entries.length + 1) -
      structBlock.length = 0 by omega, slice_all rfl]
  have hreserved : readReservations (blobBytes entries structBlock strings).length
      ((blobBytes entries structBlock strings).drop headerLen) = some entries := by
    have hfuel : entries.length < (blobBytes entries structBlock strings).length := by
      rw [hlength, layout]
      dsimp only
      omega
    rw [← hwords]
    conv_lhs => arg 2; rw [blobBytes]
    rw [List.drop_left]
    exact readReservations_encoded hentries hfuel _
  have hresolved : ((placed (headerLen + 16 * (entries.length + 1)) raws).mapM fun token => resolve strings token.2) =
      some named := by
    have hsame := congrArg (List.mapM (resolve strings))
      (map_snd_placed (headerLen + 16 * (entries.length + 1)) raws)
    rw [List.mapM_map] at hsame
    exact hsame.trans hnamed
  rw [parseDtb]
  rw [show readHeader (blobBytes entries structBlock strings) = _ from hheader, Option.bind_some, if_neg ?_]
  · simp only [layout]
    rw [hstruct, hstrings, hreserved, Option.bind_some, htokens _ (by rw [headerLen]; omega), Option.bind_some,
      hresolved, Option.bind_some, hnodes]
    rfl
  · rw [hlength]
    simp only [layout]
    omega

theorem Built.finish {b : FdtBuilder} {tokens : List Token} {reservations : List (UInt64 × UInt64)}
    (h : Built b tokens reservations) (hdepth : b.depth = 0) {raws : List RawToken}
    (hblock : b.structBlock = raws.flatMap RawToken.encode) :
    b.finish = some (blobBytes reservations (raws.flatMap RawToken.encode ++ toBeBytes 4 fdtEnd) b.strings) := by
  rw [FdtBuilder.finish, if_neg (by rw [hdepth]; decide)]
  simp only [blobBytes, Header.words, layout, h.reserved, hblock, length_reservations, List.append_assoc]

/-- A token of less than 2³² bytes that stands for another fits. -/
theorem Stands.fits {offsets : AssocMap (List UInt8) Nat}
    (hoffsets : ∀ name off, offsets.get name = some off → off < 2 ^ 32) {raw : RawToken} {token : Token}
    (h : Stands offsets raw token) (hname : 0 ∉ token.name) (hsize : raw.encode.length < 2 ^ 32) : raw.Fits := by
  cases raw with
  | beginNode name =>
    cases token with
    | beginNode name' =>
      rw [show name = name' from h]
      exact hname
    | endNode => cases h
    | prop name' value => cases h
  | endNode => trivial
  | prop nameoff value =>
    cases token with
    | beginNode name' => cases h
    | endNode => cases h
    | prop name' value' =>
      refine ⟨hoffsets _ _ h.1, Nat.lt_of_le_of_lt ?_ hsize⟩
      rw [RawToken.encode, length_padTo4]
      refine Nat.le_trans ?_ (le_roundUp4 _)
      simp only [List.length_append]
      omega

theorem fits_of_stands {offsets : AssocMap (List UInt8) Nat}
    (hoffsets : ∀ name off, offsets.get name = some off → off < 2 ^ 32) {raws : List RawToken} {tokens : List Token}
    (hstands : List.Forall₂ (Stands offsets) raws tokens) (hnames : ∀ token ∈ tokens, 0 ∉ token.name)
    (hsize : (raws.flatMap RawToken.encode).length < 2 ^ 32) : ∀ raw ∈ raws, raw.Fits := by
  induction hstands with
  | nil => nofun
  | cons hhead _ ih =>
    rw [List.flatMap_cons, List.length_append] at hsize
    intro raw hraw
    rcases List.mem_cons.1 hraw with rfl | hraw
    · exact hhead.fits hoffsets (hnames _ (by simp)) (by omega)
    · exact ih (fun token htoken => hnames token (by simp [htoken])) (by omega) raw hraw

theorem prop_place {offsets : AssocMap (List UInt8) Nat} {raws : List RawToken} {tokens : List Token}
    (hstands : List.Forall₂ (Stands offsets) raws tokens) (pos : Nat) {i : Nat} {name value : List UInt8}
    (hi : tokens[i]? = some (.prop name value)) :
    ∃ place off, (placed pos raws)[i]? = some (place, .prop off value) ∧ offsets.get name = some off := by
  induction hstands generalizing pos i with
  | nil => cases hi
  | @cons raw token raws tokens hhead _ ih =>
    cases i with
    | zero =>
      cases hi
      cases raw with
      | beginNode name' => cases hhead
      | endNode => cases hhead
      | prop off value' =>
        obtain ⟨hoff, rfl⟩ := hhead
        exact ⟨pos, off, rfl, hoff⟩
    | succ i => exact ih (pos + raw.encode.length) hi

end Reader

/-- Properties are in their places, and have one offset in the strings block if and only if they have one name. -/
def SharedOffsets (tokens : List Token) (read : List (Nat × RawToken)) : Prop :=
  ∀ (i j : Nat) (name name' value value' : List UInt8), tokens[i]? = some (.prop name value) →
    tokens[j]? = some (.prop name' value') →
    ∃ (place place' off off' : Nat), read[i]? = some (place, .prop off value) ∧
    read[j]? = some (place', .prop off' value') ∧
      (off = off' ↔ name = name')

/-- What the calls spell is what a reader of the finished blob finds. -/
theorem device_tree_round_trip (calls : List Call) (hbalanced : Balanced calls)
    (hnames : ∀ token ∈ calls.filterMap Call.token, 0 ∉ token.name)
    (hentries : ∀ entry ∈ calls.filterMap Call.reservation, entry ≠ (0, 0)) :
    ∃ blob forest, (FdtBuilder.run calls).finish = some blob ∧
      (∀ nodes, forestTokens nodes = calls.filterMap Call.token ↔ nodes = forest) ∧
      (blob.length < 2 ^ 32 → ∃ dtb : Dtb, parseDtb blob = some dtb ∧ dtb.nodes = forest ∧
        dtb.reservations = calls.filterMap Call.reservation ∧ (∀ token ∈ dtb.tokens, token.1 % 4 = 0) ∧
        dtb.header.Partitions dtb.reservations.length blob.length ∧
        SharedOffsets (calls.filterMap Call.token) dtb.tokens) := by
  have hbuilt := Built.run calls
  obtain ⟨raws, hblock, hstands⟩ := hbuilt.block
  obtain ⟨forest, hforest⟩ := @assemble_balanced [] [] _ hbalanced
  have hspells := assemble_spells hforest
  rw [stackTokens, List.append_nil] at hspells
  have hdepth : (FdtBuilder.run calls).depth = 0 := by
    rw [hbuilt.nested, balancedFrom_nesting hbalanced]
    rfl
  refine ⟨_, forest, hbuilt.finish hdepth hblock, fun nodes => ⟨fun hnodes => ?_, fun hnodes => ?_⟩,
    fun hsize => ?_⟩
  · exact forestTokens_inj (hnodes.trans hspells)
  · rw [hnodes]
    exact hspells.symm
  have hstrings : (FdtBuilder.run calls).strings.length < 2 ^ 32 := by
    have hlength := length_blobBytes (calls.filterMap Call.reservation)
      (raws.flatMap RawToken.encode ++ toBeBytes 4 fdtEnd) (FdtBuilder.run calls).strings
    simp only [layout] at hlength
    omega
  have hblockSize : (raws.flatMap RawToken.encode).length < 2 ^ 32 := by
    have hlength := length_blobBytes (calls.filterMap Call.reservation)
      (raws.flatMap RawToken.encode ++ toBeBytes 4 fdtEnd) (FdtBuilder.run calls).strings
    simp only [layout, List.length_append] at hlength
    omega
  have hkept := hbuilt.kept hstrings
  refine ⟨_, parseDtb_blobBytes hentries (fits_of_stands hbuilt.offsets hstands hnames hblockSize)
    (mapM_resolve hkept hstands hnames) hforest hsize, rfl, rfl, ?_, ?_, ?_⟩
  · exact placed_aligned (by simp only [headerLen]; omega) raws
  · rw [length_blobBytes]
    exact layout_partitions _ _ _
  · intro i j name name' value value' hi hj
    obtain ⟨place, off, hplace, hoff⟩ := prop_place hstands (headerLen + 16 * _) hi
    obtain ⟨place', off', hplace', hoff'⟩ := prop_place hstands (headerLen + 16 * _) hj
    refine ⟨place, place', off, off', hplace, hplace', fun hsame => ?_, fun hsame => ?_⟩
    · -- one place of the strings block has one string
      have hstring := (hkept _ _ hoff).cstring (hnames _ (List.mem_of_getElem? hi))
      have hstring' := (hkept _ _ hoff').cstring (hnames _ (List.mem_of_getElem? hj))
      rw [hsame, hstring'] at hstring
      exact (Option.some.inj hstring).symm
    · rw [hsame, hoff'] at hoff
      exact (Option.some.inj hoff).symm

/-- A root with two properties and a child that has a property of the same name, behind a reservation. -/
theorem device_tree_round_trip_root :
    ∃ blob dtb, (FdtBuilder.run [.reserveMemory 4096 8, .beginNode [], .propU32 [114] 1, .propStr [115] [97],
        .beginNode [99], .propEmpty [114], .endNode, .endNode]).finish = some blob ∧
      parseDtb blob = some dtb ∧ dtb.reservations = [(4096, 8)] ∧ dtb.header.Partitions 1 148 := by
  obtain ⟨blob, forest, hfinish, -, hparse⟩ := device_tree_round_trip [.reserveMemory 4096 8, .beginNode [],
    .propU32 [114] 1, .propStr [115] [97], .beginNode [99], .propEmpty [114], .endNode, .endNode] rfl (by decide)
    (fun entry hentry => by obtain rfl : entry = (4096, 8) := List.mem_singleton.mp hentry; decide)
  have hlength : (FdtBuilder.run [.reserveMemory 4096 8, .beginNode [], .propU32 [114] 1, .propStr [115] [97],
      .beginNode [99], .propEmpty [114], .endNode, .endNode]).finish.map List.length = some 148 := by decide +kernel
  rw [hfinish] at hlength
  have hsize : blob.length = 148 := Option.some.inj hlength
  obtain ⟨dtb, hdtb, -, hreservations, -, hpartitions, -⟩ := hparse (by omega)
  rw [hsize, hreservations] at hpartitions
  exact ⟨blob, dtb, hfinish, hdtb, hreservations, hpartitions⟩

end BridgeVm.Fdt
