import BridgeVm.Fdt.Builder

/-!
# What the builder of device trees leaves (`dtb.rs`)

The structure block is the encoding of tokens that resolve to those of the calls (`Built`). Balanced calls spell one
forest.
-/

namespace BridgeVm.Fdt

open Lib

/-! ## Trees -/

section Trees

theorem forestTokens_append (xs ys : List Node) : forestTokens (xs ++ ys) = forestTokens xs ++ forestTokens ys := by
  induction xs with
  | nil => rfl
  | cons x xs ih =>
    rw [List.cons_append]
    simp only [forestTokens]
    rw [ih, List.append_assoc]

/-- The tokens of an open node so far. -/
def Frame.tokens (f : Frame) : List Token :=
  .beginNode f.name :: f.props.map (fun p => .prop p.1 p.2) ++ forestTokens f.children

/-- The tokens of the open nodes, the outermost first. -/
def stackTokens : List Frame → List Token
  | [] => []
  | f :: stack => stackTokens stack ++ f.tokens

theorem Frame.node_tokens (f : Frame) : f.node.tokens = f.tokens ++ [.endNode] := by
  rw [Frame.node, Frame.tokens]
  simp only [Node.tokens]

theorem Frame.add_child (g : Frame) (node : Node) :
    Frame.tokens { g with children := g.children ++ [node] } = g.tokens ++ node.tokens := by
  unfold Frame.tokens
  rw [forestTokens_append]
  simp only [forestTokens, List.append_nil, List.append_assoc, List.cons_append]

theorem Frame.add_prop (f : Frame) (name value : List UInt8) (h : f.children = []) :
    Frame.tokens { f with props := f.props ++ [(name, value)] } = f.tokens ++ [.prop name value] := by
  unfold Frame.tokens
  rw [h]
  simp [forestTokens]

/-- The nodes that tokens spell are spelled by them. -/
theorem assemble_spells {stack : List Frame} {nodes result : List Node} {tokens : List Token}
    (h : assemble stack nodes tokens = some result) :
    forestTokens nodes ++ stackTokens stack ++ tokens = forestTokens result := by
  fun_induction assemble stack nodes tokens with
  | case1 nodes =>
    rw [Option.some.inj h]
    simp [stackTokens]
  | case2 => cases h
  | case3 stack nodes name tokens ih =>
    rw [← ih h]
    simp [stackTokens, Frame.tokens, forestTokens]
  | case4 => cases h
  | case5 f stack nodes name value tokens hempty ih =>
    rw [← ih h]
    simp only [stackTokens]
    rw [Frame.add_prop _ _ _ (List.isEmpty_iff.1 hempty)]
    simp
  | case6 => cases h
  | case7 => cases h
  | case8 f nodes tokens ih =>
    rw [← ih h, forestTokens_append]
    simp [stackTokens, forestTokens, Frame.node_tokens]
  | case9 f g stack nodes tokens ih =>
    rw [← ih h]
    simp only [stackTokens]
    rw [Frame.add_child, Frame.node_tokens]
    simp

/-- What balance knows of open nodes: the innermost may have no child yet, the others have the one inside. -/
def openChildren : List Frame → List Bool
  | [] => []
  | f :: stack => (!f.children.isEmpty) :: stack.map fun _ => true

/-- Balanced tokens spell nodes. -/
theorem assemble_balanced {stack : List Frame} (nodes : List Node) {tokens : List Token}
    (h : balancedFrom (openChildren stack) tokens = true) : ∃ result, assemble stack nodes tokens = some result := by
  fun_induction assemble stack nodes tokens with
  | case1 nodes => exact ⟨nodes, rfl⟩
  | case2 => simp [openChildren, balancedFrom] at h
  | case3 stack nodes name tokens ih =>
    refine ih ?_
    cases stack with
    | nil => exact h
    | cons f stack => exact h
  | case4 => simp [openChildren, balancedFrom] at h
  | case5 f stack nodes name value tokens hempty ih =>
    refine ih ?_
    simp only [openChildren, hempty, Bool.not_true, balancedFrom] at h ⊢
    exact h
  | case6 f stack nodes name value tokens hchildren => simp [openChildren, balancedFrom, hchildren] at h
  | case7 => simp [openChildren, balancedFrom] at h
  | case8 f nodes tokens ih => exact ih (by simpa [openChildren, balancedFrom] using h)
  | case9 f g stack nodes tokens ih =>
    -- the child that is closed here is the one that balance already counts for `g`
    have hchild : (g.children ++ [f.node]).isEmpty = false := by simp
    refine ih ?_
    simp only [openChildren, hchild]
    simpa [openChildren, balancedFrom] using h

/-- A node, below the innermost open one. -/
def addNode : List Frame → List Node → Node → List Frame × List Node
  | [], nodes, node => ([], nodes ++ [node])
  | f :: stack, nodes, node => ({ f with children := f.children ++ [node] } :: stack, nodes)

theorem assemble_endNode (f : Frame) (stack : List Frame) (nodes : List Node) (tokens : List Token) :
    assemble (f :: stack) nodes (.endNode :: tokens) =
      assemble (addNode stack nodes f.node).1 (addNode stack nodes f.node).2 tokens := by
  cases stack with
  | nil => rfl
  | cons g stack => rfl

theorem assemble_props (name : List UInt8) (old : List (List UInt8 × List UInt8)) (stack : List Frame)
    (nodes : List Node) (props : List (List UInt8 × List UInt8)) (tokens : List Token) :
    assemble (⟨name, old, []⟩ :: stack) nodes (props.map (fun p => .prop p.1 p.2) ++ tokens) =
      assemble (⟨name, old ++ props, []⟩ :: stack) nodes tokens := by
  induction props generalizing old with
  | nil => rw [List.append_nil, List.map_nil, List.nil_append]
  | cons p props ih =>
    have hprop := ih (old ++ [p])
    rw [List.append_assoc, List.singleton_append] at hprop
    exact hprop

mutual

theorem assemble_node : ∀ (node : Node) (stack : List Frame) (nodes : List Node) (tokens : List Token),
    assemble stack nodes (node.tokens ++ tokens) =
      assemble (addNode stack nodes node).1 (addNode stack nodes node).2 tokens
  | .mk name props children, stack, nodes, tokens => by
    have hopen : assemble stack nodes (Node.tokens (.mk name props children) ++ tokens) =
        assemble (⟨name, [], []⟩ :: stack) nodes
          (props.map (fun p => .prop p.1 p.2) ++ (forestTokens children ++ .endNode :: tokens)) := by
      simp only [Node.tokens, List.cons_append, List.append_assoc, List.nil_append]
      cases stack with
      | nil => rfl
      | cons f stack => rfl
    rw [hopen, assemble_props, assemble_children children, assemble_endNode]
    rfl

theorem assemble_children : ∀ (children : List Node) (f : Frame) (stack : List Frame) (nodes : List Node)
    (tokens : List Token), assemble (f :: stack) nodes (forestTokens children ++ tokens) =
      assemble ({ f with children := f.children ++ children } :: stack) nodes tokens
  | [], f, stack, nodes, tokens => by
    rw [forestTokens, List.append_nil, List.nil_append]
  | node :: children, f, stack, nodes, tokens => by
    rw [forestTokens, List.append_assoc, assemble_node node]
    dsimp only [addNode]
    rw [assemble_children children]
    simp only [List.append_assoc, List.singleton_append]

end

theorem assemble_forest (forest nodes : List Node) :
    assemble [] nodes (forestTokens forest) = some (nodes ++ forest) := by
  induction forest generalizing nodes with
  | nil => rw [forestTokens, assemble, List.append_nil]
  | cons node forest ih =>
    rw [forestTokens, assemble_node]
    dsimp only [addNode]
    rw [ih, List.append_assoc, List.singleton_append]

theorem forestTokens_inj {xs ys : List Node} (h : forestTokens xs = forestTokens ys) : xs = ys := by
  have hxs := assemble_forest xs []
  rw [h, assemble_forest] at hxs
  exact (Option.some.inj hxs).symm

end Trees

/-! ## Tokens and their bytes -/

section Tokens

/-- The bytes of a token. -/
def RawToken.encode : RawToken → List UInt8
  | .beginNode name => padTo4 (toBeBytes 4 fdtBeginNode ++ name ++ [0])
  | .endNode => toBeBytes 4 fdtEndNode
  | .prop nameoff value =>
    padTo4 (toBeBytes 4 fdtProp ++ toBeBytes 4 value.length ++ toBeBytes 4 nameoff ++ value)

/-- A name without NUL, or numbers of 32 bits. -/
def RawToken.Fits : RawToken → Prop
  | .beginNode name => 0 ∉ name
  | .endNode => True
  | .prop nameoff value => nameoff < 2 ^ 32 ∧ value.length < 2 ^ 32

/-- Tokens with their places, from the first one's on. -/
def placed (pos : Nat) : List RawToken → List (Nat × RawToken)
  | [] => []
  | raw :: raws => (pos, raw) :: placed (pos + raw.encode.length) raws

theorem map_snd_placed (pos : Nat) (raws : List RawToken) : (placed pos raws).map Prod.snd = raws := by
  induction raws generalizing pos with
  | nil => rfl
  | cons raw raws ih => rw [placed, List.map_cons, ih]

theorem length_padTo4 (v : List UInt8) : (padTo4 v).length = roundUp4 v.length := by
  rw [padTo4, List.length_append, List.length_replicate, roundUp4]
  omega

theorem padTo4_append {xs : List UInt8} (h : xs.length % 4 = 0) (ys : List UInt8) :
    padTo4 (xs ++ ys) = xs ++ padTo4 ys := by
  have hmod : (xs.length + ys.length) % 4 = ys.length % 4 := by omega
  rw [padTo4, padTo4, List.length_append, hmod, List.append_assoc]

theorem roundUp4_mod (n : Nat) : roundUp4 n % 4 = 0 := by
  rw [roundUp4]
  omega

theorem le_roundUp4 (n : Nat) : n ≤ roundUp4 n := by
  rw [roundUp4]
  omega

theorem RawToken.encode_words (raw : RawToken) : raw.encode.length % 4 = 0 ∧ 4 ≤ raw.encode.length := by
  cases raw with
  | beginNode name =>
    have hle := le_roundUp4 (toBeBytes 4 fdtBeginNode ++ name ++ [0]).length
    rw [RawToken.encode, length_padTo4]
    refine ⟨roundUp4_mod _, Nat.le_trans ?_ hle⟩
    simp only [List.length_append, length_toBeBytes]
    omega
  | endNode =>
    rw [RawToken.encode, length_toBeBytes]
    decide
  | prop nameoff value =>
    have hle := le_roundUp4
      (toBeBytes 4 fdtProp ++ toBeBytes 4 value.length ++ toBeBytes 4 nameoff ++ value).length
    rw [RawToken.encode, length_padTo4]
    refine ⟨roundUp4_mod _, Nat.le_trans ?_ hle⟩
    simp only [List.length_append, length_toBeBytes]
    omega

theorem placed_aligned {pos : Nat} (h : pos % 4 = 0) (raws : List RawToken) :
    ∀ token ∈ placed pos raws, token.1 % 4 = 0 := by
  induction raws generalizing pos with
  | nil => intro token htoken; cases htoken
  | cons raw raws ih =>
    have hwords := raw.encode_words.1
    intro token htoken
    rcases List.mem_cons.1 htoken with rfl | htoken
    · exact h
    · exact ih (by omega) token htoken

theorem be32_head {v : Nat} (hv : v < 2 ^ 32) (rest : List UInt8) : be32 (toBeBytes 4 v ++ rest) 0 = some v := by
  have hfits : 0 + 4 ≤ (toBeBytes 4 v ++ rest).length := by
    rw [List.length_append, length_toBeBytes]
    omega
  rw [be32, if_pos hfits, slice_head (length_toBeBytes 4 v), ofBeBytes_toBeBytes, Nat.mod_eq_of_lt (by omega)]

theorem be32_skip {xs : List UInt8} {n : Nat} (h : xs.length = n) (ys : List UInt8) :
    be32 (xs ++ ys) n = be32 ys 0 := by
  have hlen : n + 4 ≤ (xs ++ ys).length ↔ 0 + 4 ≤ ys.length := by
    rw [List.length_append]
    omega
  rw [be32, be32, slice_skip (by omega), if_congr hlen rfl rfl, h, Nat.sub_self]

theorem cstring_append {name : List UInt8} (h : 0 ∉ name) (rest : List UInt8) :
    cstring (name ++ 0 :: rest) = some name := by
  have hne : ∀ b ∈ name, (b != 0) = true := by
    intro b hb
    rw [bne_iff_ne]
    intro hzero
    exact h (hzero ▸ hb)
  rw [cstring, if_pos (by simp), List.takeWhile_append_of_pos hne]
  simp

theorem readTokens_beginNode {pos : Nat} (hpos : pos % 4 = 0) (fuel : Nat) {bytes name : List UInt8}
    (htag : be32 bytes 0 = some fdtBeginNode) (hname : cstring (bytes.drop 4) = some name) :
    readTokens (fuel + 1) pos bytes =
      (readTokens fuel (pos + roundUp4 (4 + name.length + 1)) (bytes.drop (roundUp4 (4 + name.length + 1)))).map
        fun tokens => (pos, .beginNode name) :: tokens := by
  rw [readTokens, if_neg (by omega), htag, Option.bind_some, if_neg (by decide), if_neg (by decide),
    if_neg (by decide), if_pos rfl, hname, Option.bind_some]

theorem readTokens_endNode {pos : Nat} (hpos : pos % 4 = 0) (fuel : Nat) {bytes : List UInt8}
    (htag : be32 bytes 0 = some fdtEndNode) :
    readTokens (fuel + 1) pos bytes =
      (readTokens fuel (pos + 4) (bytes.drop 4)).map fun tokens => (pos, .endNode) :: tokens := by
  rw [readTokens, if_neg (by omega), htag, Option.bind_some, if_neg (by decide), if_neg (by decide), if_pos rfl]

theorem readTokens_prop {pos : Nat} (hpos : pos % 4 = 0) (fuel : Nat) {bytes : List UInt8} {len nameoff : Nat}
    (htag : be32 bytes 0 = some fdtProp) (hlen : be32 bytes 4 = some len) (hoff : be32 bytes 8 = some nameoff)
    (hfits : 12 + len ≤ bytes.length) :
    readTokens (fuel + 1) pos bytes =
      (readTokens fuel (pos + roundUp4 (12 + len)) (bytes.drop (roundUp4 (12 + len)))).map
        fun tokens => (pos, .prop nameoff (slice bytes 12 len)) :: tokens := by
  rw [readTokens, if_neg (by omega), htag, Option.bind_some, if_neg (by decide), if_neg (by decide),
    if_neg (by decide), if_neg (by decide), if_pos rfl, hlen, Option.bind_some, hoff, Option.bind_some,
    if_neg (by omega)]

/-- What follows a token is read from its end on. -/
theorem readTokens_token {raw : RawToken} (hfits : raw.Fits) {pos : Nat} (hpos : pos % 4 = 0) (fuel : Nat)
    (rest : List UInt8) :
    readTokens (fuel + 1) pos (raw.encode ++ rest) =
      (readTokens fuel (pos + raw.encode.length) rest).map fun tokens => (pos, raw) :: tokens := by
  cases raw with
  | beginNode name =>
    obtain ⟨pad, hencode⟩ : ∃ pad, RawToken.encode (.beginNode name) =
        toBeBytes 4 fdtBeginNode ++ (name ++ 0 :: pad) :=
      ⟨List.replicate _ 0, by
        simp only [RawToken.encode, padTo4, List.append_assoc, List.cons_append, List.nil_append]
        rfl⟩
    have hlen : roundUp4 (4 + name.length + 1) = (RawToken.encode (.beginNode name)).length := by
      rw [RawToken.encode, length_padTo4]
      simp only [List.length_append, length_toBeBytes, List.length_singleton]
    have htag : be32 (RawToken.encode (.beginNode name) ++ rest) 0 = some fdtBeginNode := by
      rw [hencode, List.append_assoc, be32_head (by decide)]
    have hname : cstring ((RawToken.encode (.beginNode name) ++ rest).drop 4) = some name := by
      rw [hencode, List.append_assoc, List.drop_left' (length_toBeBytes 4 _), List.append_assoc, List.cons_append,
        cstring_append hfits]
    rw [readTokens_beginNode hpos fuel htag hname, hlen, List.drop_left]
  | endNode =>
    have htag : be32 (RawToken.encode .endNode ++ rest) 0 = some fdtEndNode := be32_head (by decide) rest
    rw [readTokens_endNode hpos fuel htag, RawToken.encode, List.drop_left' (length_toBeBytes 4 _), length_toBeBytes]
  | prop nameoff value =>
    obtain ⟨pad, hencode⟩ : ∃ pad, RawToken.encode (.prop nameoff value) =
        toBeBytes 4 fdtProp ++ (toBeBytes 4 value.length ++ (toBeBytes 4 nameoff ++ (value ++ pad))) :=
      ⟨List.replicate _ 0, by
        simp only [RawToken.encode, padTo4, List.append_assoc]
        rfl⟩
    have hlen : roundUp4 (12 + value.length) = (RawToken.encode (.prop nameoff value)).length := by
      rw [RawToken.encode, length_padTo4]
      simp only [List.length_append, length_toBeBytes]
    have htag : be32 (RawToken.encode (.prop nameoff value) ++ rest) 0 = some fdtProp := by
      rw [hencode, List.append_assoc, be32_head (by decide)]
    have hvalue : be32 (RawToken.encode (.prop nameoff value) ++ rest) 4 = some value.length := by
      rw [hencode, List.append_assoc, be32_skip (length_toBeBytes 4 _), List.append_assoc, be32_head hfits.2]
    have hoff : be32 (RawToken.encode (.prop nameoff value) ++ rest) 8 = some nameoff := by
      rw [hencode, ← List.append_assoc (toBeBytes 4 fdtProp), List.append_assoc,
        be32_skip (by rw [List.length_append, length_toBeBytes, length_toBeBytes]), List.append_assoc,
        be32_head hfits.1]
    have hbytes : slice (RawToken.encode (.prop nameoff value) ++ rest) 12 value.length = value := by
      rw [hencode, ← List.append_assoc (toBeBytes 4 value.length), ← List.append_assoc (toBeBytes 4 fdtProp),
        List.append_assoc, slice_skip (by simp only [List.length_append, length_toBeBytes]; omega), List.append_assoc]
      simp only [List.length_append, length_toBeBytes]
      exact slice_head rfl
    have hroom : 12 + value.length ≤ (RawToken.encode (.prop nameoff value) ++ rest).length := by
      have hle := le_roundUp4 (12 + value.length)
      rw [List.length_append]
      omega
    rw [readTokens_prop hpos fuel htag hvalue hoff hroom, hbytes, hlen, List.drop_left]

theorem readTokens_encoded {raws : List RawToken} (hfits : ∀ raw ∈ raws, raw.Fits) {pos fuel : Nat}
    (hpos : pos % 4 = 0) (hfuel : raws.length < fuel) :
    readTokens fuel pos (raws.flatMap RawToken.encode ++ toBeBytes 4 fdtEnd) = some (placed pos raws) := by
  induction raws generalizing pos fuel with
  | nil =>
    obtain ⟨fuel, rfl⟩ : ∃ n, fuel = n + 1 := ⟨fuel - 1, by omega⟩
    have htag : be32 (toBeBytes 4 fdtEnd) 0 = some fdtEnd := by decide
    rw [List.flatMap_nil, List.nil_append, readTokens, if_neg (by omega), htag, Option.bind_some, if_pos rfl,
      if_pos (length_toBeBytes 4 _)]
    rfl
  | cons raw raws ih =>
    obtain ⟨fuel, rfl⟩ : ∃ n, fuel = n + 1 := ⟨fuel - 1, by omega⟩
    have hwords := raw.encode_words.1
    rw [List.length_cons] at hfuel
    rw [List.flatMap_cons, List.append_assoc, readTokens_token (hfits raw (by simp)) hpos,
      ih (fun raw hraw => hfits raw (by simp [hraw])) (by omega) (by omega)]
    rfl

theorem length_le_encoded (raws : List RawToken) : raws.length ≤ (raws.flatMap RawToken.encode).length := by
  induction raws with
  | nil => simp
  | cons raw raws ih =>
    have hwords := raw.encode_words.2
    rw [List.flatMap_cons, List.length_append, List.length_cons]
    omega

end Tokens

/-! ## What the builder leaves -/

section Builder

/-- A token of the structure block is a token of the tree, with the offsets of the names kept. -/
def Stands (offsets : AssocMap (List UInt8) Nat) : RawToken → Token → Prop
  | .beginNode name, .beginNode name' => name = name'
  | .endNode, .endNode => True
  | .prop nameoff value, .prop name value' => offsets.get name = some nameoff ∧ value = value'
  | _, _ => False

/-- A name and its NUL, from a place in the strings block on. -/
def NameAt (strings : List UInt8) (off : Nat) (name : List UInt8) : Prop :=
  ∃ before after, strings = before ++ (name ++ 0 :: after) ∧ before.length = off

/-- How a token changes the depth. -/
def Token.nesting : Token → Int
  | .beginNode _ => 1
  | .endNode => -1
  | .prop _ _ => 0

/-- A builder after calls with these tokens and reservations. -/
structure Built (b : FdtBuilder) (tokens : List Token) (reservations : List (UInt64 × UInt64)) : Prop where
  block : ∃ raws, b.structBlock = raws.flatMap RawToken.encode ∧ List.Forall₂ (Stands b.stringOffsets) raws tokens
  offsets : ∀ name off, b.stringOffsets.get name = some off → off < 2 ^ 32
  kept : b.strings.length < 2 ^ 32 → ∀ name off, b.stringOffsets.get name = some off → NameAt b.strings off name
  reserved : b.memRsv = reservations
  nested : b.depth = (tokens.map Token.nesting).sum

theorem NameAt.append {strings : List UInt8} {off : Nat} {name : List UInt8} (h : NameAt strings off name)
    (more : List UInt8) : NameAt (strings ++ more) off name := by
  obtain ⟨before, after, hstrings, hlen⟩ := h
  exact ⟨before, after ++ more, by rw [hstrings]; simp, hlen⟩

theorem NameAt.cstring {strings : List UInt8} {off : Nat} {name : List UInt8} (h : NameAt strings off name)
    (hname : 0 ∉ name) : cstring (strings.drop off) = some name := by
  obtain ⟨before, after, hstrings, hlen⟩ := h
  rw [hstrings, List.drop_left' hlen, cstring_append hname]

theorem Stands.mono {offsets offsets' : AssocMap (List UInt8) Nat}
    (h : ∀ name off, offsets.get name = some off → offsets'.get name = some off) {raw : RawToken} {token : Token}
    (hstands : Stands offsets raw token) : Stands offsets' raw token := by
  cases raw with
  | beginNode name =>
    cases token with
    | beginNode name' => exact hstands
    | endNode => exact hstands
    | prop name' value => exact hstands
  | endNode =>
    cases token with
    | beginNode name' => exact hstands
    | endNode => exact hstands
    | prop name' value => exact hstands
  | prop nameoff value =>
    cases token with
    | beginNode name' => exact hstands
    | endNode => exact hstands
    | prop name' value' => exact ⟨h _ _ hstands.1, hstands.2⟩

namespace Built

variable {b : FdtBuilder} {tokens : List Token} {reservations : List (UInt64 × UInt64)}

theorem new : Built .new [] [] where
  block := ⟨[], rfl, .nil⟩
  offsets := by
    intro name off h
    cases h
  kept := by
    intro hlen name off h
    cases h
  reserved := rfl
  nested := rfl

theorem words (h : Built b tokens reservations) : b.structBlock.length % 4 = 0 := by
  obtain ⟨raws, hblock, -⟩ := h.block
  rw [hblock]
  clear hblock
  induction raws with
  | nil => rfl
  | cons raw raws ih =>
    have hwords := raw.encode_words.1
    rw [List.flatMap_cons, List.length_append]
    omega

theorem reserveMemory (h : Built b tokens reservations) (address size : UInt64) :
    Built (b.reserveMemory address size) tokens (reservations ++ [(address, size)]) where
  block := h.block
  offsets := h.offsets
  kept := h.kept
  reserved := by rw [FdtBuilder.reserveMemory, h.reserved]
  nested := h.nested

theorem push (h : Built b tokens reservations) (raw : RawToken) {token : Token} {structBlock : List UInt8} {depth : Int}
    (hblock : structBlock = b.structBlock ++ raw.encode) (hstands : Stands b.stringOffsets raw token)
    (hdepth : depth = b.depth + token.nesting) :
    Built { b with structBlock := structBlock, depth := depth } (tokens ++ [token]) reservations where
  block := by
    obtain ⟨raws, hraws, hall⟩ := h.block
    refine ⟨raws ++ [raw], ?_, List.rel_append hall (.cons hstands .nil)⟩
    simp only [hblock, hraws, List.flatMap_append, List.flatMap_cons, List.flatMap_nil, List.append_nil]
  offsets := h.offsets
  kept := h.kept
  reserved := h.reserved
  nested := by simp [hdepth, h.nested]

theorem beginNode (h : Built b tokens reservations) (name : List UInt8) :
    Built (b.beginNode name) (tokens ++ [.beginNode name]) reservations := by
  refine h.push (.beginNode name) ?_ rfl rfl
  rw [RawToken.encode, ← padTo4_append h.words]
  simp only [List.append_assoc]

theorem endNode (h : Built b tokens reservations) : Built b.endNode (tokens ++ [.endNode]) reservations :=
  h.push .endNode rfl trivial rfl

/-- A name has an offset, and the others keep theirs. -/
theorem intern (h : Built b tokens reservations) (name : List UInt8) :
    Built (b.intern name).1 tokens reservations ∧
      (b.intern name).1.stringOffsets.get name = some (b.intern name).2 := by
  cases hget : b.stringOffsets.get name with
  | some off =>
    have hintern : b.intern name = (b, off) := by rw [FdtBuilder.intern, hget]
    rw [hintern]
    exact ⟨h, hget⟩
  | none =>
    have hold : ∀ name' off, b.stringOffsets.get name' = some off →
        (b.stringOffsets.insert name (b.strings.length % 2 ^ 32)).get name' = some off := by
      intro name' off hoff
      have hne : name' ≠ name := by
        rintro rfl
        rw [hget] at hoff
        cases hoff
      rw [AssocMap.get_insert, if_neg hne, hoff]
    have hintern : b.intern name = ({ b with
        strings := b.strings ++ name ++ [0]
        stringOffsets := b.stringOffsets.insert name (b.strings.length % 2 ^ 32) }, b.strings.length % 2 ^ 32) := by
      rw [FdtBuilder.intern, hget]
    rw [hintern]
    refine ⟨⟨?_, ?_, ?_, h.reserved, h.nested⟩, by rw [AssocMap.get_insert, if_pos rfl]⟩
    · obtain ⟨raws, hraws, hall⟩ := h.block
      exact ⟨raws, hraws, hall.imp fun raw token => Stands.mono hold⟩
    · intro name' off hoff
      dsimp only at hoff
      rw [AssocMap.get_insert] at hoff
      by_cases heq : name' = name
      · rw [if_pos heq] at hoff
        have hoff := Option.some.inj hoff
        omega
      · rw [if_neg heq] at hoff
        exact h.offsets name' off hoff
    · intro hlen name' off hoff
      dsimp only at hlen hoff ⊢
      rw [List.append_assoc, List.length_append] at hlen
      rw [AssocMap.get_insert] at hoff
      by_cases heq : name' = name
      · rw [if_pos heq] at hoff
        have hoff := Option.some.inj hoff
        rw [Nat.mod_eq_of_lt (by omega)] at hoff
        exact ⟨b.strings, [], by rw [heq, List.append_assoc], hoff⟩
      · rw [if_neg heq] at hoff
        rw [List.append_assoc]
        exact (h.kept (by omega) name' off hoff).append _

theorem propBytes (h : Built b tokens reservations) (name value : List UInt8) :
    Built (b.propBytes name value) (tokens ++ [.prop name value]) reservations := by
  obtain ⟨hbuilt, hoff⟩ := h.intern name
  refine hbuilt.push (.prop (b.intern name).2 value) ?_ ⟨hoff, rfl⟩ (Int.add_zero _).symm
  show padTo4 ((b.intern name).1.structBlock ++ toBeBytes 4 fdtProp ++ toBeBytes 4 value.length ++
    toBeBytes 4 (b.intern name).2 ++ value) = _
  rw [RawToken.encode, ← padTo4_append hbuilt.words]
  simp only [List.append_assoc]

theorem cellsValue_reg64 (base size : UInt64) :
    FdtBuilder.cellsValue [(base >>> 32).toUInt32, base.toUInt32, (size >>> 32).toUInt32, size.toUInt32] =
      toBeBytes 8 base.toNat ++ toBeBytes 8 size.toNat := by
  have hcells (v : UInt64) :
      toBeBytes 8 v.toNat = toBeBytes 4 (v >>> 32).toUInt32.toNat ++ toBeBytes 4 v.toUInt32.toNat := by
    have hhigh : (v >>> 32).toUInt32.toNat = v.toNat / 256 ^ 4 % 256 ^ 4 := by
      rw [UInt64.toNat_toUInt32, UInt64.toNat_shiftRight]
      simp [Nat.shiftRight_eq_div_pow]
    have hlow : v.toUInt32.toNat = v.toNat % 256 ^ 4 := UInt64.toNat_toUInt32 v
    rw [hhigh, hlow, toBeBytes_mod, toBeBytes_mod, ← toBeBytes_add]
  rw [hcells, hcells]
  simp [FdtBuilder.cellsValue]

/-- A call adds its token and its reservation. -/
theorem call (h : Built b tokens reservations) (c : Call) :
    Built (b.call c) (tokens ++ c.token.toList) (reservations ++ c.reservation.toList) := by
  have hadd {next : FdtBuilder} {token : Token} {c : Call} (htoken : c.token = some token)
      (hreservation : c.reservation = none) (hnext : Built next (tokens ++ [token]) reservations) :
      Built next (tokens ++ c.token.toList) (reservations ++ c.reservation.toList) := by
    rw [htoken, hreservation, Option.toList_some, Option.toList_none, List.append_nil]
    exact hnext
  cases c with
  | reserveMemory address size =>
    rw [Call.token, Option.toList_none, List.append_nil]
    exact h.reserveMemory address size
  | beginNode name => exact hadd rfl rfl (h.beginNode name)
  | endNode => exact hadd rfl rfl h.endNode
  | propReg64 name base size =>
    refine hadd rfl rfl ?_
    rw [← cellsValue_reg64]
    exact h.propBytes name _
  | propBytes name value => exact hadd rfl rfl (h.propBytes name value)
  | propEmpty name => exact hadd rfl rfl (h.propBytes name [])
  | propU32 name value => exact hadd rfl rfl (h.propBytes name _)
  | propCells name cells => exact hadd rfl rfl (h.propBytes name _)
  | propStr name value => exact hadd rfl rfl (h.propBytes name _)
  | propStrList name values => exact hadd rfl rfl (h.propBytes name _)

theorem run (calls : List Call) :
    Built (.run calls) (calls.filterMap Call.token) (calls.filterMap Call.reservation) := by
  have hfold (calls : List Call) (b : FdtBuilder) (tokens : List Token) (reservations : List (UInt64 × UInt64))
      (h : Built b tokens reservations) :
      Built (calls.foldl FdtBuilder.call b) (tokens ++ calls.filterMap Call.token)
        (reservations ++ calls.filterMap Call.reservation) := by
    induction calls generalizing b tokens reservations with
    | nil =>
      rw [List.filterMap_nil, List.filterMap_nil, List.append_nil, List.append_nil]
      exact h
    | cons c calls ih =>
      have hnext := ih _ _ _ (h.call c)
      rw [List.append_assoc, List.append_assoc] at hnext
      rw [List.foldl_cons]
      cases htoken : c.token <;> cases hreservation : c.reservation <;>
        simpa [List.filterMap_cons, htoken, hreservation] using hnext
  exact hfold calls .new [] [] .new

end Built

end Builder

end BridgeVm.Fdt
