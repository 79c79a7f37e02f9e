import BridgeVm.Lib.AssocMap
import BridgeVm.Lib.BigEndian
import BridgeVm.Lib.Splice

/-!
# Flattened device trees (`dtb.rs`)

The builder appends big-endian tokens to a structure block, keeps each property name once in a strings block, and puts a
header in front. `parseDtb` reads the format, version 17, on its own terms: the header, the reservations up to the null
one, aligned tokens up to the end of the structure block, and the tree that they spell.
-/

namespace BridgeVm.Fdt

open Lib

/-- `FDT_MAGIC`. -/
def fdtMagic : Nat := 0xd00dfeed

/-- `FDT_VERSION`. -/
def fdtVersion : Nat := 17

/-- `FDT_LAST_COMP_VERSION`. -/
def fdtLastCompVersion : Nat := 16

def fdtBeginNode : Nat := 0x1

def fdtEndNode : Nat := 0x2

def fdtProp : Nat := 0x3

def fdtNop : Nat := 0x4

def fdtEnd : Nat := 0x9

/-- `HEADER_LEN`. -/
def headerLen : Nat := 40

/-! ## The builder -/

/-- The names of nodes and properties are the bytes of strings; the depth is an `i32`. -/
structure FdtBuilder where
  structBlock : List UInt8
  strings : List UInt8
  stringOffsets : AssocMap (List UInt8) Nat
  memRsv : List (UInt64 × UInt64)
  depth : Int

/-- `pad_to_4`. -/
def padTo4 (v : List UInt8) : List UInt8 := v ++ List.replicate ((4 - v.length % 4) % 4) 0

namespace FdtBuilder

def new : FdtBuilder := ⟨[], [], .empty, [], 0⟩

def reserveMemory (b : FdtBuilder) (address size : UInt64) : FdtBuilder :=
  { b with memRsv := b.memRsv ++ [(address, size)] }

def beginNode (b : FdtBuilder) (name : List UInt8) : FdtBuilder :=
  { b with
    structBlock := padTo4 (b.structBlock ++ toBeBytes 4 fdtBeginNode ++ name ++ [0])
    depth := b.depth + 1 }

def endNode (b : FdtBuilder) : FdtBuilder :=
  { b with structBlock := b.structBlock ++ toBeBytes 4 fdtEndNode, depth := b.depth - 1 }

/-- `intern`: offsets are 32 bits wide. -/
def intern (b : FdtBuilder) (name : List UInt8) : FdtBuilder × Nat :=
  match b.stringOffsets.get name with
  | some off => (b, off)
  | none =>
    let off := b.strings.length % 2 ^ 32
    ({ b with strings := b.strings ++ name ++ [0], stringOffsets := b.stringOffsets.insert name off }, off)

def propBytes (b : FdtBuilder) (name value : List UInt8) : FdtBuilder :=
  let (b, nameoff) := b.intern name
  { b with structBlock := padTo4 (b.structBlock ++ toBeBytes 4 fdtProp ++ toBeBytes 4 value.length ++
      toBeBytes 4 nameoff ++ value) }

def propEmpty (b : FdtBuilder) (name : List UInt8) : FdtBuilder := b.propBytes name []

def propU32 (b : FdtBuilder) (name : List UInt8) (value : UInt32) : FdtBuilder :=
  b.propBytes name (toBeBytes 4 value.toNat)

/-- The value of a list of cells. -/
def cellsValue (cells : List UInt32) : List UInt8 := cells.flatMap fun c => toBeBytes 4 c.toNat

def propCells (b : FdtBuilder) (name : List UInt8) (cells : List UInt32) : FdtBuilder :=
  b.propBytes name (cellsValue cells)

def propReg64 (b : FdtBuilder) (name : List UInt8) (base size : UInt64) : FdtBuilder :=
  b.propCells name [(base >>> 32).toUInt32, base.toUInt32, (size >>> 32).toUInt32, size.toUInt32]

def propStr (b : FdtBuilder) (name value : List UInt8) : FdtBuilder := b.propBytes name (value ++ [0])

/-- The value of a list of strings. -/
def strListValue (values : List (List UInt8)) : List UInt8 := values.flatMap fun v => v ++ [0]

def propStrList (b : FdtBuilder) (name : List UInt8) (values : List (List UInt8)) : FdtBuilder :=
  b.propBytes name (strListValue values)

/-- A reservation in the blob. -/
def encodeReservation (entry : UInt64 × UInt64) : List UInt8 :=
  toBeBytes 8 entry.1.toNat ++ toBeBytes 8 entry.2.toNat

/-- `finish`: `none` when nodes are open. -/
def finish (b : FdtBuilder) : Option (List UInt8) :=
  if b.depth ≠ 0 then none
  else
    let structBlock := b.structBlock ++ toBeBytes 4 fdtEnd
    let offMemRsvmap := headerLen
    let memRsv := (b.memRsv ++ [(0, 0)]).flatMap encodeReservation
    let offDtStruct := offMemRsvmap + memRsv.length
    let sizeDtStruct := structBlock.length
    let offDtStrings := offDtStruct + sizeDtStruct
    let sizeDtStrings := b.strings.length
    let totalsize := offDtStrings + sizeDtStrings
    let header := [fdtMagic, totalsize, offDtStruct, offDtStrings, offMemRsvmap, fdtVersion, fdtLastCompVersion, 0,
      sizeDtStrings, sizeDtStruct]
    some (header.flatMap (toBeBytes 4) ++ memRsv ++ structBlock ++ b.strings)

end FdtBuilder

/-- A call of the builder. -/
inductive Call
  | reserveMemory (address size : UInt64)
  | beginNode (name : List UInt8)
  | endNode
  | propBytes (name value : List UInt8)
  | propEmpty (name : List UInt8)
  | propU32 (name : List UInt8) (value : UInt32)
  | propCells (name : List UInt8) (cells : List UInt32)
  | propReg64 (name : List UInt8) (base size : UInt64)
  | propStr (name value : List UInt8)
  | propStrList (name : List UInt8) (values : List (List UInt8))

def FdtBuilder.call (b : FdtBuilder) : Call → FdtBuilder
  | .reserveMemory address size => b.reserveMemory address size
  | .beginNode name => b.beginNode name
  | .endNode => b.endNode
  | .propBytes name value => b.propBytes name value
  | .propEmpty name => b.propEmpty name
  | .propU32 name value => b.propU32 name value
  | .propCells name cells => b.propCells name cells
  | .propReg64 name base size => b.propReg64 name base size
  | .propStr name value => b.propStr name value
  | .propStrList name values => b.propStrList name values

def FdtBuilder.run (calls : List Call) : FdtBuilder := calls.foldl FdtBuilder.call .new

/-! ## Trees and what spells them -/

inductive Node
  | mk (name : List UInt8) (props : List (List UInt8 × List UInt8)) (children : List Node)

inductive Token
  | beginNode (name : List UInt8)
  | endNode
  | prop (name value : List UInt8)
deriving DecidableEq

/-- What a call adds to the tree, with the byte value of a property. -/
def Call.token : Call → Option Token
  | .reserveMemory _ _ => none
  | .beginNode name => some (.beginNode name)
  | .endNode => some .endNode
  | .propBytes name value => some (.prop name value)
  | .propEmpty name => some (.prop name [])
  | .propU32 name value => some (.prop name (toBeBytes 4 value.toNat))
  | .propCells name cells => some (.prop name (FdtBuilder.cellsValue cells))
  | .propReg64 name base size => some (.prop name (toBeBytes 8 base.toNat ++ toBeBytes 8 size.toNat))
  | .propStr name value => some (.prop name (value ++ [0]))
  | .propStrList name values => some (.prop name (FdtBuilder.strListValue values))

/-- The reservation of a call. -/
def Call.reservation : Call → Option (UInt64 × UInt64)
  | .reserveMemory address size => some (address, size)
  | _ => none

mutual

/-- A node, its properties before its children. -/
def Node.tokens : Node → List Token
  | .mk name props children =>
    .beginNode name :: props.map (fun p => .prop p.1 p.2) ++ forestTokens children ++ [.endNode]

def forestTokens : List Node → List Token
  | [] => []
  | node :: nodes => node.tokens ++ forestTokens nodes

end

/-- Every node is closed, and has its properties before its children; the stack says which open nodes have children. -/
def balancedFrom : List Bool → List Token → Bool
  | [], [] => true
  | _ :: _, [] => false
  | [], .beginNode _ :: tokens => balancedFrom [false] tokens
  | _ :: stack, .beginNode _ :: tokens => balancedFrom (false :: true :: stack) tokens
  | false :: stack, .prop _ _ :: tokens => balancedFrom (false :: stack) tokens
  | true :: _, .prop _ _ :: _ => false
  | [], .prop _ _ :: _ => false
  | _ :: stack, .endNode :: tokens => balancedFrom stack tokens
  | [], .endNode :: _ => false

def Balanced (calls : List Call) : Prop := balancedFrom [] (calls.filterMap Call.token) = true

/-! ## The format, version 17 -/

/-- A big-endian word of 32 bits. -/
def be32 (bytes : List UInt8) (off : Nat) : Option Nat :=
  if off + 4 ≤ bytes.length then some (ofBeBytes (slice bytes off 4)) else none

/-- The bytes before the first NUL. -/
def cstring (bytes : List UInt8) : Option (List UInt8) :=
  if 0 ∈ bytes then some (bytes.takeWhile (· != 0)) else none

/-- The least multiple of four from a number on. -/
def roundUp4 (n : Nat) : Nat := (n + 3) / 4 * 4

/-- A token of the structure block; a property has its name in the strings block. -/
inductive RawToken
  | beginNode (name : List UInt8)
  | endNode
  | prop (nameoff : Nat) (value : List UInt8)
deriving DecidableEq

/-- The tokens from a place in the blob to the end token, each with its place; only aligned ones are read. -/
def readTokens : Nat → Nat → List UInt8 → Option (List (Nat × RawToken))
  | 0, _, _ => none
  | fuel + 1, pos, bytes =>
    if pos % 4 ≠ 0 then none
    else
      (be32 bytes 0).bind fun token =>
        if token = fdtEnd then if bytes.length = 4 then some [] else none
        else if token = fdtNop then readTokens fuel (pos + 4) (bytes.drop 4)
        else if token = fdtEndNode then
          (readTokens fuel (pos + 4) (bytes.drop 4)).map fun tokens => (pos, .endNode) :: tokens
        else if token = fdtBeginNode then
          (cstring (bytes.drop 4)).bind fun name =>
            let size := roundUp4 (4 + name.length + 1)
            (readTokens fuel (pos + size) (bytes.drop size)).map fun tokens => (pos, .beginNode name) :: tokens
        else if token = fdtProp then
          (be32 bytes 4).bind fun len => (be32 bytes 8).bind fun nameoff =>
            if bytes.length < 12 + len then none
            else
              let size := roundUp4 (12 + len)
              (readTokens fuel (pos + size) (bytes.drop size)).map fun tokens =>
                (pos, .prop nameoff (slice bytes 12 len)) :: tokens
        else none

/-- A token with its name. -/
def resolve (strings : List UInt8) : RawToken → Option Token
  | .beginNode name => some (.beginNode name)
  | .endNode => some .endNode
  | .prop nameoff value => (cstring (strings.drop nameoff)).map fun name => .prop name value

/-- An open node: its name, its properties and its children so far. -/
structure Frame where
  name : List UInt8
  props : List (List UInt8 × List UInt8)
  children : List Node

def Frame.node (f : Frame) : Node := .mk f.name f.props f.children

/-- The nodes that tokens spell, below the open ones. -/
def assemble : List Frame → List Node → List Token → Option (List Node)
  | [], nodes, [] => some nodes
  | _ :: _, _, [] => none
  | stack, nodes, .beginNode name :: tokens => assemble (⟨name, [], []⟩ :: stack) nodes tokens
  | [], _, .prop _ _ :: _ => none
  | f :: stack, nodes, .prop name value :: tokens =>
    if f.children.isEmpty then assemble ({ f with props := f.props ++ [(name, value)] } :: stack) nodes tokens else none
  | [], _, .endNode :: _ => none
  | [f], nodes, .endNode :: tokens => assemble [] (nodes ++ [f.node]) tokens
  | f :: g :: stack, nodes, .endNode :: tokens =>
    assemble ({ g with children := g.children ++ [f.node] } :: stack) nodes tokens

/-- The reservations up to the null one. -/
def readReservations : Nat → List UInt8 → Option (List (UInt64 × UInt64))
  | 0, _ => none
  | fuel + 1, bytes =>
    if bytes.length < 16 then none
    else
      let entry := (UInt64.ofNat (ofBeBytes (slice bytes 0 8)), UInt64.ofNat (ofBeBytes (slice bytes 8 8)))
      if entry = (0, 0) then some [] else (readReservations fuel (bytes.drop 16)).map fun entries => entry :: entries

structure Header where
  totalsize : Nat
  offDtStruct : Nat
  offDtStrings : Nat
  offMemRsvmap : Nat
  sizeDtStrings : Nat
  sizeDtStruct : Nat

/-- Words of the header. -/
def readWords : Nat → List UInt8 → Option (List Nat)
  | 0, _ => some []
  | n + 1, bytes => (be32 bytes 0).bind fun word => (readWords n (bytes.drop 4)).map fun words => word :: words

def readHeader (blob : List UInt8) : Option Header :=
  match readWords 10 blob with
  | some [magic, totalsize, offDtStruct, offDtStrings, offMemRsvmap, version, lastCompVersion, _, sizeDtStrings,
      sizeDtStruct] =>
    if magic = fdtMagic ∧ fdtVersion ≤ version ∧ lastCompVersion ≤ fdtVersion then
      some ⟨totalsize, offDtStruct, offDtStrings, offMemRsvmap, sizeDtStrings, sizeDtStruct⟩
    else none
  | _ => none

structure Dtb where
  header : Header
  reservations : List (UInt64 × UInt64)
  tokens : List (Nat × RawToken)
  nodes : List Node

/-- A reader of blobs. -/
def parseDtb (blob : List UInt8) : Option Dtb :=
  (readHeader blob).bind fun header =>
    if blob.length < header.totalsize ∨ header.totalsize < header.offDtStruct + header.sizeDtStruct ∨
        header.totalsize < header.offDtStrings + header.sizeDtStrings then none
    else
      let structBlock := slice blob header.offDtStruct header.sizeDtStruct
      let strings := slice blob header.offDtStrings header.sizeDtStrings
      (readReservations blob.length (blob.drop header.offMemRsvmap)).bind fun reservations =>
        (readTokens structBlock.length header.offDtStruct structBlock).bind fun tokens =>
          (tokens.mapM fun token => resolve strings token.2).bind fun named =>
            (assemble [] [] named).map fun nodes => ⟨header, reservations, tokens, nodes⟩

end BridgeVm.Fdt
