import BridgeVm.Lib.LittleEndian
import BridgeVm.Lib.Splice

/-!
# The virtio-gpu wire format (`virtio_gpu/protocol.rs`, `virtio_gpu_3d/protocol.rs`)

Commands, responses and the control header that both start with. A request is the bytes that the driver made readable.
-/

namespace BridgeVm.VirtioGpu

open Lib

def readLeU32 (bytes : List UInt8) (offset : Nat) : Option Nat :=
  if offset + 4 ≤ bytes.length then some (ofLeBytes (slice bytes offset 4)) else none

def readLeU64 (bytes : List UInt8) (offset : Nat) : Option Nat :=
  if offset + 8 ≤ bytes.length then some (ofLeBytes (slice bytes offset 8)) else none

def flagFence : Nat := 1
def flagInfoRingIdx : Nat := 2

def cmdResourceCreate2d : Nat := 0x0101
def cmdResourceUnref : Nat := 0x0102
def cmdResourceCreateBlob : Nat := 0x010c
def cmdCtxCreate : Nat := 0x0200
def cmdCtxDestroy : Nat := 0x0201
def cmdCtxAttachResource : Nat := 0x0202
def cmdCtxDetachResource : Nat := 0x0203
def cmdResourceCreate3d : Nat := 0x0204
def cmdTransferToHost3d : Nat := 0x0205
def cmdTransferFromHost3d : Nat := 0x0206
def cmdSubmit3d : Nat := 0x0207
def cmdResourceMapBlob : Nat := 0x0208
def cmdResourceUnmapBlob : Nat := 0x0209

def respOkNodata : Nat := 0x1100
def respOkMapInfo : Nat := 0x1106
def respErrUnspec : Nat := 0x1200
def respErrOutOfMemory : Nat := 0x1201
def respErrInvalidParameter : Nat := 0x1203

/-- `CtrlHdr`; the ring index is part of the padding. -/
structure CtrlHdr where
  typ : Nat
  flags : Nat
  fenceId : Nat
  ctxId : Nat
  padding : Nat
deriving DecidableEq, Repr

namespace CtrlHdr

def parse (bytes : List UInt8) : Option CtrlHdr := do
  let typ ← readLeU32 bytes 0
  let flags ← readLeU32 bytes 4
  let fenceId ← readLeU64 bytes 8
  let ctxId ← readLeU32 bytes 16
  let padding ← readLeU32 bytes 20
  some ⟨typ, flags, fenceId, ctxId, padding⟩

def fenced (hdr : CtrlHdr) : Bool := hdr.flags &&& flagFence != 0

def ringIdx (hdr : CtrlHdr) : Nat := if hdr.flags &&& flagInfoRingIdx ≠ 0 then hdr.padding &&& 0xff else 0

/-- `append_to`. -/
def toBytes (hdr : CtrlHdr) : List UInt8 :=
  toLeBytes 4 hdr.typ ++ toLeBytes 4 hdr.flags ++ toLeBytes 8 hdr.fenceId ++ toLeBytes 4 hdr.ctxId ++
    toLeBytes 4 hdr.padding

/-- The header of a response; `kept` are the flags it keeps. -/
def response (hdr : CtrlHdr) (kept typ : Nat) : CtrlHdr where
  typ := typ
  flags := hdr.flags &&& kept
  fenceId := if hdr.fenced then hdr.fenceId else 0
  ctxId := hdr.ctxId
  padding := hdr.padding

end CtrlHdr

/-- `virtio_gpu::response_hdr_into`. -/
def responseHdr2d (typ : Nat) (hdr : Option CtrlHdr) : List UInt8 :=
  (hdr.elim ⟨typ, 0, 0, 0, 0⟩ fun hdr => hdr.response flagFence typ).toBytes

/-- `virtio_gpu_3d::response_hdr_into`, which keeps the ring index flag too. -/
def responseHdr3d (typ : Nat) (hdr : CtrlHdr) : List UInt8 :=
  (hdr.response (flagFence ||| flagInfoRingIdx) typ).toBytes

/-- The type that a response starts with. -/
def responseType (response : List UInt8) : Nat := ofLeBytes (response.take 4)

theorem responseType_responseHdr3d (typ : Nat) (hdr : CtrlHdr) (payload : List UInt8) :
    responseType (responseHdr3d typ hdr ++ payload) = typ % 2 ^ 32 := by
  unfold responseType responseHdr3d CtrlHdr.toBytes CtrlHdr.response
  simp only [List.append_assoc]
  rw [List.take_append_of_le_length (by simp), List.take_of_length_le (by simp)]
  exact ofLeBytes_toLeBytes 4 typ

/-- The pixel formats that a 2D resource or a scanout may have. -/
def formatSupported (format : Nat) : Bool := format ∈ [1, 2, 3, 4]

end BridgeVm.VirtioGpu
