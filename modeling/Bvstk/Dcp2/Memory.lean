import Bvstk.Dcp2.Codec
import Bvstk.Library.Sweep

/-! # Memory requests of the FreeRTOS server

`dcp2_handle_mem_read` and `dcp2_handle_mem_write`: a request names an address, a width and a
count. The receive buffer behind the body is what it happens to be.
-/
namespace Bvstk.Dcp2
open CallLog

/-! ## The hardware -/

/-- `Xil_In8` to `Xil_In32`, `Xil_Out8` to `Xil_Out32`: widths in bytes. -/
inductive MemCall where
  | load (address : UInt32) (bytes : ℕ)
  | store (address : UInt32) (bytes : ℕ) (value : ℕ)
  deriving DecidableEq, Repr

def MemCall.address : MemCall → UInt32
  | .load address _ => address
  | .store address _ _ => address

def MemCall.bytes : MemCall → ℕ
  | .load _ bytes => bytes
  | .store _ bytes _ => bytes

/-- Memory that may answer anything. -/
structure MemBus (ε : Type) where
  load : ε → UInt32 → (bytes : ℕ) → ℕ × ε
  store : ε → UInt32 → (bytes value : ℕ) → ε

abbrev MemWorld (ε : Type) := World Unit ε MemCall

section
variable {ε : Type} (H : MemBus ε)

def memIn (w : MemWorld ε) (address : UInt32) (bytes : ℕ) : ℕ × MemWorld ε :=
  let (value,env) := H.load w.env address bytes
  (value % 256^bytes,World.call { w with env := env } (.load address bytes))

def memOut (w : MemWorld ε) (address : UInt32) (bytes value : ℕ) : MemWorld ε :=
  World.call { w with env := H.store w.env address bytes value } (.store address bytes value)

end

/-! ## What may be accessed -/

/-- `mmio_range_t`. -/
structure MmioRange where
  base : UInt32
  size : UInt32
  deriving DecidableEq, Repr

/-- What the server was built with: `BVSTK_DCP2_ALLOW_ANY_MEM_ACCESS`, and the ranges of the cores
that there are. -/
structure MemBuild where
  anyAccess : Bool
  ranges : List MmioRange

def memAccessAllowed (b : MemBuild) (address : UInt64) (sizeBytes : UInt32) : Bool :=
  let stop := address + sizeBytes.toUInt64
  if sizeBytes = 0 ∨ stop < address ∨ 0xFFFFFFFF < address ∨ 0x100000000 < stop then false
  else if b.anyAccess then true
  else b.ranges.any fun r => decide (r.base.toUInt64 ≤ address) && decide (stop ≤ r.base.toUInt64 + r.size.toUInt64)

/-! ## Requests -/

/-- A number in the receive buffer. -/
def field (rx : ℕ → UInt8) (i width : ℕ) : ℕ := Wire.readBE ((List.range width).map fun j => rx (i + j))

structure MemRequest where
  flags : UInt8
  widthBits : UInt8
  addr : UInt32
  count : UInt16
  deriving DecidableEq, Repr

/-- The head of a body. -/
def memRequest (rx : ℕ → UInt8) : MemRequest :=
  ⟨rx 0,rx 1,UInt32.ofNat (field rx 2 4),UInt16.ofNat (field rx 6 2)⟩

/-- `DCP2_MEM_FLAG_AUTOINC`. -/
def memFlagAutoinc : UInt8 := 1

def memWidthValid (widthBits : UInt8) : Bool := widthBits == 8 || widthBits == 16 || widthBits == 32 || widthBits == 64

def MemRequest.widthBytes (r : MemRequest) : UInt32 := r.widthBits.toUInt32 / 8
def MemRequest.dataLen (r : MemRequest) : UInt32 := r.count.toUInt32 * r.widthBytes

/-- `cur_addr64`. -/
def MemRequest.current (r : MemRequest) (i : ℕ) : UInt64 :=
  r.addr.toUInt64 + if r.flags &&& memFlagAutoinc ≠ 0 then UInt64.ofNat i * r.widthBytes.toUInt64 else 0

def MemRequest.currentAddress (r : MemRequest) (i : ℕ) : UInt32 := (r.current i).toUInt32

/-- The check of an element. -/
def MemRequest.allowed (b : MemBuild) (r : MemRequest) (i : ℕ) : Bool :=
  memAccessAllowed b (r.current i) r.widthBytes && r.current i &&& (r.widthBytes - 1).toUInt64 == 0

section
variable {ε : Type} (b : MemBuild) (H : MemBus ε)

/-- An element is read and appended. 64 bits are two words. -/
def readElement (r : MemRequest) (i : ℕ) (x : List UInt8 × MemWorld ε) : List UInt8 × MemWorld ε :=
  if r.widthBits = 64 then
    let (hi,w) := memIn H x.2 (r.currentAddress i) 4
    let (lo,w) := memIn H w (r.currentAddress i + 4) 4
    (x.1 ++ Wire.beBytes 4 hi ++ Wire.beBytes 4 lo,w)
  else
    let (value,w) := memIn H x.2 (r.currentAddress i) r.widthBytes.toNat
    (x.1 ++ Wire.beBytes r.widthBytes.toNat value,w)

/-- `dcp2_handle_mem_read`. -/
def handleMemRead (rx : ℕ → UInt8) (bodyLen : UInt16) (w : MemWorld ε) : (Status × List UInt8) × MemWorld ε :=
  if bodyLen ≠ 8 then ((.malformed,[]),w)
  else
    let r := memRequest rx
    if r.flags &&& ~~~memFlagAutoinc ≠ 0 then ((.malformed,[]),w)
    else if memWidthValid r.widthBits = false then ((.unsupported,[]),w)
    else if UInt32.ofNat (maxPayloadSize - 6) < r.dataLen then ((.range,[]),w)
    else
      match Sweep.run (r.allowed b) (readElement H r) (List.range r.count.toNat) ([],w) with
      | (false,(_,w)) => ((.range,[]),w)
      | (true,(data,w)) => ((.ok,data),w)

/-- An element is taken from the buffer and written. -/
def writeElement (rx : ℕ → UInt8) (r : MemRequest) (i : ℕ) (w : MemWorld ε) : MemWorld ε :=
  let src := 8 + i * r.widthBytes.toNat
  if r.widthBits = 64 then
    memOut H (memOut H w (r.currentAddress i) 4 (field rx src 4)) (r.currentAddress i + 4) 4 (field rx (src + 4) 4)
  else memOut H w (r.currentAddress i) r.widthBytes.toNat (field rx src r.widthBytes.toNat)

/-- `dcp2_handle_mem_write`. The length that the body should have is cut to 16 bits. -/
def handleMemWrite (rx : ℕ → UInt8) (bodyLen : UInt16) (w : MemWorld ε) : Status × MemWorld ε :=
  if bodyLen < 8 then (.malformed,w)
  else
    let r := memRequest rx
    if r.flags &&& ~~~memFlagAutoinc ≠ 0 then (.malformed,w)
    else if memWidthValid r.widthBits = false then (.unsupported,w)
    else if bodyLen ≠ (8 + r.dataLen).toUInt16 then (.malformed,w)
    else
      match Sweep.run (r.allowed b) (writeElement H rx r) (List.range r.count.toNat) w with
      | (false,w) => (.range,w)
      | (true,w) => (.ok,w)

end

end Bvstk.Dcp2
