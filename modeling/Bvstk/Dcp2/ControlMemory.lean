import Bvstk.Dcp2.Memory

/-! # Memory requests of the control API

`bvstk_pl_regions.c`, `bvstk_pl_service.c` and the part of `bvstk_dcp2_control.c` that reads and
writes words of the programmable logic. Regions are mapped when they are first used.
-/
namespace Bvstk.Dcp2
open CallLog

/-! ## Regions -/

/-- `regions`; a region goes by its place in the table. -/
def plRegions : List MmioRange :=
  [⟨0x43C00000,0x00010000⟩,⟨0x43C50000,0x00010000⟩,⟨0x40000000,0x00003000⟩,⟨0x43C10000,0x00010000⟩,
    ⟨0x43C20000,0x00010000⟩,⟨0x42000000,0x00004000⟩,⟨0x43C40000,0x00010000⟩,⟨0x44000000,0x00002000⟩]

/-- The check of `find_region`. -/
def regionHolds (address : UInt32) (width : ℕ) (r : MmioRange) : Bool :=
  decide (r.base.toUInt64 ≤ address.toUInt64) &&
    decide (address.toUInt64 + UInt64.ofNat width ≤ r.base.toUInt64 + r.size.toUInt64) && (address - r.base) &&& 3 == 0

/-- `find_region`: the region and the offset in it. -/
def findRegion (address : UInt32) (width : ℕ) : Option (ℕ × UInt32) :=
  (plRegions.findIdx? (regionHolds address width)).map fun i => (i,address - (plRegions[i]?.map (·.base)).getD 0)

/-! ## The service -/

/-- How a mapping can fail: `EACCES` or `EPERM`, or for another reason. -/
inductive MapError where
  | denied | failed
  deriving DecidableEq, Repr

/-- The mapping of a region and the memory behind it, which may answer anything. -/
structure PlPlatform (ε : Type) where
  map : ε → ℕ → Option MapError × ε
  load : ε → (address : UInt32) → UInt32 × ε
  store : ε → (address value : UInt32) → ε

/-- The service, if there is one: the regions that it has mapped. -/
abbrev PlWorld (ε : Type) := World (Option (ℕ → Bool)) ε MemCall

section
variable {ε : Type} (P : PlPlatform ε)

/-- `ensure_mapped`. -/
def ensureMapped (w : PlWorld ε) (mapped : ℕ → Bool) (region : ℕ) : Status × PlWorld ε :=
  if plRegions.length ≤ region then (.malformed,w)
  else if mapped region then (.ok,w)
  else
    match P.map w.env region with
    | (some .denied,env) => (.denied,{ w with env := env })
    | (some .failed,env) => (.io,{ w with env := env })
    | (none,env) => (.ok,World.modify { w with env := env } fun _ => some (Function.update mapped region true))

/-- `check_access`. -/
def checkAccess (r : MmioRange) (offset : UInt32) : Bool :=
  !(decide (r.size < 4) || (offset &&& 3 != 0) || decide (r.size - 4 < offset))

/-- `bvstk_control_pl_read32`. -/
def plRead32 (w : PlWorld ε) (region : ℕ) (offset : UInt32) : Except Status UInt32 × PlWorld ε :=
  match w.state with
  | none => (.error .notReady,w)
  | some mapped =>
    match ensureMapped P w mapped region with
    | (.ok,w) =>
      match plRegions[region]? with
      | none => (.error .range,w)
      | some r =>
        if checkAccess r offset = false then (.error .range,w)
        else
          let (value,env) := P.load w.env (r.base + offset)
          (.ok value,World.call { w with env := env } (.load (r.base + offset) 4))
    | (status,w) => (.error status,w)

/-- `bvstk_control_pl_write32`. -/
def plWrite32 (w : PlWorld ε) (region : ℕ) (offset value : UInt32) : Status × PlWorld ε :=
  match w.state with
  | none => (.notReady,w)
  | some mapped =>
    match ensureMapped P w mapped region with
    | (.ok,w) =>
      match plRegions[region]? with
      | none => (.range,w)
      | some r =>
        if checkAccess r offset = false then (.range,w)
        else
          (.ok,World.call { w with env := P.store w.env (r.base + offset) value } (.store (r.base + offset) 4 value.toNat))
    | (status,w) => (status,w)

end

/-! ## Requests -/

section
variable {ε : Type} (P : PlPlatform ε)

def opMemRead : UInt8 := 0
def opMemWrite : UInt8 := 1

/-- The address of the word `i`; it wraps. -/
def wordAddress (body : List UInt8) (i : ℕ) : UInt32 := UInt32.ofNat (beAt body 2 4) + UInt32.ofNat i * 4

def readWord (body : List UInt8) (i : ℕ) (x : List UInt8 × PlWorld ε) : Option Status × (List UInt8 × PlWorld ε) :=
  match findRegion (wordAddress body i) 4 with
  | none => (some .range,x)
  | some (region,offset) =>
    match plRead32 P x.2 region offset with
    | (.error status,w) => (some status,(x.1,w))
    | (.ok value,w) => (none,(x.1 ++ Wire.beBytes 4 value.toNat,w))

def writeWord (body : List UInt8) (i : ℕ) (w : PlWorld ε) : Option Status × PlWorld ε :=
  match findRegion (wordAddress body i) 4 with
  | none => (some .range,w)
  | some (region,offset) =>
    match plWrite32 P w region offset (UInt32.ofNat (beAt body (8 + i * 4) 4)) with
    | (.ok,w) => (none,w)
    | (status,w) => (some status,w)

/-- `process_mem`. -/
def processMem (opcode : UInt8) (body : List UInt8) (w : PlWorld ε) : (Status × List UInt8) × PlWorld ε :=
  let count := beAt body 6 2
  if body.length < 8 then ((.malformed,[]),w)
  else if body.getD 0 0 ≠ 0 ∨ body.getD 1 0 ≠ 32 ∨ count = 0 ∨ 256 < count then ((.unsupported,[]),w)
  else if opcode = opMemRead then
    if body.length ≠ 8 ∨ maxPayloadSize - 6 < count * 4 then ((.range,[]),w)
    else
      match Sweep.upTo (readWord P body) (List.range count) ([],w) with
      | (none,(data,w)) => ((.ok,data),w)
      | (some status,(_,w)) => ((status,[]),w)
  else if opcode = opMemWrite then
    if body.length ≠ (8 + count * 4) % 2^16 then ((.malformed,[]),w)
    else
      match Sweep.upTo (writeWord P body) (List.range count) w with
      | (none,w) => ((.ok,[]),w)
      | (some status,w) => ((status,[]),w)
  else ((.unsupported,[]),w)

end

end Bvstk.Dcp2
