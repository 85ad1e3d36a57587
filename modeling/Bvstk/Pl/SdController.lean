import Bvstk.Pl.Hardware
import Mathlib.Data.UInt

/-! # The SD controller of the programmable logic

`bvstk_sd_controller.c`. A transfer is cut into chunks of at most eight blocks, the length of
the controller's data window. A wait is followed for `polls` rounds.
-/
namespace Bvstk.Pl.SdController

/-! The registers, `bvstk_sd_regs.h`. -/

def controlOffset : ℕ := 0x00
def statusOffset : ℕ := 0x04
def blockOffset : ℕ := 0x08
def bufferIndexOffset : ℕ := 0x10
def blockCountOffset : ℕ := 0x20
def dataWindowOffset : ℕ := 0x100

def maxTransferBlocks : ℕ := 8
def blockSize : ℕ := 512
def bufferWordsPerBlock : ℕ := 128

def controlRead : UInt32 := 2
def controlWrite : UInt32 := 4
def controlClear : UInt32 := 8

def statusBusy : UInt32 := 1
def statusDone : UInt32 := 2
def statusError : UInt32 := 4
def statusInitialized : UInt32 := 8
def statusHighCapacity : UInt32 := 16
def statusErrorShift : UInt32 := 8
def statusErrorMask : UInt32 := 0x0000ff00

def defaultTimeoutMs : UInt32 := 5000

/-- The only register window of the controller. -/
inductive Region where
  | registers
  deriving DecidableEq, Repr

abbrev Driver := Pl.Driver Region
abbrev Access := Pl.Access Region

/-- `prepares` and `waits` tell whether the completion callbacks are installed. -/
structure Config where
  timeoutMs : UInt32
  prepares : Bool
  waits : Bool

structure Controller where
  config : Config
  initialized : Bool

structure ControllerStatus where
  busy : Bool
  done : Bool
  error : Bool
  initialized : Bool
  highCapacity : Bool
  errorCode : UInt8

/-- The caller's memory, from the buffer he passes. -/
abbrev Memory := ℕ → UInt8

/-- The four bytes at `i` as a word, the lowest first: `memcpy` out of memory. -/
def Memory.word (m : Memory) (i : ℕ) : UInt32 :=
  .ofNat ((m i).toNat + 2^8 * (m (i + 1)).toNat + 2^16 * (m (i + 2)).toNat + 2^24 * (m (i + 3)).toNat)

/-- Byte `j` of a word. -/
def byteOf (value : UInt32) (j : ℕ) : UInt8 := .ofNat (value.toNat / 2^(8 * j))

/-- `memcpy` of a word to `i`. -/
def Memory.putWord (m : Memory) (i : ℕ) (value : UInt32) : Memory :=
  fun j => if i ≤ j ∧ j < i + 4 then byteOf value (j - i) else m j

def read32 (offset : ℕ) : Driver (Except Status UInt32) := Pl.read32 .registers offset
def write32 (offset : ℕ) (value : UInt32) : Driver Status := Pl.write32 .registers offset value

def effectiveTimeout (c : Controller) (timeoutMs : UInt32) : UInt32 :=
  if timeoutMs ≠ 0 then timeoutMs else if c.config.timeoutMs ≠ 0 then c.config.timeoutMs else defaultTimeoutMs

def lockController (c : Controller) (timeoutMs : UInt32) : Driver Status := lock (effectiveTimeout c timeoutMs)

def readStatus : Driver (Except Status ControllerStatus) := do
  match ← read32 statusOffset with
  | .error e => return .error e
  | .ok value =>
    return .ok
      { busy := value &&& statusBusy ≠ 0
        done := value &&& statusDone ≠ 0
        error := value &&& statusError ≠ 0
        initialized := value &&& statusInitialized ≠ 0
        highCapacity := value &&& statusHighCapacity ≠ 0
        errorCode := ((value &&& statusErrorMask) >>> statusErrorShift).toUInt8 }

/-- The callback is asked if there is one. -/
def completionWait (c : Controller) (effective : UInt32) : Driver Status :=
  if c.config.waits then wait effective else return .ok

def waitLoop (c : Controller) (started : UInt64) (effective : UInt32) : (polls : ℕ) → Driver Status
  | 0 => .unfinished
  | polls + 1 => do
    let result ← completionWait c effective
    if result ≠ .ok ∧ result ≠ .timeout then return result
    match ← readStatus with
    | .error e => return e
    | .ok status =>
      if ¬status.busy then
        if status.error then return .io
        return if status.done then .ok else .io
      if c.config.waits then return .timeout
      let now ← nowMs
      if effective.toUInt64 ≤ now - started then return .timeout
      sleepMs 1
      waitLoop c started effective polls

def waitForDone (c : Controller) (timeoutMs : UInt32) (polls : ℕ) : Driver Status := do
  let started ← nowMs
  waitLoop c started (effectiveTimeout c timeoutMs) polls

def prepareCompletion (c : Controller) : Driver Status :=
  if c.config.prepares then prepare else return .ok

def clearResult : Driver Status := write32 controlOffset controlClear

/-- The words of the data window from `word` on, `left` of them, into memory at `position`. -/
def readWords (position : ℕ) : (word left : ℕ) → Memory → Driver (Status × Memory)
  | _, 0, m => return (.ok,m)
  | word, left + 1, m => do
    match ← read32 (dataWindowOffset + word * 4) with
    | .error e => return (e,m)
    | .ok value => readWords position (word + 1) left (m.putWord (position + word * 4) value)

def copyBufferFromController (m : Memory) (position sectorCount : ℕ) : Driver (Status × Memory) := do
  if sectorCount = 0 ∨ maxTransferBlocks < sectorCount then return (.io,m)
  if (← write32 bufferIndexOffset 0) ≠ .ok then return (.io,m)
  readWords position 0 (sectorCount * bufferWordsPerBlock) m

def writeWords (m : Memory) (position : ℕ) : (word left : ℕ) → Driver Status
  | _, 0 => return .ok
  | word, left + 1 => do
    if (← write32 (dataWindowOffset + word * 4) (m.word (position + word * 4))) ≠ .ok then return .io
    writeWords m position (word + 1) left

def copyBufferToController (m : Memory) (position sectorCount : ℕ) : Driver Status := do
  if sectorCount = 0 ∨ maxTransferBlocks < sectorCount then return .io
  if (← write32 bufferIndexOffset 0) ≠ .ok then return .io
  writeWords m position 0 (sectorCount * bufferWordsPerBlock)

/-- `if (write) result = copy_buffer_to_controller(...)`. -/
def copyIfWrite (write : Bool) (result : Status) (m : Memory) (position sectorCount : ℕ) : Driver Status :=
  if write then copyBufferToController m position sectorCount else return result

/-- One chunk: `sectorCount` blocks from `sector` on, to or from memory at `position`. -/
def transferChunk (c : Controller) (write : Bool) (timeoutMs : UInt32) (polls : ℕ) (sector : UInt32)
    (position sectorCount : ℕ) (m : Memory) : Driver (Status × Memory) := do
  if sectorCount = 0 ∨ maxTransferBlocks < sectorCount then return (.range,m)
  let result ← write32 blockOffset sector
  let result ← ifOk result (write32 blockCountOffset sectorCount.toUInt32)
  if result ≠ .ok then return (result,m)
  let result ← copyIfWrite write result m position sectorCount
  let result ← ifOk result clearResult
  let result ← ifOk result (prepareCompletion c)
  let result ← ifOk result (write32 controlOffset (if write then controlWrite else controlRead))
  let result ← ifOk result (waitForDone c timeoutMs polls)
  if result = .ok ∧ ¬write then copyBufferFromController m position sectorCount else return (result,m)

/-- The loop of both transfers, from `sector` sectors on. -/
def transferLoop (c : Controller) (write : Bool) (first : UInt32) (sectorCount : ℕ) (timeoutMs : UInt32) (polls sector : ℕ)
    (result : Status) (m : Memory) : Driver (Status × Memory) :=
  if _h : result = .ok ∧ sector < sectorCount then
    let chunk := min (sectorCount - sector) maxTransferBlocks
    transferChunk c write timeoutMs polls (first + sector.toUInt32) (sector * blockSize) chunk m >>= fun out =>
      transferLoop c write first sectorCount timeoutMs polls (sector + chunk) out.1 out.2
  else return (result,m)
  termination_by sectorCount - sector
  decreasing_by
    simp only [maxTransferBlocks]
    omega

/-- Whether the card has been initialized. -/
def cardReady : Driver Status := do
  match ← readStatus with
  | .error e => return e
  | .ok status => return if status.initialized then .ok else .notReady

/-- The sectors that are accepted: at least one, and none past the last sector number. -/
def Accepts (first : UInt32) (sectorCount : ℕ) : Prop := sectorCount ≠ 0 ∧ sectorCount - 1 ≤ 0xffffffff - first.toNat

instance (first : UInt32) (sectorCount : ℕ) : Decidable (Accepts first sectorCount) :=
  inferInstanceAs (Decidable (_ ∧ _))

/-- The body of both transfers. -/
def transfer (c : Controller) (write : Bool) (first : UInt32) (m : Memory) (sectorCount : ℕ) (timeoutMs : UInt32)
    (polls : ℕ) : Driver (Status × Memory) := do
  if ¬c.initialized then return (.notReady,m)
  if ¬Accepts first sectorCount then return (.range,m)
  let result ← lockController c timeoutMs
  if result ≠ .ok then return (result,m)
  let result ← cardReady
  let out ← transferLoop c write first sectorCount timeoutMs polls 0 result m
  unlock
  return out

/-- `bvstk_sd_controller_read`: the memory as it is left. -/
def controllerRead (c : Controller) (first : UInt32) (buffer : Memory) (sectorCount : ℕ) (timeoutMs : UInt32)
    (polls : ℕ) : Driver (Status × Memory) := transfer c false first buffer sectorCount timeoutMs polls

/-- `bvstk_sd_controller_write`. -/
def controllerWrite (c : Controller) (first : UInt32) (buffer : Memory) (sectorCount : ℕ) (timeoutMs : UInt32)
    (polls : ℕ) : Driver (Status × Memory) := transfer c true first buffer sectorCount timeoutMs polls

end Bvstk.Pl.SdController
