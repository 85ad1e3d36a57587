import Bvstk.Pl.Hardware
import Mathlib.Data.UInt

/-! # One transfer of the I2C master

`bvstk_i2c_master.c`: the headers and the payload go into the TX FIFO, START sends them, and
what is read arrives in the result memory. An attempt that fails is followed by a soft reset.
A wait is followed for `polls` rounds.
-/
namespace Bvstk.Pl.I2cMaster
open Dialogue

/-! The registers, `bvstk_i2c_regs.h`. -/

def csrOffset : ℕ := 0x00
def irqOffset : ℕ := 0x04
def txFifoOffset : ℕ := 0x08
def bramMasterOffset : ℕ := 0x0000
def bramMasterWindowSize : ℕ := 0x1000
def softResetBit : UInt32 := 1
def startBit : UInt32 := 2
def irqResetBit : UInt32 := 1
def irqDataValid : UInt32 := 2
def irqErrAck : UInt32 := 8

def masterResultMaxBytes : ℕ := bramMasterWindowSize - 4
def defaultTimeoutMs : UInt32 := 100
def recoveryDelayMs : UInt32 := 10
def recoveryAttempts : ℕ := 3

inductive Region where
  | master | bram
  deriving DecidableEq, Repr

abbrev Driver := Pl.Driver Region
abbrev Access := Pl.Access Region

/-- The caller's memory, from the buffer he passes. -/
abbrev Memory := ℕ → UInt8

def effectiveTimeout (timeoutMs : UInt32) : UInt32 := if timeoutMs = 0 then defaultTimeoutMs else timeoutMs

def makeHeader (addr7b : UInt8) (read restart : Bool) (byteCount : ℕ) : UInt32 :=
  ((byteCount.toUInt32 &&& 0x1fffff) <<< 11) ||| (restart.toUInt32 <<< 8) ||| (read.toUInt32 <<< 7) |||
    (addr7b.toUInt32 &&& 0x7f)

def readyLoop (start : UInt64) (timeoutMs : UInt32) : (polls : ℕ) → Driver Status
  | 0 => .unfinished
  | polls + 1 => do
    match ← read32 .master csrOffset with
    | .error e => return e
    | .ok csr =>
      if csr &&& 1 = 0 then return .ok
      let now ← nowMs
      if timeoutMs.toUInt64 ≤ now - start then return .timeout
      sleepMs 1
      readyLoop start timeoutMs polls

def waitReady (timeoutMs : UInt32) (polls : ℕ) : Driver Status := do
  let start ← nowMs
  readyLoop start (effectiveTimeout timeoutMs) polls

def recover : Driver Unit := do
  let _ ← write32 .master csrOffset softResetBit
  sleepMs recoveryDelayMs

/-- The status, and whether a byte was rejected. -/
def completionLoop (readSize : ℕ) (start : UInt64) (timeoutMs : UInt32) : (polls : ℕ) → Driver (Status × Bool)
  | 0 => .unfinished
  | polls + 1 => do
    match ← read32 .master csrOffset with
    | .error _ => return (.io,false)
    | .ok csr =>
      match ← read32 .master irqOffset with
      | .error _ => return (.io,false)
      | .ok irq =>
        if irq &&& irqErrAck ≠ 0 then return (.io,true)
        if csr &&& 1 = 0 ∧ (readSize = 0 ∨ irq &&& irqDataValid ≠ 0) then return (.ok,false)
        let now ← nowMs
        if timeoutMs.toUInt64 ≤ now - start then return (.timeout,false)
        sleepMs 1
        completionLoop readSize start timeoutMs polls

def waitCompletion (readSize : ℕ) (timeoutMs : UInt32) (polls : ℕ) : Driver (Status × Bool) := do
  let start ← nowMs
  completionLoop readSize start (effectiveTimeout timeoutMs) polls

/-- The last word, of `count` bytes. -/
def tailWord (data : Memory) (offset count : ℕ) : UInt32 :=
  (List.range count).foldl (fun word byte => word ||| ((data (offset + byte)).toUInt32 <<< (8 * byte).toUInt32)) 0

/-- `write_fifo_bytes`, from `offset` on. -/
def writeFifoBytes (data : Memory) (size offset : ℕ) : Driver Status :=
  if offset + 4 ≤ size then
    write32 .master txFifoOffset ((data offset).toUInt32 ||| ((data (offset + 1)).toUInt32 <<< 8) |||
      ((data (offset + 2)).toUInt32 <<< 16) ||| ((data (offset + 3)).toUInt32 <<< 24)) >>= fun status =>
    if status ≠ .ok then return status else writeFifoBytes data size (offset + 4)
  else if offset < size then write32 .master txFifoOffset (tailWord data offset (size - offset))
  else return .ok
  termination_by size - offset

/-- `count` bytes of a word, to `offset`. -/
def Memory.putBytes (m : Memory) (offset count : ℕ) (word : UInt32) : Memory :=
  fun j => if offset ≤ j ∧ j < offset + count then (word >>> (8 * (j - offset)).toUInt32).toUInt8 else m j

/-- The result memory is copied, from `offset` on. -/
def fetchResult (readSize offset : ℕ) (m : Memory) : Driver (Status × Memory) :=
  if offset < readSize then
    read32 .bram (bramMasterOffset + 4 + offset) >>= fun reply => match reply with
      | .error e => return (e,m)
      | .ok word =>
        fetchResult readSize (offset + min (readSize - offset) 4) (m.putBytes offset (min (readSize - offset) 4) word)
  else return (.ok,m)
  termination_by readSize - offset

/-- What one transfer is asked to do. -/
structure Order where
  addr7b : UInt8
  writeData : Memory
  writeSize : ℕ
  readSize : ℕ
  timeoutMs : UInt32

/-- The write header and the payload. -/
def queueWrite (o : Order) (status : Status) : Driver Status :=
  if status = .ok ∧ o.writeSize ≠ 0 then do
    let status ← write32 .master txFifoOffset (makeHeader o.addr7b false (o.readSize ≠ 0) o.writeSize)
    ifOk status (writeFifoBytes o.writeData o.writeSize 0)
  else return status

/-- The read header. -/
def queueRead (o : Order) (status : Status) : Driver Status :=
  if status = .ok ∧ o.readSize ≠ 0 then write32 .master txFifoOffset (makeHeader o.addr7b true false o.readSize)
  else return status

def completion (o : Order) (polls : ℕ) (status : Status) : Driver (Status × Bool) :=
  if status = .ok then waitCompletion o.readSize o.timeoutMs polls else return (status,false)

def fetch (o : Order) (status : Status) (m : Memory) : Driver (Status × Memory) :=
  if status = .ok ∧ o.readSize ≠ 0 then fetchResult o.readSize 0 m else return (status,m)

/-- How an attempt ends: the transfer returns, or there may be another attempt. -/
inductive Verdict where
  | returns (status : Status) (m : Memory) | again (status : Status) (m : Memory)

/-- The body of the loop. -/
def attempt (o : Order) (polls : ℕ) (m : Memory) : Driver Verdict := do
  let status ← waitReady o.timeoutMs polls
  if status ≠ .ok then
    recover
    return .again status m
  let status ← write32 .master irqOffset irqResetBit
  let status ← queueWrite o status
  let status ← queueRead o status
  let status ← ifOk status (write32 .master csrOffset startBit)
  let out ← completion o polls status
  if out.2 then
    recover
    return .returns out.1 m
  let out ← fetch o out.1 m
  if out.1 = .ok then return .returns .ok out.2
  recover
  return .again out.1 out.2

/-- `left` more attempts; the status is the one of the last. -/
def attempts (o : Order) (polls : ℕ) : (left : ℕ) → Status → Memory → Driver (Status × Memory)
  | 0, status, m => return (status,m)
  | left + 1, _, m => do
    match ← attempt o polls m with
    | .returns status m => return (status,m)
    | .again status m => attempts o polls left status m

def transferLocked (o : Order) (polls : ℕ) (m : Memory) : Driver (Status × Memory) :=
  if o.writeSize = 0 ∧ o.readSize = 0 then return (.malformed,m)
  else if 0x1fffff < o.writeSize ∨ 0x1fffff < o.readSize ∨ masterResultMaxBytes < o.readSize then return (.range,m)
  else attempts o polls recoveryAttempts .internal m

/-- `bvstk_i2c_master_hw_transfer`: the status, and the memory that is read into. -/
def hwTransfer (initialized : Bool) (o : Order) (polls : ℕ) (readData : Memory) : Driver (Status × Memory) := do
  if ¬initialized then return (.notReady,readData)
  let status ← lock o.timeoutMs
  if status ≠ .ok then return (status,readData)
  let out ← transferLocked { o with addr7b := o.addr7b &&& 0x7f } polls readData
  unlock
  return out

end Bvstk.Pl.I2cMaster
