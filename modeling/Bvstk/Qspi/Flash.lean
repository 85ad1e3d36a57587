import Bvstk.Library.Dialogue
import Bvstk.Library.NorFlash

/-! # The QSPI flash and the disk on it

`qspi_flash.c` and the QSPI part of `diskio.c`. The driver exchanges bytes with the chip by
polled transfers, each of which may fail. A sector is written by reading its erase block,
changing the sector in the copy, erasing the block and programming the copy.
-/
namespace Bvstk.Qspi
open Dialogue

/-! The layout, `bvstk_qspi_layout.h`. -/

def flashPageSize : ℕ := 256
def flashSectorSize : ℕ := 0x1000
def flashSizeBytes : ℕ := 32 * 1024 * 1024
def fsBaseBytes : ℕ := 8 * 1024 * 1024
def fsSizeBytes : ℕ := flashSizeBytes - fsBaseBytes
def diskSectorSize : ℕ := 512

def cmdWriteEnable : UInt8 := 0x06
def cmdReadStatus : UInt8 := 0x05
def cmdPageProgram : UInt8 := 0x12
def cmdReadData : UInt8 := 0x13
def cmdSectorErase4K : UInt8 := 0x21
def addressHeader : ℕ := 5
def statusWipMask : UInt8 := 0x01

/-- What is asked of the board: a polled transfer of these bytes, or a pause. -/
inductive Request where
  | polledTransfer (tx : List UInt8)
  | usleep (us : ℕ)

/-- A transfer that succeeds has received as many bytes as it sent. -/
def Answer : Request → Type
  | .polledTransfer _ => Option (List UInt8)
  | .usleep _ => Unit

abbrev Driver := Program Request Answer
abbrev Transfer := Exchange Answer

def polledTransfer (tx : List UInt8) : Driver (Option (List UInt8)) := .request (Request.polledTransfer tx)
def usleep (us : ℕ) : Driver Unit := .request (Request.usleep us)

def rangeValid (address length : ℕ) : Prop :=
  length ≠ 0 ∧ address < flashSizeBytes ∧ length ≤ flashSizeBytes - address

instance (address length : ℕ) : Decidable (rangeValid address length) := inferInstanceAs (Decidable (_ ∧ _))

/-- `qspi_flash_address`: an opcode with its address, the highest byte first. -/
def flashAddress (opcode : UInt8) (address : ℕ) : List UInt8 :=
  [opcode,.ofNat (address / 2^24),.ofNat (address / 2^16),.ofNat (address / 2^8),.ofNat address]

/-- Whether `XST_SUCCESS` is returned. -/
def writeEnable : Driver Bool := do
  return (← polledTransfer [cmdWriteEnable]).isSome

def readStatus : Driver (Option UInt8) := do
  match ← polledTransfer [cmdReadStatus,0] with
  | none => return none
  | some rx => return some (rx.getD 1 0)

def waitReady : (timeoutMs : ℕ) → Driver Bool
  | 0 => return false
  | timeoutMs + 1 => do
    match ← readStatus with
    | none => return false
    | some status =>
      if status &&& statusWipMask = 0 then return true
      usleep 1000
      waitReady timeoutMs

def waitTimeoutMs : ℕ := 5000

/-- `qspi_flash_erase_sector`. -/
def eraseSector (ready : Bool) (address : ℕ) : Driver Bool := do
  if ¬ready ∨ address % flashSectorSize ≠ 0 ∨ ¬rangeValid address flashSectorSize then return false
  if ¬(← writeEnable) then return false
  match ← polledTransfer (flashAddress cmdSectorErase4K address) with
  | none => return false
  | some _ => waitReady waitTimeoutMs

/-- The length of a page program from `address + offset` on. -/
def pageChunk (address length offset : ℕ) : ℕ := min (flashPageSize - (address + offset) % flashPageSize) (length - offset)

theorem pageChunk_pos (address : ℕ) {length offset : ℕ} (h : offset < length) : 0 < pageChunk address length offset := by
  have hpage : (address + offset) % flashPageSize < flashPageSize := Nat.mod_lt _ (by decide)
  unfold pageChunk
  omega

def programLoop (address : ℕ) (data : ℕ → UInt8) (length offset : ℕ) : Driver Bool :=
  if h : offset < length then
    writeEnable >>= fun enabled =>
    if ¬enabled then return false
    else polledTransfer (flashAddress cmdPageProgram (address + offset) ++
        (List.range (pageChunk address length offset)).map fun i => data (offset + i)) >>= fun rx =>
      if rx.isNone then return false
      else waitReady waitTimeoutMs >>= fun done =>
        if ¬done then return false
        else programLoop address data length (offset + pageChunk address length offset)
  else return true
  termination_by length - offset
  decreasing_by
    have hpos := pageChunk_pos address h
    omega

/-- `qspi_flash_program`. -/
def flashProgram (ready : Bool) (address : ℕ) (data : ℕ → UInt8) (length : ℕ) : Driver Bool := do
  if ¬ready ∨ ¬rangeValid address length then return false
  programLoop address data length 0

/-- Whole words are transferred. -/
def transferSize (chunk : ℕ) : ℕ := (addressHeader + chunk + 3) / 4 * 4

def readLoop (address length offset : ℕ) : Driver (Option (List UInt8)) :=
  if h : offset < length then
    polledTransfer (flashAddress cmdReadData (address + offset) ++
        List.replicate (transferSize (min (length - offset) flashSectorSize) - addressHeader) 0) >>= fun reply =>
      match reply with
      | none => return none
      | some rx => readLoop address length (offset + min (length - offset) flashSectorSize) >>= fun rest =>
        return rest.map fun rest => (rx.drop addressHeader).take (min (length - offset) flashSectorSize) ++ rest
  else return some []
  termination_by length - offset
  decreasing_by
    simp only [flashSectorSize]
    omega

/-- `qspi_flash_read`: the bytes, if it succeeds. -/
def flashRead (ready : Bool) (address length : ℕ) : Driver (Option (List UInt8)) := do
  if ¬ready ∨ ¬rangeValid address length then return none
  readLoop address length 0

/-! ## The disk -/

inductive DResult where
  | ok | error | notRdy | parErr
  deriving DecidableEq, Repr

/-- Whether the disk and the flash driver have been initialized. -/
structure Drive where
  diskReady : Bool
  flashReady : Bool

/-- `qspi_lba_to_flash_addr`. -/
def lbaToFlashAddr (sector : UInt32) (count : ℕ) : Option ℕ :=
  if count = 0 then none
  else if fsSizeBytes < sector.toNat * diskSectorSize ∨ fsSizeBytes < count * diskSectorSize ∨
      fsSizeBytes < sector.toNat * diskSectorSize + count * diskSectorSize then none
  else some (fsBaseBytes + sector.toNat * diskSectorSize)

/-- The erase block of an address. -/
def blockOf (address : ℕ) : ℕ := address / flashSectorSize * flashSectorSize

/-- `qspi_write_sector`. -/
def writeSector (d : Drive) (sector : UInt32) (buffer : ℕ → UInt8) : Driver DResult := do
  match lbaToFlashAddr sector 1 with
  | none => return .parErr
  | some address =>
    match ← flashRead d.flashReady (blockOf address) flashSectorSize with
    | none => return .error
    | some cache =>
      if ¬(← eraseSector d.flashReady (blockOf address)) then return .error
      let copy := NorFlash.overwrite (fun i => cache.getD i 0) (address - blockOf address) diskSectorSize buffer
      if ¬(← flashProgram d.flashReady (blockOf address) copy flashSectorSize) then return .error
      return .ok

def writeSectors (d : Drive) (sector : UInt32) (buffer : ℕ → UInt8) : (index left : ℕ) → Driver DResult
  | _, 0 => return .ok
  | index, left + 1 => do
    let result ← writeSector d (sector + index.toUInt32) fun i => buffer (index * diskSectorSize + i)
    if result ≠ .ok then return result
    writeSectors d sector buffer (index + 1) left

/-- `disk_write` of the QSPI disk. -/
def diskWrite (d : Drive) (buffer : ℕ → UInt8) (sector count : UInt32) : Driver DResult :=
  if count = 0 then return .parErr
  else if ¬d.diskReady then return .notRdy
  else writeSectors d sector buffer 0 count.toNat

/-- `disk_read` of the QSPI disk: the result and the bytes. -/
def diskRead (d : Drive) (sector count : UInt32) : Driver (DResult × List UInt8) :=
  if count = 0 then return (.parErr,[])
  else if ¬d.diskReady then return (.notRdy,[])
  else if 0xffffffff < count.toNat * diskSectorSize then return (.parErr,[])
  else match lbaToFlashAddr sector count.toNat with
    | none => return (.parErr,[])
    | some address => do
      match ← flashRead d.flashReady address (count.toNat * diskSectorSize) with
      | none => return (.error,[])
      | some bytes => return (.ok,bytes)

end Bvstk.Qspi
