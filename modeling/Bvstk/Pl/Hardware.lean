import Bvstk.Base.Status
import Bvstk.Library.Dialogue
import Mathlib.Data.Nat.Notation

/-! # What the drivers of the programmable logic ask for

`bvstk_mmio.h`, `bvstk_clock.h`, `bvstk_sync.h` and the callbacks of the SD drivers. A driver
knows a few register windows, `ρ`. An access of a window may fail, and nothing is promised
about the values that are read, the clock or the interrupts.
-/
namespace Bvstk.Pl
open Dialogue

inductive Request (ρ : Type) where
  | read32 (region : ρ) (offset : ℕ)
  | write32 (region : ρ) (offset : ℕ) (value : UInt32)
  | nowMs
  | sleepMs (milliseconds : UInt32)
  | lock (timeoutMs : UInt32)
  | unlock
  | prepare
  | wait (timeoutMs : UInt32)
  | count
  | disable
  | barrier
  deriving DecidableEq, Repr

/-- A read may fail, a write tells whether it succeeded. -/
def Answer {ρ : Type} : Request ρ → Type
  | .read32 _ _ => Option UInt32
  | .write32 _ _ _ => Bool
  | .nowMs => UInt64
  | .lock _ => Status
  | .prepare => Status
  | .wait _ => Status
  | .count => UInt32
  | .sleepMs _ => Unit
  | .unlock => Unit
  | .disable => Unit
  | .barrier => Unit

variable {ρ : Type}

abbrev Driver (ρ α : Type) := Program (Request ρ) Answer α
abbrev Access (ρ : Type) := Exchange (Answer (ρ := ρ))

/-- Everything outside the driver, as a machine that answers its requests. -/
abbrev Hardware (ρ : Type) (ε : Type*) := (c : Request ρ) → ε → Answer c × ε

def mmioRead32 (region : ρ) (offset : ℕ) : Driver ρ (Option UInt32) := .request (Request.read32 region offset)
def mmioWrite32 (region : ρ) (offset : ℕ) (value : UInt32) : Driver ρ Bool := .request (Request.write32 region offset value)
def nowMs : Driver ρ UInt64 := .request Request.nowMs
def sleepMs (milliseconds : UInt32) : Driver ρ Unit := .request (Request.sleepMs milliseconds)
def lock (timeoutMs : UInt32) : Driver ρ Status := .request (Request.lock timeoutMs)
def unlock : Driver ρ Unit := .request Request.unlock
def count : Driver ρ UInt32 := .request Request.count
def disable : Driver ρ Unit := .request Request.disable
def barrier : Driver ρ Unit := .request Request.barrier
def prepare : Driver ρ Status := .request Request.prepare
def wait (timeoutMs : UInt32) : Driver ρ Status := .request (Request.wait timeoutMs)

/-- `read32` of the drivers: the value, or the error. -/
def read32 (region : ρ) (offset : ℕ) : Driver ρ (Except Status UInt32) := do
  match ← mmioRead32 region offset with
  | some value => return .ok value
  | none => return .error .io

def write32 (region : ρ) (offset : ℕ) (value : UInt32) : Driver ρ Status := do
  if ← mmioWrite32 region offset value then return .ok else return .io

/-- `if (result == BVSTK_OK) result = next`. -/
def ifOk (result : Status) (next : Driver ρ Status) : Driver ρ Status := if result = .ok then next else return result

/-! ## The accesses, as they stand in the log -/

def Access.read (region : ρ) (offset : ℕ) (value : Option UInt32) : Access ρ := ⟨Request.read32 region offset,value⟩
def Access.write (region : ρ) (offset : ℕ) (value : UInt32) (done : Bool) : Access ρ := ⟨Request.write32 region offset value,done⟩

/-- What `read32` returns. -/
def readResult : Option UInt32 → Except Status UInt32
  | some value => .ok value
  | none => .error .io

def writeResult (done : Bool) : Status := if done then .ok else .io

theorem read32_adds (region : ρ) (offset : ℕ) : (read32 region offset).Adds fun r new =>
    ∃ reply, new = [Access.read region offset reply] ∧ r = some (readResult reply) := by
  apply Program.adds_request_bind
  intro reply
  cases reply with
  | some value => exact Program.adds_pure ⟨some value,Eq.refl _,Eq.refl _⟩
  | none => exact Program.adds_pure ⟨none,Eq.refl _,Eq.refl _⟩

theorem write32_adds (region : ρ) (offset : ℕ) (value : UInt32) : (write32 region offset value).Adds fun r new =>
    ∃ done, new = [Access.write region offset value done] ∧ r = some (writeResult done) := by
  apply Program.adds_request_bind
  intro done
  cases done with
  | true => exact Program.adds_pure ⟨true,Eq.refl _,Eq.refl _⟩
  | false => exact Program.adds_pure ⟨false,Eq.refl _,Eq.refl _⟩

end Bvstk.Pl
