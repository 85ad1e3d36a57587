import Bvstk.Base.Status
import Mathlib.Data.Nat.Notation

/-! # The FAT volume of an SD card

`bvstk_sd_volume.c`: the volume is the whole card or the first primary partition with a boot
sector that makes sense. All numbers come from the card.
-/
namespace Bvstk.Sd

abbrev Sector := Vector UInt8 512

def le16 (p : Sector) (i : ℕ) : UInt16 := p[i]!.toUInt16 ||| (p[i + 1]!.toUInt16 <<< 8)

def le32 (p : Sector) (i : ℕ) : UInt32 :=
  p[i]!.toUInt32 ||| (p[i + 1]!.toUInt32 <<< 8) ||| (p[i + 2]!.toUInt32 <<< 16) ||| (p[i + 3]!.toUInt32 <<< 24)

def signature (p : Sector) : Bool := p[510]! == 0x55 && p[511]! == 0xaa

structure SdVolume where
  firstLba : UInt32
  sectors : UInt32
  fatBits : UInt8
  deriving DecidableEq, Repr

def SdVolume.zero : SdVolume := ⟨0,0,0⟩

/-- The sum of two sector numbers does not pass 2^32; 64 bits hold it. -/
def sumFits (a b : UInt32) : Bool := a.toUInt64 + b.toUInt64 ≤ 0x100000000

/-! The variables of `bpb`. -/

def bpbReserved (p : Sector) : UInt32 := (le16 p 14).toUInt32
def bpbRoots (p : Sector) : UInt32 := (le16 p 17).toUInt32
def bpbSpc (p : Sector) : UInt32 := p[13]!.toUInt32
def bpbFats (p : Sector) : UInt32 := p[16]!.toUInt32
def bpbTotal (p : Sector) : UInt32 := if (le16 p 19).toUInt32 = 0 then le32 p 32 else (le16 p 19).toUInt32
def bpbFat (p : Sector) : UInt32 := if (le16 p 22).toUInt32 = 0 then le32 p 36 else (le16 p 22).toUInt32

def bpbOverhead (p : Sector) : UInt64 :=
  (bpbReserved p).toUInt64 + (bpbFats p).toUInt64 * (bpbFat p).toUInt64 + (bpbRoots p / 16).toUInt64

def bpbClusters (p : Sector) : UInt32 := (((bpbTotal p).toUInt64 - bpbOverhead p) / (bpbSpc p).toUInt64).toUInt32
def bpbBits (p : Sector) : UInt8 := if bpbClusters p < 4085 then 12 else if bpbClusters p < 65525 then 16 else 32
def bpbFatBytes (p : Sector) : UInt64 := ((bpbClusters p + 2).toUInt64 * (bpbBits p).toUInt64 + 7) / 8

/-- `bpb`: the volume of a boot sector at `start`, of `limit` sectors at most if that is not zero. -/
def bpb (p : Sector) (start limit : UInt32) : Option SdVolume :=
  if signature p = false ∨ (p[0]! ≠ 0xeb ∧ p[0]! ≠ 0xe9) ∨ le16 p 11 ≠ 512 ∨ bpbReserved p = 0 ∨ bpbSpc p = 0 ∨
      128 < bpbSpc p ∨ bpbSpc p &&& (bpbSpc p - 1) ≠ 0 ∨ (bpbFats p ≠ 1 ∧ bpbFats p ≠ 2) ∨ bpbRoots p % 16 ≠ 0 then none
  else if bpbTotal p = 0 ∨ bpbFat p = 0 ∨ (limit ≠ 0 ∧ limit < bpbTotal p) ∨ sumFits start (bpbTotal p) = false then none
  else if (bpbTotal p).toUInt64 ≤ bpbOverhead p then none
  else if bpbClusters p = 0 ∨ 0x0ffffff5 - 2 < bpbClusters p then none
  else if bpbBits p = 32 ∧ (bpbRoots p ≠ 0 ∨ le16 p 22 ≠ 0 ∨ le16 p 42 ≠ 0 ∨ le32 p 44 < 2 ∨
      bpbClusters p + 2 ≤ le32 p 44 ∨ le16 p 40 &&& 0x80 ≠ 0 ∨
      (le16 p 48 ≠ 0xffff ∧ (le16 p 48 = 0 ∨ bpbReserved p ≤ (le16 p 48).toUInt32)) ∨
      (le16 p 50 ≠ 0xffff ∧ le16 p 50 ≠ 0 ∧ bpbReserved p ≤ (le16 p 50).toUInt32)) then none
  else if bpbBits p ≠ 32 ∧ (bpbRoots p = 0 ∨ le16 p 22 = 0) then none
  else if (bpbFat p).toUInt64 * 512 < bpbFatBytes p then none
  else some ⟨start,bpbTotal p,bpbBits p⟩

/-- The types of partitions that are looked at. -/
def fatTypes : List UInt8 := [0x01,0x04,0x06,0x0b,0x0c,0x0e]

/-- Start and length in the entry `i` of the partition table. -/
def entryStart (p : Sector) (i : ℕ) : UInt32 := le32 p (446 + i * 16 + 8)
def entryCount (p : Sector) (i : ℕ) : UInt32 := le32 p (446 + i * 16 + 12)

/-- Is the entry one of a FAT partition? -/
def entryUsable (p : Sector) (i : ℕ) : Bool :=
  fatTypes.contains p[446 + i * 16 + 4]! &&
    !((p[446 + i * 16]! != 0 && p[446 + i * 16]! != 0x80) || entryStart p i == 0 || entryCount p i == 0 ||
      !sumFits (entryStart p i) (entryCount p i))

section
variable {σ : Type} (read : σ → UInt32 → (Status × Sector) × σ)

/-- The loop over the entries of the partition table, from `i` on. -/
def probeEntries (table : Sector) : List ℕ → σ → (Status × SdVolume) × σ
  | [], s => ((.unsupported,.zero),s)
  | i :: rest, s =>
    if entryUsable table i = false then probeEntries table rest s
    else
      let ((status,sector),s) := read s (entryStart table i)
      if status ≠ .ok then ((status,.zero),s)
      else
        match bpb sector (entryStart table i) (entryCount table i) with
        | some volume => ((.ok,volume),s)
        | none => probeEntries table rest s

/-- `bvstk_sd_volume_probe`. -/
def volumeProbe (s : σ) : (Status × SdVolume) × σ :=
  let ((status,sector),s) := read s 0
  if status ≠ .ok then ((status,.zero),s)
  else
    match bpb sector 0 0 with
    | some volume => ((.ok,volume),s)
    | none => if signature sector = false then ((.unsupported,.zero),s) else probeEntries read sector [0,1,2,3] s

end

/-- `bvstk_sd_volume_map`; `sizeMax` is `SIZE_MAX`. -/
def volumeMap (sizeMax : ℕ) (volume : SdVolume) (sector : UInt32) (count : ℕ) : Option UInt32 :=
  if count = 0 ∨ sizeMax / 512 < count ∨ volume.sectors ≤ sector ∨ (volume.sectors - sector).toNat < count ∨
      0x100000000 < volume.firstLba.toUInt64 + sector.toUInt64 + UInt64.ofNat count then none
  else some (volume.firstLba + sector)

end Bvstk.Sd
