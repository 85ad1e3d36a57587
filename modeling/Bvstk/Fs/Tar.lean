import Bvstk.Fs.Backend
import Mathlib.Algebra.Group.Nat.Defs
import Mathlib.Algebra.GroupWithZero.Nat

/-! # Archive headers

The headers of `bvstk_fs_reader.c`: an entry of an archive has a block of 512 bytes, and
before it a PAX record for a name or a size that does not fit.
-/
namespace Bvstk.Fs

/-- `%0*o`: an octal number with leading zeros. -/
def octal : (width n : ℕ) → List UInt8
  | 0, _ => []
  | width + 1, n => octal width (n / 8) ++ [UInt8.ofNat (48 + n % 8)]

/-- `%llu`: the decimal digits of a number, `left` at most. -/
def decimalDigits : (left n : ℕ) → List UInt8
  | 0, _ => []
  | left + 1, n =>
    if n < 10 then [UInt8.ofNat (48 + n)] else decimalDigits left (n / 10) ++ [UInt8.ofNat (48 + n % 10)]

/-- A 64-bit number has at most 20 digits. -/
def decimal (n : ℕ) : List UInt8 := decimalDigits 20 n

def zeros (n : ℕ) : List UInt8 := List.replicate n 0

/-- A field, filled up with zeros. -/
def field (width : ℕ) (bytes : List UInt8) : List UInt8 := bytes ++ zeros (width - bytes.length)

def typeFile : UInt8 := 48
def typeDir : UInt8 := 53
def typePax : UInt8 := 120

/-- `0000755` for a directory, `0000644` for anything else. -/
def tarMode (type : UInt8) : List UInt8 :=
  if type = typeDir then [48,48,48,48,55,53,53] else [48,48,48,48,54,52,52]

/-- `ustar`, a NUL and the version `00`. -/
def tarMagic : List UInt8 := [117,115,116,97,114,0,48,48]

/-- The fields of a header in order, around the one that holds the checksum. -/
def tarFields (name : Path) (type : UInt8) (size : ℕ) (checksum : List UInt8) : List UInt8 :=
  field 100 name ++ field 8 (tarMode type) ++ field 8 (octal 7 0) ++ field 8 (octal 7 0) ++
    field 12 (octal 11 size) ++ field 12 (octal 11 0) ++ field 8 checksum ++ [type] ++ zeros 100 ++
    field 255 tarMagic

def byteSum (bytes : List UInt8) : ℕ := (bytes.map UInt8.toNat).sum

/-- `tar_header`: the checksum counts its own field as blanks. -/
def tarHeader (name : Path) (type : UInt8) (size : ℕ) : List UInt8 :=
  let sum := byteSum (tarFields name type size (List.replicate 8 32))
  tarFields name type size (octal 6 sum ++ [0,32])

/-- The loop of `pax_record`: the length of a record counts its own digits. -/
def paxLength (base : ℕ) : (left length : ℕ) → ℕ
  | 0, length => length
  | left + 1, length =>
    let next := base + (decimal length).length
    if next = length then length else paxLength base left next

/-- `pax_record`, if it fits. -/
def paxRecord (capacity : ℕ) (key value : List UInt8) : Option (List UInt8) :=
  let base := key.length + value.length + 3
  let record := decimal (paxLength base 20 (base + 1)) ++ [32] ++ key ++ [61] ++ value ++ [10]
  if record.length < capacity then some record else none

/-- `path` and `size`. -/
def paxPath : List UInt8 := [112,97,116,104]
def paxSize : List UInt8 := [115,105,122,101]

/-- `PaxHeader`, and `entry` for what it describes. -/
def paxHeaderName : Path := [80,97,120,72,101,97,100,101,114]
def paxEntryName : Path := [101,110,116,114,121]

/-- The largest size of eleven octal digits. -/
def octalMax : ℕ := 8^11 - 1

/-- The PAX records of an entry, if they fit. -/
def paxRecords (name : Path) (size : ℕ) : Option (List UInt8) :=
  match paxRecord 1024 paxPath name with
  | none => none
  | some path =>
    if octalMax < size then (paxRecord (1024 - path.length) paxSize (decimal size)).map (path ++ ·)
    else some path

/-- Blocks of 512 bytes, the last filled up. -/
def blocks (bytes : List UInt8) : List UInt8 := field ((bytes.length + 511) / 512 * 512) bytes

/-- `stage_tar_entry`: the headers of an entry with this relative name. -/
def tarEntry (relative : Path) (info : FsInfo) : Option (List UInt8) :=
  let dir := info.type = entryDir
  let size := if info.type = entryFile then info.size.toNat else 0
  let name := relative ++ (if dir then [slash] else [])
  let type := if dir then typeDir else typeFile
  let shown := if octalMax < size then 0 else size
  if 100 ≤ name.length ∨ octalMax < size ∨ name.any (128 ≤ ·) = true then
    match paxRecords name size with
    | none => none
    | some records =>
      some (tarHeader paxHeaderName typePax records.length ++ blocks records ++ tarHeader paxEntryName type shown)
  else some (tarHeader name type shown)

end Bvstk.Fs
