import Mathlib.Data.List.Basic
import Mathlib.Algebra.GroupWithZero.Nat

/-! # Archives

A reader of archives in the `ustar` format with the extended headers of `pax`: blocks of 512
bytes, a header for every entry with a checksum, the bytes of a file filled up with zeros, and
two blocks of zeros at the end. It takes nothing that the format leaves open.
-/
namespace Ustar

abbrev Bytes := List UInt8

inductive Kind where
  | file | directory
  deriving DecidableEq, Repr

structure Entry where
  name : Bytes
  kind : Kind
  size : ℕ
  content : Bytes
  deriving DecidableEq, Repr

/-! ## Fields -/

/-- The bytes before the first NUL. -/
def text (bytes : Bytes) : Bytes := bytes.takeWhile (· != 0)

def isDigit (base : ℕ) (b : UInt8) : Bool := decide (48 ≤ b.toNat ∧ b.toNat < 48 + base)

def digitsValue (base : ℕ) (digits : Bytes) : ℕ := digits.foldl (fun n b => n * base + (b.toNat - 48)) 0

/-- Octal digits with a NUL or a blank behind them. -/
def octalField (bytes : Bytes) : Option ℕ :=
  let digits := bytes.takeWhile (isDigit 8)
  match bytes.drop digits.length with
  | [] => none
  | b :: _ => if digits ≠ [] ∧ (b = 0 ∨ b = 32) then some (digitsValue 8 digits) else none

def slice (block : Bytes) (start length : ℕ) : Bytes := (block.drop start).take length

def sum (bytes : Bytes) : ℕ := (bytes.map UInt8.toNat).sum

/-- The sum of a header with blanks in the place of the checksum. -/
def checksum (block : Bytes) : ℕ := sum (block.take 148) + 8 * 32 + sum (block.drop 156)

structure Header where
  name : Bytes
  size : ℕ
  type : UInt8
  deriving DecidableEq, Repr

/-- `ustar`, a NUL and the version `00`. -/
def magic : Bytes := [117,115,116,97,114,0,48,48]

/-- A header. Its name is in ASCII; anything else takes an extended header. -/
def header (block : Bytes) : Option Header :=
  match octalField (slice block 124 12), octalField (slice block 148 8), block[156]? with
  | some size, some sum, some type =>
    let front := text (slice block 345 155)
    let last := text (slice block 0 100)
    let name := if front = [] then last else front ++ [47] ++ last
    if block.length = 512 ∧ sum = checksum block ∧ slice block 257 8 = magic ∧ name.all (· < 128) then
      some ⟨name,size,type⟩
    else none
  | _, _, _ => none

/-! ## Extended headers -/

/-- What an extended header says about the entry after it. -/
structure Extended where
  path : Option Bytes
  size : Option ℕ
  deriving DecidableEq, Repr

def Extended.empty : Extended := ⟨none,none⟩

/-- A decimal number. -/
def number (digits : Bytes) : Option ℕ :=
  if digits ≠ [] ∧ digits.all (isDigit 10) then some (digitsValue 10 digits) else none

/-- A record `length key=value` with a newline at its end, which the length counts with its own
digits. -/
def record (data : Bytes) : Option ((Bytes × Bytes) × Bytes) :=
  let digits := data.takeWhile (isDigit 10)
  let length := digitsValue 10 digits
  let body := (data.take length).drop (digits.length + 1)
  if digits ≠ [] ∧ length ≤ data.length ∧ data[digits.length]? = some 32 ∧ body.getLast? = some 10 then
    let key := body.takeWhile (· != 61)
    match body.dropLast.drop key.length with
    | [] => none
    | b :: value => if b = 61 then some ((key,value),data.drop length) else none
  else none

/-- `path` and `size`. -/
def pathKey : Bytes := [112,97,116,104]
def sizeKey : Bytes := [115,105,122,101]

def records : (left : ℕ) → Extended → Bytes → Option Extended
  | _, ext, [] => some ext
  | 0, _, _ :: _ => none
  | left + 1, ext, b :: data =>
    match record (b :: data) with
    | none => none
    | some ((key,value),rest) =>
      if key = pathKey then records left { ext with path := some value } rest
      else if key = sizeKey then
        match number value with
        | none => none
        | some n => records left { ext with size := some n } rest
      else records left ext rest

/-! ## Entries -/

def blockSize : ℕ := 512

/-- What `size` bytes take in blocks. -/
def padded (size : ℕ) : ℕ := (size + 511) / 512 * 512

/-- The next `size` bytes, filled up with zeros, and what is behind them. -/
def takeData (size : ℕ) (bytes : Bytes) : Option (Bytes × Bytes) :=
  if padded size ≤ bytes.length ∧ ((bytes.take (padded size)).drop size).all (· == 0) then
    some (bytes.take size,bytes.drop (padded size))
  else none

/-- A directory may have a slash after its name. -/
def dirName (name : Bytes) : Bytes := if name.getLast? = some 47 then name.dropLast else name

/-- The entries, with an extended header for the first. -/
def entries : (left : ℕ) → Extended → Bytes → Option (List Entry)
  | 0, _, _ => none
  | left + 1, ext, bytes =>
    let block := bytes.take blockSize
    let rest := bytes.drop blockSize
    if block.all (· == 0) then
      if bytes = List.replicate (2 * blockSize) 0 ∧ ext = .empty then some [] else none
    else
      match header block with
      | none => none
      | some h =>
        if h.type = 120 then
          match takeData h.size rest with
          | none => none
          | some (data,rest) =>
            match records data.length .empty data with
            | none => none
            | some ext => entries left ext rest
        else if h.type = 48 then
          let size := ext.size.getD h.size
          match takeData size rest with
          | none => none
          | some (content,rest) =>
            (entries left .empty rest).map (⟨ext.path.getD h.name,.file,size,content⟩ :: ·)
        else if h.type = 53 then
          (entries left .empty rest).map (⟨dirName (ext.path.getD h.name),.directory,0,[]⟩ :: ·)
        else none

/-- The whole of an archive. -/
def read (bytes : Bytes) : Option (List Entry) := entries (bytes.length + 1) .empty bytes

end Ustar
