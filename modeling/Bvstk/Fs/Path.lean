import Mathlib.Data.List.Basic

/-! # Paths

The path rules of `bvstk_fs_reader.c`: names in UTF-8 without reserved characters, and
the canonical form of a path such as `sd:/a/b`.
-/
namespace Bvstk.Fs

/-- The bytes of a path or a name, without the NUL. -/
abbrev Path := List UInt8

def pathCapacity : ℕ := 512
def slash : UInt8 := 47
def colon : UInt8 := 58

/-- `bvstk_fs_result_t` but for `BVSTK_FS_OK`. -/
inductive FsError where
  | invalid | range | notFound | notReady | typeError | io | changed | busy | unsupported
  deriving DecidableEq, Repr

/-! ## UTF-8 -/

/-- Length, first bits and smallest code point of a sequence of several bytes. -/
def utf8Lead (b : UInt8) : Option (ℕ × ℕ × ℕ) :=
  if 0xC2 ≤ b ∧ b ≤ 0xDF then some (2,(b &&& 31).toNat,0x80)
  else if 0xE0 ≤ b ∧ b ≤ 0xEF then some (3,(b &&& 15).toNat,0x800)
  else if 0xF0 ≤ b ∧ b ≤ 0xF4 then some (4,(b &&& 7).toNat,0x10000)
  else none

/-- Takes over the bits of `n` continuation bytes. -/
def utf8Tail : (n : ℕ) → List UInt8 → (value : ℕ) → Option ℕ
  | 0, _, value => some value
  | _ + 1, [], _ => none
  | n + 1, b :: data, value =>
    if b &&& 0xC0 ≠ 0x80 then none else utf8Tail n data (value * 64 + (b &&& 63).toNat)

/-- `bvstk_fs_utf8_decode`: the number of bytes used and the code point. -/
def utf8Decode : List UInt8 → Option (ℕ × ℕ)
  | [] => none
  | b :: data =>
    if b < 0x80 then some (1,b.toNat)
    else
      match utf8Lead b with
      | none => none
      | some (n,value,minimum) =>
        match utf8Tail (n - 1) data value with
        | none => none
        | some cp =>
          if cp < minimum ∨ 0x10FFFF < cp ∨ (0xD800 ≤ cp ∧ cp ≤ 0xDFFF) then none else some (n,cp)

/-! ## Components -/

/-- Control characters and those in `/\:*?"<>|`. -/
def reserved (cp : ℕ) : Bool :=
  decide (cp < 32 ∨ cp = 127) || [47,92,58,42,63,34,60,62,124].contains cp

/-- The loop over the characters; each takes at least one of the bytes left. -/
def charactersValid : (left : ℕ) → List UInt8 → Bool
  | _, [] => true
  | 0, _ => false
  | left + 1, name =>
    match utf8Decode name with
    | none => false
    | some (used,cp) => !reserved cp && charactersValid left (name.drop used)

def validComponent (name : Path) : Bool :=
  decide (name ≠ [] ∧ name ≠ [46] ∧ name ≠ [46,46]) && charactersValid name.length name

/-- The loop over the components, `component` being what has been read of the present
one. Only the last may be empty. -/
def componentsValid : (component : Path) → List UInt8 → Bool
  | component, [] => component.isEmpty || validComponent component
  | component, c :: data =>
    if c = slash then validComponent component && componentsValid [] data
    else componentsValid (component ++ [c]) data

def volumeChar (c : UInt8) : Bool := decide ((97 ≤ c ∧ c ≤ 122) ∨ (48 ≤ c ∧ c ≤ 57) ∨ c = 45)

/-- `bvstk_fs_validate_path`: the canonical path, without a trailing separator unless it
is the root of a volume. -/
def validatePath (data : List UInt8) : Except FsError Path :=
  let volume := data.takeWhile (· != colon)
  if data = [] then .error .invalid
  else if pathCapacity ≤ data.length then .error .range
  else if volume.all volumeChar = false ∨ volume = [] ∨ 16 ≤ volume.length then .error .invalid
  else
    match data.drop (volume.length + 1) with
    | [] => .error .invalid
    | c :: names =>
      if c ≠ slash ∨ componentsValid [] names = false then .error .invalid
      else if names.getLast? = some slash then .ok data.dropLast
      else .ok data

end Bvstk.Fs
