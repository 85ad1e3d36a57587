import Bvstk.Config.ProfileMetadata

/-! # The strict JSON reader

The scanner of `bvstk_device_profile.c`: it works on a view of the document and allocates
nothing. Each function takes what is left of the view and hands on what it has not used.
-/
namespace Bvstk.Config

abbrev Bytes := List UInt8

/-- `BVSTK_PROFILE_JSON_MAX`. -/
def profileJsonMax : ℕ := 65536

/-- The containers that may be nested. -/
def depthMax : ℕ := 16

/-! ## Characters -/

def isWs (c : UInt8) : Bool := c == 32 || c == 9 || c == 13 || c == 10

def ws (input : Bytes) : Bytes := input.dropWhile isWs

def hexDigit (c : UInt8) : Option ℕ :=
  if digit c then some (c.toNat - 48)
  else if 97 ≤ c ∧ c ≤ 102 then some (c.toNat - 97 + 10)
  else if 65 ≤ c ∧ c ≤ 70 then some (c.toNat - 65 + 10)
  else none

/-- `emit` behind the bytes in `out`; a buffer of `cap` bytes keeps one for the NUL. -/
def emit (cap : Option ℕ) (out : Bytes) (c : UInt8) : Option Bytes :=
  if cap.any (· ≤ out.length + 1) = true then none else some (out ++ [c])

/-- `codepoint`, with the shifts and masks as arithmetic. -/
def codepoint (cap : Option ℕ) (out : Bytes) (cp : ℕ) : Option Bytes :=
  if cp = 0 ∨ 0x10FFFF < cp ∨ (0xD800 ≤ cp ∧ cp ≤ 0xDFFF) then none
  else if cp < 0x80 then emit cap out (UInt8.ofNat cp)
  else if cp < 0x800 then [UInt8.ofNat (0xC0 + cp / 64),UInt8.ofNat (0x80 + cp % 64)].foldlM (emit cap) out
  else if cp < 0x10000 then
    [UInt8.ofNat (0xE0 + cp / 4096),UInt8.ofNat (0x80 + cp / 64 % 64),UInt8.ofNat (0x80 + cp % 64)].foldlM (emit cap) out
  else
    [UInt8.ofNat (0xF0 + cp / 262144),UInt8.ofNat (0x80 + cp / 4096 % 64),UInt8.ofNat (0x80 + cp / 64 % 64),
      UInt8.ofNat (0x80 + cp % 64)].foldlM (emit cap) out

def hex4 : Bytes → Option (ℕ × Bytes)
  | a :: b :: c :: d :: rest =>
    match hexDigit a, hexDigit b, hexDigit c, hexDigit d with
    | some x, some y, some z, some u => some (((x * 16 + y) * 16 + z) * 16 + u,rest)
    | _, _, _, _ => none
  | _ => none

/-! ## Strings -/

/-- What a letter after a backslash stands for. -/
def shortEscape (c : UInt8) : Option UInt8 :=
  if c = 110 then some 10
  else if c = 114 then some 13
  else if c = 116 then some 9
  else if c = 98 then some 8
  else if c = 102 then some 12
  else if c = 34 ∨ c = 92 ∨ c = 47 then some c
  else none

/-- `\u` and its digits, behind the `u`: the code point. -/
def unicodeEscape (input : Bytes) : Option (ℕ × Bytes) :=
  match hex4 input with
  | none => none
  | some (cp,rest) =>
    if 0xD800 ≤ cp ∧ cp ≤ 0xDBFF then
      match rest with
      | a :: b :: rest =>
        if a = 92 ∧ b = 117 then
          match hex4 rest with
          | none => none
          | some (low,rest) =>
            if low < 0xDC00 ∨ 0xDFFF < low then none else some (0x10000 + (cp - 0xD800) * 1024 + low - 0xDC00,rest)
        else none
      | _ => none
    else some (cp,rest)

/-- What a byte of a longer sequence begins: the bytes to come, its bits of the code point
and the smallest code point. -/
def leadByte (c : UInt8) : Option (ℕ × ℕ × ℕ) :=
  if 0xC2 ≤ c ∧ c ≤ 0xDF then some (1,c.toNat % 32,0x80)
  else if 0xE0 ≤ c ∧ c ≤ 0xEF then some (2,c.toNat % 16,0x800)
  else if 0xF0 ≤ c ∧ c ≤ 0xF4 then some (3,c.toNat % 8,0x10000)
  else none

/-- The loop over the `count` bytes to come. -/
def continuation : (count cp : ℕ) → Bytes → Option (ℕ × Bytes)
  | 0, cp, rest => some (cp,rest)
  | _ + 1, _, [] => none
  | count + 1, cp, next :: rest =>
    if next &&& 0xC0 ≠ 0x80 then none else continuation count (cp * 64 + next.toNat % 64) rest

/-- One iteration of the loop of `string`, at the byte `c`. -/
def character (cap : Option ℕ) (out : Bytes) (c : UInt8) (input : Bytes) : Option (Bytes × Bytes) :=
  if c < 32 then none
  else if c = 92 then
    match input with
    | [] => none
    | e :: rest =>
      if e = 117 then
        match unicodeEscape rest with
        | none => none
        | some (cp,rest) => (codepoint cap out cp).map (·,rest)
      else
        match shortEscape e with
        | none => none
        | some c => (emit cap out c).map (·,rest)
  else if 128 ≤ c then
    match leadByte c with
    | none => none
    | some (count,bits,minimum) =>
      match continuation count bits input with
      | none => none
      | some (cp,rest) => if cp < minimum then none else (codepoint cap out cp).map (·,rest)
  else (emit cap out c).map (·,input)

/-- The loop of `string`, which takes a byte at least each time. -/
def characters (cap : Option ℕ) : (left : ℕ) → (out : Bytes) → Bytes → Option (Bytes × Bytes)
  | _, _, [] => none
  | 0, _, _ => none
  | left + 1, out, c :: input =>
    if c = 34 then some (out,input)
    else
      match character cap out c input with
      | none => none
      | some (out,rest) => characters cap left out rest

/-- `string`: what the token denotes, in a buffer of `cap` bytes if there is one, and what
stands behind the token. -/
def string (cap : Option ℕ) : Bytes → Option (Bytes × Bytes)
  | [] => none
  | c :: input => if c = 34 then characters cap input.length [] input else none

/-! ## Values -/

/-- One digit or more. -/
def digits : Bytes → Option Bytes
  | [] => none
  | c :: input => if digit c then some (input.dropWhile digit) else none

/-- The part of `value` behind the integer part of a number. -/
def fraction : Bytes → Option Bytes
  | [] => some []
  | c :: input => if c = 46 then digits input else some (c :: input)

def exponent : Bytes → Option Bytes
  | [] => some []
  | c :: input =>
    if c = 101 ∨ c = 69 then
      match input with
      | [] => none
      | sign :: rest => if sign = 43 ∨ sign = 45 then digits rest else digits input
    else some (c :: input)

def integer : Bytes → Option Bytes
  | [] => none
  | c :: input => if digit c = false then none else if c = 48 then some input else some (input.dropWhile digit)

/-- The part of `value` for a number. -/
def scanNumber (input : Bytes) : Option Bytes :=
  let unsigned := if input.head? = some 45 then input.drop 1 else input
  (integer unsigned).bind fun rest => (fraction rest).bind exponent

/-- `true` and `null`, and `false`. -/
def wordTrue : Bytes := [116,114,117,101]
def wordNull : Bytes := [110,117,108,108]
def wordFalse : Bytes := [102,97,108,115,101]

/-- The name of a member and its colon. -/
def memberName (input : Bytes) : Option Bytes :=
  match string none input with
  | none => none
  | some (_,rest) =>
    match ws rest with
    | [] => none
    | c :: rest => if c = 58 then some rest else none

/-- The loop of `value` over the members of an object or the elements of an array, which
takes a comma at least each time. -/
def elements (object : Bool) (item : Bytes → Option Bytes) : (left : ℕ) → Bytes → Option Bytes
  | 0, _ => none
  | left + 1, input =>
    match (if object = true then memberName input else some input) with
    | none => none
    | some input =>
      match item input with
      | none => none
      | some input =>
        match ws input with
        | [] => none
        | c :: rest =>
          if c = (if object = true then 125 else 93) then some rest
          else if c = 44 then elements object item left (ws rest)
          else none

/-- `value`, where `left` more containers may be nested: what stands behind the value. -/
def value : (left : ℕ) → Bytes → Option Bytes
  | left, input =>
    match ws input with
    | [] => none
    | c :: rest =>
      if c = 34 then (string none (c :: rest)).map Prod.snd
      else if c = 91 ∨ c = 123 then
        match left with
        | 0 => none
        | left + 1 =>
          let body := ws rest
          if body.head? = some (if c = 123 then 125 else 93) then some (body.drop 1)
          else elements (c == 123) (value left) (body.length + 1) body
      else if wordTrue.isPrefixOf (c :: rest) = true ∨ wordNull.isPrefixOf (c :: rest) = true then some (rest.drop 3)
      else if wordFalse.isPrefixOf (c :: rest) = true then some (rest.drop 4)
      else scanNumber (c :: rest)

/-- `document`: the view of the object on top of the bytes up to the NUL. -/
def document (json : Bytes) : Option Bytes :=
  let text := json.takeWhile (· != 0)
  if profileJsonMax < text.length then none
  else
    let start := ws text
    if start.head? = some 123 then
      match value depthMax start with
      | none => none
      | some rest => if ws rest = [] then some (start.take (start.length - rest.length)) else none
    else none

end Bvstk.Config
