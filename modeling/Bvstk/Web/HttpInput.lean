import Bvstk.Library.BoundedNumber

/-! # Queries, numbers and paths of web requests

`bvstk_http_query`, `bvstk_http_uint` and `bvstk_http_path`. A text is what stands before the NUL.
-/
namespace Bvstk.Web.HttpInput

abbrev Text := List UInt8

def percent : UInt8 := 37
def plus : UInt8 := 43
def blank : UInt8 := 32
def slash : UInt8 := 47
def dot : UInt8 := 46
def equalsSign : UInt8 := 61
def ampersand : UInt8 := 38
def questionMark : UInt8 := 63

/-- `name[40]`. -/
def nameSize : ℕ := 40

/-! ## Queries -/

/-- `hex`; nothing where it is -1. -/
def hex (c : UInt8) : Option UInt8 :=
  if 48 ≤ c ∧ c ≤ 57 then some (c - 48)
  else if 97 ≤ c ∧ c ≤ 102 then some (c - 97 + 10)
  else if 65 ≤ c ∧ c ≤ 70 then some (c - 65 + 10)
  else none

/-- A control character. -/
def isControl (c : UInt8) : Bool := decide (c < 32 ∨ c = 127)

/-- The loop of `decode`, with `out[0..n)` decoded; the buffer keeps one byte for the NUL. -/
def decodeLoop (cap : ℕ) : (out : Text) → Text → Option Text
  | out, [] => if cap = 0 then none else some out
  | out, c :: p =>
    if c = percent then
      match p with
      | a :: b :: p =>
        match hex a, hex b with
        | some x, some y =>
          if isControl (x <<< 4 ||| y) = true ∨ cap ≤ out.length + 1 then none
          else decodeLoop cap (out ++ [x <<< 4 ||| y]) p
        | _, _ => none
      | _ => none
    else
      let c := if c = plus then blank else c
      if isControl c = true ∨ cap ≤ out.length + 1 then none else decodeLoop cap (out ++ [c]) p

def decode (cap : ℕ) (p : Text) : Option Text := decodeLoop cap [] p

/-- The field `[p, end)`: its name, decoded, and what stands behind the first `=`. -/
def fieldName (field : Text) : Option (Text × Text) :=
  if equalsSign ∈ field then
    (decode nameSize (field.takeWhile (· ≠ equalsSign))).map (·,(field.dropWhile (· ≠ equalsSign)).drop 1)
  else none

/-- One field, with the value that was found so far. -/
def queryField (key : Text) (cap : ℕ) (found : Option Text) (field : Text) : Option (Option Text) :=
  match fieldName field with
  | none => none
  | some (name,value) =>
    if name = key then
      if found.isSome = true then none else (decode cap value).map some
    else some found

/-- The loop over the fields: at most one field for each byte. -/
def queryLoop (key : Text) (cap : ℕ) : (left : ℕ) → (found : Option Text) → Text → Option (Option Text)
  | _, found, [] => some found
  | 0, _, _ => none
  | left + 1, found, c :: p =>
    let field := (c :: p).takeWhile (· ≠ ampersand)
    match queryField key cap found field with
    | none => none
    | some found => queryLoop key cap left found (((c :: p).dropWhile (· ≠ ampersand)).drop 1)

/-- `bvstk_http_query`: nothing for -1, otherwise the value if there is one. -/
def query (url key : Text) (cap : ℕ) : Option (Option Text) :=
  if cap = 0 then none
  else
    match url.dropWhile (· ≠ questionMark) with
    | [] => some none
    | _ :: p => queryLoop key cap p.length none p

/-! ## Numbers -/

/-- `(uint32_t)(*p - '0')` of a digit. -/
def decimalDigit (c : UInt8) : Option UInt32 :=
  if 48 ≤ c ∧ c ≤ 57 then some (c - 48).toUInt32 else none

/-- `bvstk_http_uint`. -/
def uint (p : Text) (max : UInt32) : Option UInt32 :=
  match p with
  | [] => none
  | c :: p => BoundedNumber.digitsLoop decimalDigit 10 max 0 (c :: p)

/-! ## Paths -/

/-- `:\*?"<>|`. -/
def reserved : Text := [58,92,42,63,34,60,62,124]

/-- The check at the end of a component: `start[0..len)`, of which `last` is the last byte. -/
def componentEnds (component : Text) : Bool :=
  decide (component ≠ [] ∧ component.length ≤ 63 ∧ component ≠ [dot] ∧ component ≠ [dot,dot] ∧
    component.getLast? ≠ some blank ∧ component.getLast? ≠ some dot)

/-- The loop: `component` stands before `p`. -/
def pathLoop : (component : Text) → Text → Bool
  | component, [] => componentEnds component
  | component, c :: p =>
    if c = slash then componentEnds component && pathLoop [] p
    else if isControl c = true ∨ c ∈ reserved then false
    else pathLoop (component ++ [c]) p

/-- `bvstk_http_path`. -/
def path (p : Text) : Bool :=
  match p with
  | [] => false
  | c :: p => if c ≠ slash ∨ 120 < (c :: p).length then false else if p = [] then true else pathLoop [] p

end Bvstk.Web.HttpInput
