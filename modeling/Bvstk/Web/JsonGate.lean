import Bvstk.Library.JsonText
import Mathlib.Data.List.Infix

/-! # The JSON gate of the web interface

`bvstk_http_json_object` with what it calls. A text is what stands before the NUL; the scanner
returns what is left of it.
-/
namespace Bvstk.Web.JsonGate

abbrev Text := List UInt8

def quote : UInt8 := 34
def backslash : UInt8 := 92
def letterU : UInt8 := 117
def comma : UInt8 := 44
def colonMark : UInt8 := 58
def braceOpen : UInt8 := 123
def braceClose : UInt8 := 125
def bracketOpen : UInt8 := 91
def bracketClose : UInt8 := 93
def zero : UInt8 := 48

/-- `keys[24]`. -/
def fieldsMax : ℕ := 24

/-- How deep a value may be. -/
def depthMax : ℕ := 7

/-- As many names as there are bits. -/
def tableMax : ℕ := 32

def isWs (c : UInt8) : Bool := c ∈ [32,9,13,10]

def ws (p : Text) : Text := p.dropWhile isWs

def isDigit (c : UInt8) : Bool := decide (48 ≤ c ∧ c ≤ 57)

/-- `hex(c) >= 0`. -/
def isHex (c : UInt8) : Bool := isDigit c || decide (65 ≤ c ∧ c ≤ 70) || decide (97 ≤ c ∧ c ≤ 102)

/-- `"\"\\/bfnrt"`. -/
def shortEscapes : List UInt8 := [34,92,47,98,102,110,114,116]

/-- The loop of `string`: it stops at the quote, or at the end. -/
def stringLoop (key : Bool) : Text → Option Text
  | [] => some []
  | c :: p =>
    if c = quote then some (c :: p)
    else if c < 32 ∨ (key = true ∧ 126 < c) then none
    else if c = backslash then
      if key = true then none
      else match p with
        | [] => none
        | e :: p =>
          if e = letterU then
            match p with
            | h₁ :: h₂ :: h₃ :: h₄ :: p =>
              if isHex h₁ = true ∧ isHex h₂ = true ∧ isHex h₃ = true ∧ isHex h₄ = true then stringLoop key p else none
            | _ => none
          else if e ∈ shortEscapes then stringLoop key p
          else none
    else stringLoop key p

/-- `string`: what stands between the quotes, and what is left. -/
def string (key : Bool) : Text → Option (Text × Text)
  | [] => none
  | c :: s =>
    if c = quote then
      match stringLoop key s with
      | none => none
      | some p => if p.head? = some quote then some (s.take (s.length - p.length),p.drop 1) else none
    else none

def wordTrue : Text := [116,114,117,101]
def wordFalse : Text := [102,97,108,115,101]

def number (p : Text) : Option Text :=
  match p with
  | [] => none
  | c :: q =>
    if isDigit c = true then
      if c = zero ∧ (∃ d ∈ q.head?, isDigit d = true) then none else some (p.dropWhile isDigit)
    else none

/-- A value that has no others in it. -/
def scalar (p : Text) : Option Text :=
  if p.head? = some quote then (string false p).map Prod.snd
  else if wordTrue <+: p then some (p.drop 4)
  else if wordFalse <+: p then some (p.drop 5)
  else number p

/-- The loop of `value` over the elements of an array, where each turn but the last takes a comma. -/
def elementLoop (item : Text → Option Text) : (fuel : ℕ) → Text → Option Text
  | 0, _ => none
  | fuel + 1, p =>
    match item p with
    | none => none
    | some p =>
      match ws p with
      | [] => none
      | c :: p => if c = bracketClose then some p else if c = comma then elementLoop item fuel p else none

/-- The names that are allowed at the root, and the bits of those that are required. -/
structure Policy where
  allowed : List Text
  required : BitVec 32

/-- The bits of the names seen, with that of a key; only at the root. -/
def mark (policy : Option Policy) (seen : BitVec 32) (key : Text) : Option (BitVec 32) :=
  match policy with
  | none => some seen
  | some policy => (policy.allowed.idxOf? key).map fun k => seen ||| 1#32 <<< k

/-- What an object has to have seen at its end. -/
def Complete (policy : Option Policy) (seen : BitVec 32) : Prop := ∀ p ∈ policy, seen &&& p.required = p.required

instance (policy : Option Policy) (seen : BitVec 32) : Decidable (Complete policy seen) := by
  unfold Complete
  infer_instance

/-- The loop of `value` over the members of an object, with room for `left` more keys. -/
def memberLoop (item : Text → Option Text) (policy : Option Policy) :
    (left : ℕ) → (keys : List Text) → (seen : BitVec 32) → Text → Option Text
  | 0, _, _, _ => none
  | left + 1, keys, seen, p =>
    match string true p with
    | none => none
    | some (key,p) =>
      if key ∈ keys then none
      else match mark policy seen key with
        | none => none
        | some seen =>
          match ws p with
          | [] => none
          | c :: p =>
            if c = colonMark then
              match item p with
              | none => none
              | some p =>
                match ws p with
                | [] => none
                | c :: p =>
                  if c = braceClose then
                    if Complete policy seen then some p else none
                  else if c = comma then memberLoop item policy left (key :: keys) seen (ws p)
                  else none
            else none

/-- `value` of an object, behind its brace. -/
def object (item : Text → Option Text) (policy : Option Policy) (p : Text) : Option Text :=
  if (ws p).head? = some braceClose then
    if Complete policy 0 then some ((ws p).drop 1) else none
  else memberLoop item policy fieldsMax [] 0 (ws p)

/-- `value` of an array, behind its bracket. -/
def array (item : Text → Option Text) (p : Text) : Option Text :=
  if (ws p).head? = some bracketClose then some ((ws p).drop 1)
  else elementLoop item (ws p).length (ws p)

/-- `value`, where `left` levels are left, that of the value itself included. There is a policy at the root only. -/
def value : (left : ℕ) → (policy : Option Policy) → Text → Option Text
  | 0, _, _ => none
  | left + 1, policy, p =>
    match ws p with
    | [] => none
    | c :: q =>
      if c = braceOpen then object (value left none) policy q
      else if c = bracketOpen then array (value left none) q
      else scalar (c :: q)

/-- `bvstk_http_json_object`. -/
def httpJsonObject (json : Text) (keys : List Text) (required : BitVec 32) : Bool :=
  if tableMax < keys.length then false
  else if (ws json).head? ≠ some braceOpen then false
  else match value (depthMax + 1) (some ⟨keys,required⟩) (ws json) with
    | none => false
    | some p => decide (ws p = [])

end Bvstk.Web.JsonGate
