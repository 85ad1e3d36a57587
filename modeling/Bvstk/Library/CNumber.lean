import Mathlib.Data.List.Basic
import Mathlib.Data.Nat.Notation

/-! # Numbers in text

`strtoul` of the C library on bytes: blanks, a sign, a prefix, then digits.
-/
namespace CNumber

def isSpace (c : UInt8) : Bool := c == 32 || decide (9 ≤ c ∧ c ≤ 13)

/-- The value of a digit or letter; anything else is no digit in any base. -/
def digitValue (c : UInt8) : ℕ :=
  if 48 ≤ c ∧ c ≤ 57 then c.toNat - 48
  else if 97 ≤ c ∧ c ≤ 122 then c.toNat - 87
  else if 65 ≤ c ∧ c ≤ 90 then c.toNat - 55
  else 36

/-- The digits at the start of a text and what follows them. -/
def digits (base : ℕ) : ℕ → List UInt8 → ℕ × List UInt8
  | v, [] => (v,[])
  | v, c :: s => if digitValue c < base then digits base (v * base + digitValue c) s else (v,c :: s)

/-- `0x` in front of a hexadecimal digit. -/
def hexPrefix (s : List UInt8) : Bool :=
  match s with
  | z :: x :: d :: _ => z == 48 && (x == 120 || x == 88) && decide (digitValue d < 16)
  | _ => false

/-- A number that was read: its value, whether it was too large, and the text behind it. -/
structure Number where
  value : ℕ
  tooLarge : Bool
  rest : List UInt8
  deriving DecidableEq, Repr

/-- `strtoul` for words up to `largest`. Nothing if there are no digits; base `0` takes the
base from the prefix. -/
def strtoul (largest : ℕ) (text : List UInt8) (base : ℕ) : Option Number :=
  let s := text.dropWhile isSpace
  let negative := s.head? == some 45
  let s := if s.head? = some 45 ∨ s.head? = some 43 then s.drop 1 else s
  let hex := decide (base = 0 ∨ base = 16) && hexPrefix s
  let base := if hex then 16 else if base = 0 then (if s.head? = some 48 then 8 else 10) else base
  let s := if hex then s.drop 2 else s
  match s with
  | [] => none
  | c :: _ =>
    if base ≤ digitValue c then none
    else
      let (v,rest) := digits base 0 s
      if largest < v then some ⟨largest,true,rest⟩
      else some ⟨if negative then (largest + 1 - v) % (largest + 1) else v,false,rest⟩

end CNumber
