import Mathlib.Data.List.Basic
import Mathlib.Data.Nat.Notation

/-! # JSON texts

The grammar of JSON on the bytes of a text in UTF-8: the pieces of a string token and the
characters they denote, and the values that are nested at most a number of containers deep.
-/
namespace JsonText

abbrev Bytes := List UInt8

/-- A string of characters in UTF-8. -/
def utf8 (cs : List Char) : Bytes := cs.flatMap String.utf8EncodeChar

@[simp] theorem utf8_nil : utf8 [] = [] := rfl
@[simp] theorem utf8_cons (c : Char) (cs : List Char) : utf8 (c :: cs) = String.utf8EncodeChar c ++ utf8 cs := rfl

/-! ## Strings -/

/-- `d` is the value of the hexadecimal digit `b`. -/
def HexDigit (b : UInt8) (d : ℕ) : Prop :=
  (d < 10 ∧ b.toNat = 48 + d) ∨ (10 ≤ d ∧ d < 16 ∧ (b.toNat = 87 + d ∨ b.toNat = 55 + d))

/-- The number of four hexadecimal digits. -/
def CodeUnit (a b c d : UInt8) (n : ℕ) : Prop :=
  ∃ x y z u, HexDigit a x ∧ HexDigit b y ∧ HexDigit c z ∧ HexDigit d u ∧ n = ((x * 16 + y) * 16 + z) * 16 + u

/-- The letters of the short escapes `" \ / b f n r t`, and what they stand for. -/
def shortEscapes : List (UInt8 × ℕ) := [(34,34),(92,92),(47,47),(98,8),(102,12),(110,10),(114,13),(116,9)]

/-- A piece of a string token: a character as it is, an escape with one letter, or one with
four hexadecimal digits. -/
inductive Piece where
  | plain (c : Char) | short (letter : UInt8) | unicode (a b c d : UInt8)

def Piece.text : Piece → Bytes
  | .plain c => String.utf8EncodeChar c
  | .short letter => [92,letter]
  | .unicode a b c d => [92,117,a,b,c,d]

/-- Control characters, quotes and backslashes are escaped. -/
def Piece.Valid : Piece → Prop
  | .plain c => 32 ≤ c.toNat ∧ c.toNat ≠ 34 ∧ c.toNat ≠ 92
  | .short letter => ∃ n, (letter,n) ∈ shortEscapes
  | .unicode a b c d => ∃ n, CodeUnit a b c d n

/-- The pieces that stand for one character: two escapes if they form a surrogate pair. A
surrogate that is not in a pair stands for nothing. -/
inductive Stands : List Piece → Char → Prop
  | plain (c : Char) : Stands [.plain c] c
  | short {letter : UInt8} {n : ℕ} (hletter : (letter,n) ∈ shortEscapes) : Stands [.short letter] (Char.ofNat n)
  | unicode {a b c d : UInt8} {n : ℕ} (hunit : CodeUnit a b c d n) (hscalar : n < 0xD800 ∨ 0xDFFF < n) :
      Stands [.unicode a b c d] (Char.ofNat n)
  | pair {a b c d e f g h : UInt8} {high low : ℕ} (hhigh : CodeUnit a b c d high) (hlow : CodeUnit e f g h low)
      (hrange : 0xD800 ≤ high ∧ high ≤ 0xDBFF ∧ 0xDC00 ≤ low ∧ low ≤ 0xDFFF) :
      Stands [.unicode a b c d,.unicode e f g h] (Char.ofNat (0x10000 + (high - 0xD800) * 1024 + (low - 0xDC00)))

/-- The characters a string token denotes. -/
inductive Denotes : List Piece → List Char → Prop
  | nil : Denotes [] []
  | cons {one ps : List Piece} {c : Char} {cs : List Char} (first : Stands one c) (rest : Denotes ps cs) :
      Denotes (one ++ ps) (c :: cs)

def piecesText (ps : List Piece) : Bytes := ps.flatMap Piece.text

/-- The pieces between quotes. -/
def stringToken (ps : List Piece) : Bytes := 34 :: (piecesText ps ++ [34])

/-! ## Numbers -/

def IsDigit (b : UInt8) : Prop := 48 ≤ b ∧ b ≤ 57

/-- One digit or more. -/
def Digits (text : Bytes) : Prop := text ≠ [] ∧ ∀ b ∈ text, IsDigit b

/-- Digits without a leading zero. -/
def IntPart (text : Bytes) : Prop := Digits text ∧ (text.head? = some 48 → text = [48])

/-- A point and digits, or nothing. -/
def FracPart (text : Bytes) : Prop := text = [] ∨ ∃ digits, text = 46 :: digits ∧ Digits digits

/-- `e` or `E`, a sign or none, and digits; or nothing. -/
def ExpPart (text : Bytes) : Prop :=
  text = [] ∨ ∃ letter sign digits, text = letter :: (sign ++ digits) ∧ (letter = 101 ∨ letter = 69) ∧
    (sign = [] ∨ sign = [43] ∨ sign = [45]) ∧ Digits digits

def Number (text : Bytes) : Prop :=
  ∃ minus int frac exp, text = minus ++ int ++ frac ++ exp ∧ (minus = [] ∨ minus = [45]) ∧ IntPart int ∧
    FracPart frac ∧ ExpPart exp

/-! ## Values -/

/-- Blanks, tabs and ends of lines. -/
def IsBlank (b : UInt8) : Prop := b = 32 ∨ b = 9 ∨ b = 10 ∨ b = 13

def Blank (text : Bytes) : Prop := ∀ b ∈ text, IsBlank b

/-- `true`, `false` and `null`. -/
def literals : List Bytes := [[116,114,117,101],[102,97,108,115,101],[110,117,108,108]]

/-- A value in an array, with the blanks around it. -/
structure Element where
  before : Bytes
  value : Bytes
  after : Bytes

def Element.text (e : Element) : Bytes := e.before ++ e.value ++ e.after

/-- A name and a value in an object: blanks stand before the name and on both sides of the
colon and after the value. -/
structure Member where
  before : Bytes
  name : List Piece
  middle : Bytes
  element : Element

def Member.text (m : Member) : Bytes := m.before ++ stringToken m.name ++ m.middle ++ 58 :: m.element.text

/-- What stands between the brackets of a container that is not empty. -/
def commas (texts : List Bytes) : Bytes := [44].intercalate texts

/-- A value in which no container is nested more than `n` deep, counting itself, and every
string token is `ok`. -/
inductive Value (ok : List Piece → Prop) : ℕ → Bytes → Prop
  | literal {n : ℕ} {text : Bytes} (h : text ∈ literals) : Value ok n text
  | number {n : ℕ} {text : Bytes} (h : Number text) : Value ok n text
  | string {n : ℕ} {ps : List Piece} (hvalid : ∀ p ∈ ps, p.Valid) (hok : ok ps) : Value ok n (stringToken ps)
  | emptyArray {n : ℕ} {blank : Bytes} (hblank : Blank blank) : Value ok (n + 1) (91 :: (blank ++ [93]))
  | emptyObject {n : ℕ} {blank : Bytes} (hblank : Blank blank) : Value ok (n + 1) (123 :: (blank ++ [125]))
  | array {n : ℕ} {elements : List Element} (hne : elements ≠ [])
      (hblank : ∀ e ∈ elements, Blank e.before ∧ Blank e.after) (hvalue : ∀ e ∈ elements, Value ok n e.value) :
      Value ok (n + 1) (91 :: (commas (elements.map Element.text) ++ [93]))
  | object {n : ℕ} {members : List Member} (hne : members ≠ [])
      (hblank : ∀ m ∈ members, Blank m.before ∧ Blank m.middle ∧ Blank m.element.before ∧ Blank m.element.after)
      (hname : ∀ m ∈ members, (∀ p ∈ m.name, p.Valid) ∧ ok m.name)
      (hvalue : ∀ m ∈ members, Value ok n m.element.value) :
      Value ok (n + 1) (123 :: (commas (members.map Member.text) ++ [125]))

/-- A text with an object on top. -/
def ObjectText (ok : List Piece → Prop) (n : ℕ) (text : Bytes) : Prop :=
  ∃ before value after, text = before ++ value ++ after ∧ Blank before ∧ Blank after ∧ Value ok n value ∧
    value.head? = some 123

end JsonText
