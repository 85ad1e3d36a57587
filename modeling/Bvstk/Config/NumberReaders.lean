import Bvstk.Config.JsonStrings
import Bvstk.Config.MdioReading
import Bvstk.Web.HttpInput

/-! # The bounded number readers

`number` and `hex` of the profile codec and `number` of the MDIO codec, on words of 32 bits. With
`bvstk_http_uint` they are four uses of one loop; they differ in what stands around the digits.
-/
namespace Bvstk.Config
open BoundedNumber
open JsonText (Denotes HexDigit IntPart IsDigit Piece stringToken utf8)
open Web.HttpInput (decimalDigit)

/-! ## The profile codec -/

/-- `hex_digit`; nothing where it is -1. -/
def hexWord (c : UInt8) : Option UInt32 := (hexDigit c).map UInt32.ofNat

/-- `number`, on the view of a value. -/
def number (view : Bytes) (max : UInt32) : Option UInt32 :=
  match view with
  | [] => none
  | c :: p => if p ≠ [] ∧ c = 48 then none else digitsLoop decimalDigit 10 max 0 (c :: p)

/-- `text`: a string without control characters, in a buffer of `cap` bytes. -/
def text (cap : ℕ) (view : Bytes) : Option Bytes :=
  match string (some cap) view with
  | some (out,[]) => if out.all (fun c => decide (32 ≤ c ∧ c ≠ 127)) = true then some out else none
  | _ => none

/-- `hex`, on the view of a value; its buffer has 19 bytes. -/
def hex (view : Bytes) (max : UInt32) : Option UInt32 :=
  match text 19 view with
  | some (48 :: 120 :: c :: p) => digitsLoop hexWord 16 max 0 (c :: p)
  | _ => none

namespace MdioJson

/-- `number` of the MDIO codec on words. -/
def numberWord (max : UInt32) (p : Text) : Option (UInt32 × Text) :=
  match ws p with
  | [] => none
  | c :: p =>
    if digit c = false then none
    else if c = 48 ∧ p.head?.any digit = true then none
    else runLoop decimalDigit 10 max 0 (c :: p)

end MdioJson

/-! ## Digits -/

/-- `d` is the value of the decimal digit `b`. -/
def DecimalDigit (b : UInt8) (d : ℕ) : Prop := d < 10 ∧ b.toNat = 48 + d

theorem decimalDigit_of_digit {c : UInt8} (hc : 48 ≤ c ∧ c ≤ 57) :
    decimalDigit c = some (c - 48).toUInt32 ∧ (c - 48).toUInt32.toNat = c.toNat - 48 := by
  constructor
  · exact if_pos hc
  · rw [UInt8.toNat_toUInt32]
    exact UInt8.toNat_sub_of_le _ _ hc.1

theorem finds_decimal : Finds decimalDigit DecimalDigit := by
  intro c v
  by_cases hc : 48 ≤ c ∧ c ≤ 57
  · obtain ⟨hdigit,hvalue⟩ := decimalDigit_of_digit hc
    obtain ⟨hlow,hhigh⟩ := hc
    rw [UInt8.le_iff_toNat_le] at hlow hhigh
    change 48 ≤ c.toNat at hlow
    change c.toNat ≤ 57 at hhigh
    simp only [hdigit,Option.some.injEq,exists_eq_left',hvalue,DecimalDigit]
    omega
  · have hnone : decimalDigit c = none := if_neg hc
    simp only [UInt8.le_iff_toNat_le] at hc
    change ¬(48 ≤ c.toNat ∧ c.toNat ≤ 57) at hc
    simp only [hnone,DecimalDigit,reduceCtorEq,false_and,exists_false,iff_false]
    omega

theorem finds_hex : Finds hexWord HexDigit := by
  intro c v
  rw [← hexDigit_iff]
  simp only [hexWord,Option.map_eq_some_iff]
  constructor
  · intro hv
    have hlt : v < 2 ^ 32 := by
      have hdigit := hexDigit_iff.1 hv
      unfold HexDigit at hdigit
      omega
    exact ⟨UInt32.ofNat v,⟨v,hv,Eq.refl _⟩,UInt32.toNat_ofNat_of_lt' hlt⟩
  · rintro ⟨d,⟨w,hw,rfl⟩,rfl⟩
    have hlt : w < 2 ^ 32 := by
      have hdigit := hexDigit_iff.1 hw
      unfold HexDigit at hdigit
      omega
    rw [hw,UInt32.toNat_ofNat_of_lt' hlt]

/-- A decimal numeral. -/
abbrev Decimal : Bytes → ℕ → Prop := Numeral 10 DecimalDigit

/-- A hexadecimal numeral, of digits and letters of both cases. -/
abbrev Hexadecimal : Bytes → ℕ → Prop := Numeral 16 HexDigit

theorem decimal_isDigit {ds : Bytes} {n : ℕ} (h : Decimal ds n) : ∀ c ∈ ds, IsDigit c := by
  intro c hc
  obtain ⟨v,hv,hbyte⟩ := h.digit c hc
  rw [IsDigit,UInt8.le_iff_toNat_le,UInt8.le_iff_toNat_le]
  change 48 ≤ c.toNat ∧ c.toNat ≤ 57
  omega

theorem finds_isSome {c : UInt8} (hc : IsDigit c) : (decimalDigit c).isSome = true := by
  rw [(decimalDigit_of_digit hc).1]
  exact Eq.refl _

theorem finds_none {c : UInt8} (hc : digit c = false) : decimalDigit c = none :=
  if_neg (of_decide_eq_false hc)

/-! ## Whole texts -/

/-- `bvstk_http_uint` takes any digits. -/
theorem uint_iff (p : Bytes) (max n : UInt32) :
    Web.HttpInput.uint p max = some n ↔ p ≠ [] ∧ Decimal p n.toNat ∧ n.toNat ≤ max.toNat := by
  cases p with
  | nil => simp [Web.HttpInput.uint]
  | cons c p =>
    have hloop : Web.HttpInput.uint (c :: p) max = digitsLoop decimalDigit 10 max 0 (c :: p) := Eq.refl _
    rw [hloop,digitsLoop_iff (by decide) finds_decimal]
    simp only [ne_eq,reduceCtorEq,not_false_eq_true,true_and]
    exact and_comm

/-- `number` of the profile codec takes a numeral without a redundant zero. -/
theorem number_iff (view : Bytes) (max n : UInt32) :
    number view max = some n ↔ IntPart view ∧ Decimal view n.toNat ∧ n.toNat ≤ max.toNat := by
  cases view with
  | nil => simp [number,IntPart,JsonText.Digits]
  | cons c p =>
    rw [number]
    split
    · rename_i hzero
      constructor
      · exact fun hnone => nomatch hnone
      · rintro ⟨⟨-,hlead⟩,-⟩
        rw [hzero.2] at hlead
        exact absurd (List.cons.inj (hlead (Eq.refl _))).2 hzero.1
    · rename_i hlead
      rw [digitsLoop_iff (by decide) finds_decimal]
      constructor
      · rintro ⟨hle,hdec⟩
        refine ⟨⟨⟨List.cons_ne_nil _ _,decimal_isDigit hdec⟩,fun hhead => ?_⟩,hdec,hle⟩
        have hc : c = 48 := Option.some.inj hhead
        by_cases hp : p = []
        · rw [hc,hp]
        · exact absurd ⟨hp,hc⟩ hlead
      · exact fun h => ⟨h.2.2,h.2.1⟩

/-! ## What a buffer takes -/

section Buffer
variable {cap : Option ℕ} {out out' : Bytes}

theorem emit_fits {c : UInt8} (h : emit cap out c = some out') : Fits cap out'.length := by
  intro size hsize
  obtain rfl := hsize
  have hout := emit_some h
  have hroom : ¬(some size).any (· ≤ out.length + 1) = true := by
    intro hfull
    rw [emit,if_pos hfull] at h
    cases h
  rw [hout,List.length_append,List.length_singleton]
  simpa using hroom

theorem emits_fits {bytes : Bytes} (h : bytes.foldlM (emit cap) out = some out') (hout : Fits cap out.length) :
    Fits cap out'.length := by
  induction bytes generalizing out with
  | nil =>
    obtain rfl : out = out' := by simpa using h
    exact hout
  | cons c bytes ih =>
    rw [List.foldlM_cons,Option.bind_eq_bind,Option.bind_eq_some_iff] at h
    obtain ⟨mid,hfirst,hrest⟩ := h
    exact ih hrest (emit_fits hfirst)

theorem codepoint_fits {cp : ℕ} (h : codepoint cap out cp = some out') (hout : Fits cap out.length) :
    Fits cap out'.length := by
  unfold codepoint at h
  split at h
  · cases h
  split at h
  · exact emit_fits h
  split at h
  · exact emits_fits h hout
  split at h
  · exact emits_fits h hout
  · exact emits_fits h hout

theorem character_fits {b : UInt8} {input rest : Bytes} (h : character cap out b input = some (out',rest))
    (hout : Fits cap out.length) : Fits cap out'.length := by
  unfold character at h
  split at h
  · cases h
  split at h
  · split at h
    · cases h
    split at h
    · split at h
      · cases h
      · obtain ⟨found,hfound,heq⟩ := Option.map_eq_some_iff.1 h
        obtain rfl := (Prod.mk.inj heq).1
        exact codepoint_fits hfound hout
    · split at h
      · cases h
      · obtain ⟨found,hfound,heq⟩ := Option.map_eq_some_iff.1 h
        obtain rfl := (Prod.mk.inj heq).1
        exact emit_fits hfound
  split at h
  · split at h
    · cases h
    split at h
    · cases h
    split at h
    · cases h
    · obtain ⟨found,hfound,heq⟩ := Option.map_eq_some_iff.1 h
      obtain rfl := (Prod.mk.inj heq).1
      exact codepoint_fits hfound hout
  · obtain ⟨found,hfound,heq⟩ := Option.map_eq_some_iff.1 h
    obtain rfl := (Prod.mk.inj heq).1
    exact emit_fits hfound

theorem characters_fits {left : ℕ} {input rest : Bytes} (h : characters cap left out input = some (out',rest))
    (hout : Fits cap out.length) : Fits cap out'.length := by
  induction left generalizing out input with
  | zero => cases input <;> cases h
  | succ left ih =>
    cases input with
    | nil => cases h
    | cons b input =>
      rw [characters] at h
      split at h
      · obtain rfl := (Prod.mk.inj (Option.some.inj h)).1
        exact hout
      · split at h
        · cases h
        · rename_i hcharacter
          exact ih h (character_fits hcharacter hout)

theorem string_fits {input rest : Bytes} (h : string cap input = some (out,rest)) (hcap : Fits cap 0) :
    Fits cap out.length := by
  cases input with
  | nil => cases h
  | cons b input =>
    rw [string] at h
    split at h
    · exact characters_fits h hcap
    · cases h

end Buffer

/-! ## Digits in a string -/

/-- A view that is a string token for some bytes. -/
def Spells (view bytes : Bytes) : Prop :=
  ∃ ps cs, Denotes ps cs ∧ (∀ p ∈ ps, Piece.Valid p) ∧ view = stringToken ps ∧ utf8 cs = bytes

theorem utf8_noNul {cs : List Char} (h : ∀ b ∈ utf8 cs, b ≠ 0) : ∀ c ∈ cs, c.toNat ≠ 0 := by
  intro c hc hzero
  have hchar : c = Char.ofNat 0 := by
    apply Char.ext
    apply UInt32.toNat_inj.1
    exact hzero
  have hbyte : (0 : UInt8) ∈ String.utf8EncodeChar c := by
    rw [hchar]
    decide
  exact h 0 (List.mem_flatMap.2 ⟨c,hc,hbyte⟩) (Eq.refl _)

/-- Bytes that are no control characters are what `text` finds if and only if the view spells them. -/
theorem text_iff {cap : ℕ} (hcap : 0 < cap) {view out : Bytes} : text cap view = some out ↔
    Spells view out ∧ out.length < cap ∧ ∀ b ∈ out, 32 ≤ b ∧ b ≠ 127 := by
  constructor
  · intro h
    unfold text at h
    split at h
    · rename_i bytes hstring
      split at h
      · rename_i hall
        obtain rfl := Option.some.inj h
        obtain ⟨ps,cs,hps,hvalid,-,htext,hout⟩ := string_some hstring
        refine ⟨⟨ps,cs,hps,hvalid,by rw [htext,List.append_nil],hout.symm⟩,?_,?_⟩
        · refine string_fits hstring ?_ cap (Eq.refl _)
          rintro size ⟨⟩
          exact hcap
        · simpa using hall
      · cases h
    · cases h
  · rintro ⟨⟨ps,cs,hps,hvalid,rfl,rfl⟩,hlength,hplain⟩
    have hnul : ∀ c ∈ cs, c.toNat ≠ 0 := by
      apply utf8_noNul
      rintro b hb rfl
      exact absurd (hplain 0 hb).1 (by decide)
    have hfits : Fits (some cap) (utf8 cs).length := by
      intro c hc
      obtain rfl := Option.some.inj hc
      exact hlength
    have hstring := string_eq hps hvalid hnul hfits []
    rw [List.append_nil] at hstring
    have hall : (utf8 cs).all (fun c => decide (32 ≤ c ∧ c ≠ 127)) = true := by simpa using hplain
    rw [text,hstring]
    exact if_pos hall

theorem hexDigit_plain {b : UInt8} {d : ℕ} (h : HexDigit b d) : 32 ≤ b ∧ b ≠ 127 := by
  have hvalue : 48 ≤ b.toNat ∧ b.toNat ≤ 102 := by
    unfold HexDigit at h
    omega
  constructor
  · rw [UInt8.le_iff_toNat_le]
    exact le_trans (by decide) hvalue.1
  · rintro rfl
    exact absurd hvalue.2 (by decide)

/-- `hex` takes `0x` and up to sixteen digits, in any spelling of the string. -/
theorem hex_iff (view : Bytes) (max n : UInt32) : hex view max = some n ↔
    ∃ ds, Spells view (48 :: 120 :: ds) ∧ 1 ≤ ds.length ∧ ds.length ≤ 16 ∧ Hexadecimal ds n.toNat ∧
      n.toNat ≤ max.toNat := by
  constructor
  · intro h
    unfold hex at h
    split at h
    · rename_i c p htext
      obtain ⟨hspells,hlength,-⟩ := (text_iff (by decide)).1 htext
      obtain ⟨hle,hnum⟩ := (digitsLoop_iff (by decide) finds_hex _).1 h
      simp only [List.length_cons] at hlength
      exact ⟨c :: p,hspells,by simp,by simp only [List.length_cons]; omega,hnum,hle⟩
    · cases h
  · rintro ⟨ds,hspells,hone,hmany,hnum,hle⟩
    have htext : text 19 view = some (48 :: 120 :: ds) := by
      rw [text_iff (by decide)]
      refine ⟨hspells,by simp only [List.length_cons]; omega,fun b hb => ?_⟩
      rcases List.mem_cons.1 hb with rfl | hb
      · decide
      rcases List.mem_cons.1 hb with rfl | hb
      · decide
      obtain ⟨d,hd⟩ := hnum.digit b hb
      exact hexDigit_plain hd
    cases ds with
    | nil => exact absurd hone (by decide)
    | cons c p =>
      simp only [hex,htext]
      exact (digitsLoop_iff (by decide) finds_hex _).2 ⟨hle,hnum⟩

/-! ## Digits at the start of a text -/

theorem ws_run (p : Bytes) : ∃ blank, (∀ c ∈ blank, CNumber.isSpace c = true) ∧ p = blank ++ MdioJson.ws p :=
  ⟨p.takeWhile CNumber.isSpace,fun _ hc => List.mem_takeWhile_imp hc,(List.takeWhile_append_dropWhile).symm⟩

theorem digits_run (p : Bytes) : ∃ ds rest, p = ds ++ rest ∧ (∀ c ∈ ds, IsDigit c) ∧ NoDigit rest := by
  refine ⟨p.takeWhile digit,p.dropWhile digit,(List.takeWhile_append_dropWhile).symm,?_,?_⟩
  · exact fun b hb => digit_iff.1 (List.mem_takeWhile_imp hb)
  · intro b hb
    have hnot := List.head?_dropWhile_not digit p
    rw [Option.mem_def.1 hb] at hnot
    exact hnot

theorem digit_notSpace {c : UInt8} (hc : IsDigit c) : CNumber.isSpace c = false := by
  have hlow : 48 ≤ c.toNat := UInt8.le_iff_toNat_le.1 hc.1
  rw [CNumber.isSpace,Bool.or_eq_false_iff]
  constructor
  · apply beq_eq_false_iff_ne.2
    rintro rfl
    exact absurd hlow (by decide)
  · apply decide_eq_false
    rintro ⟨-,hhigh⟩
    have hhigh : c.toNat ≤ 13 := UInt8.le_iff_toNat_le.1 hhigh
    omega

theorem intPart_second {c : UInt8} {ds rest : Bytes} (hint : IntPart (c :: ds)) (hrest : NoDigit rest) :
    ¬(c = 48 ∧ (ds ++ rest).head?.any digit = true) := by
  rintro ⟨rfl,hsecond⟩
  have hds : ds = [] := (List.cons.inj (hint.2 (Eq.refl _))).2
  rw [hds,List.nil_append] at hsecond
  cases rest with
  | nil => cases hsecond
  | cons b rest =>
    have hb : digit b = false := hrest b (Eq.refl _)
    rw [List.head?_cons,Option.any_some,hb] at hsecond
    cases hsecond

/-- `number` of the MDIO codec skips blanks and takes the digits that follow, if they have no
redundant zero. -/
theorem numberWord_iff (p rest : Bytes) (max n : UInt32) : MdioJson.numberWord max p = some (n,rest) ↔
    ∃ blank ds, p = blank ++ (ds ++ rest) ∧ (∀ c ∈ blank, CNumber.isSpace c = true) ∧ IntPart ds ∧ NoDigit rest ∧
      Decimal ds n.toNat ∧ n.toNat ≤ max.toNat := by
  constructor
  · intro h
    obtain ⟨blank,hblank,hp⟩ := ws_run p
    unfold MdioJson.numberWord at h
    split at h
    · cases h
    rename_i c tail hws
    split at h
    · cases h
    rename_i hc
    split at h
    · cases h
    rename_i hlead
    obtain ⟨ds,rest',hcut,hds,hno⟩ := digits_run (c :: tail)
    have hloop := @runLoop_append 10 max 0 decimalDigit ds rest'
      (fun b hb => finds_isSome (hds b hb)) (fun b hb => finds_none (hno b hb))
    rw [← hcut,h] at hloop
    obtain ⟨m,hm,heq⟩ := Option.map_eq_some_iff.1 hloop.symm
    obtain ⟨rfl,rfl⟩ := Prod.mk.inj heq
    obtain ⟨hle,hdec⟩ := (digitsLoop_iff (by decide) finds_decimal _).1 hm
    refine ⟨blank,ds,?_,hblank,⟨⟨?_,hds⟩,?_⟩,hno,hdec,hle⟩
    · rw [hp,hws,hcut]
    · rintro rfl
      exact hc (hno c (by rw [List.nil_append] at hcut; rw [← hcut]; exact Eq.refl _))
    · intro hhead
      obtain ⟨b,ds',rfl⟩ := List.exists_cons_of_ne_nil (show ds ≠ [] by rintro rfl; cases hhead)
      obtain rfl : b = 48 := Option.some.inj hhead
      obtain ⟨hc48,htail⟩ := List.cons.inj hcut
      cases ds' with
      | nil => exact Eq.refl _
      | cons d ds' =>
        have hd : digit d = true := digit_iff.2 (hds d (by simp))
        refine absurd ⟨hc48,?_⟩ hlead
        rw [htail]
        exact hd
  · rintro ⟨blank,ds,rfl,hblank,hint,hrest,hdec,hle⟩
    obtain ⟨⟨hne,hds⟩,-⟩ := id hint
    obtain ⟨c,tail,rfl⟩ := List.exists_cons_of_ne_nil hne
    have hc := hds c List.mem_cons_self
    have hws : MdioJson.ws (blank ++ (c :: tail ++ rest)) = c :: (tail ++ rest) := by
      rw [MdioJson.ws,List.dropWhile_append_of_pos hblank]
      exact List.dropWhile_cons_of_neg (by rw [digit_notSpace hc]; decide)
    have hloop := @runLoop_append 10 max 0 decimalDigit (c :: tail) rest
      (fun b hb => finds_isSome (hds b hb)) (fun b hb => finds_none (hrest b hb))
    have hvalue : digitsLoop decimalDigit 10 max 0 (c :: tail) = some n :=
      (digitsLoop_iff (by decide) finds_decimal _).2 ⟨hle,hdec⟩
    rw [hvalue,List.cons_append] at hloop
    have hdigit : ¬digit c = false := by
      rw [digit_iff.2 hc]
      decide
    rw [MdioJson.numberWord,hws]
    dsimp only
    rw [if_neg hdigit,if_neg (intPart_second hint hrest),hloop]
    exact Eq.refl _

theorem runLoop_toNat (max n : UInt32) (p : Bytes) :
    (runLoop decimalDigit 10 max n p).map (fun found => (found.1.toNat,found.2)) =
      MdioJson.numberDigits max.toNat n.toNat p := by
  induction p generalizing n with
  | nil => exact Eq.refl _
  | cons c p ih =>
    rw [runLoop,MdioJson.numberDigits]
    by_cases hc : digit c = false
    · rw [finds_none hc,if_pos hc]
      exact Eq.refl _
    · have hdigit : 48 ≤ c ∧ c ≤ 57 := of_decide_eq_true (Bool.not_eq_false _ ▸ hc)
      obtain ⟨hd,hvalue⟩ := decimalDigit_of_digit hdigit
      rw [hd,if_neg hc]
      dsimp only
      have hpush : ∀ m : UInt32, push 10 max n (c - 48).toUInt32 = some m ↔
          m.toNat = n.toNat * 10 + (c.toNat - 48) ∧ n.toNat * 10 + (c.toNat - 48) ≤ max.toNat := by
        intro m
        rw [push_eq_some (by decide),hvalue]
        exact Iff.rfl
      by_cases hfits : n.toNat * 10 + (c.toNat - 48) ≤ max.toNat
      · have hword : (UInt32.ofNat (n.toNat * 10 + (c.toNat - 48))).toNat = n.toNat * 10 + (c.toNat - 48) :=
          UInt32.toNat_ofNat_of_lt' (hfits.trans_lt max.toNat_lt)
        rw [(hpush _).2 ⟨hword,hfits⟩,if_neg (by omega)]
        dsimp only
        rw [ih,hword]
      · have hnone : push 10 max n (c - 48).toUInt32 = none := by
          apply Option.eq_none_iff_forall_ne_some.2
          exact fun m hm => hfits ((hpush m).1 hm).2
        rw [hnone,if_pos (by omega)]
        exact Eq.refl _

/-- The codec's other results count in naturals; the words compute the same. -/
theorem numberWord_toNat (max : UInt32) (p : Bytes) :
    (MdioJson.numberWord max p).map (fun found => (found.1.toNat,found.2)) = MdioJson.number max.toNat p := by
  unfold MdioJson.numberWord MdioJson.number
  cases MdioJson.ws p with
  | nil => exact Eq.refl _
  | cons c p =>
    dsimp only
    by_cases hc : digit c = false
    · rw [if_pos hc,if_pos hc]
      exact Eq.refl _
    rw [if_neg hc,if_neg hc]
    by_cases hlead : c = 48 ∧ p.head?.any digit = true
    · rw [if_pos hlead,if_pos hlead]
      exact Eq.refl _
    · rw [if_neg hlead,if_neg hlead]
      exact runLoop_toNat max 0 (c :: p)

/-! ## The four readers -/

/-- Each reader accepts its own kind of digits if their number does not exceed the maximum, and returns
the number. No operation of the loop they share wraps. -/
theorem number_readers_exact :
    (∀ (view : Bytes) (max n : UInt32), number view max = some n ↔
      IntPart view ∧ Decimal view n.toNat ∧ n.toNat ≤ max.toNat) ∧
    (∀ (view : Bytes) (max n : UInt32), hex view max = some n ↔
      ∃ ds, Spells view (48 :: 120 :: ds) ∧ 1 ≤ ds.length ∧ ds.length ≤ 16 ∧ Hexadecimal ds n.toNat ∧
        n.toNat ≤ max.toNat) ∧
    (∀ (p rest : Bytes) (max n : UInt32), MdioJson.numberWord max p = some (n,rest) ↔
      ∃ blank ds, p = blank ++ (ds ++ rest) ∧ (∀ c ∈ blank, CNumber.isSpace c = true) ∧ IntPart ds ∧ NoDigit rest ∧
        Decimal ds n.toNat ∧ n.toNat ≤ max.toNat) ∧
    (∀ (p : Bytes) (max n : UInt32), Web.HttpInput.uint p max = some n ↔
      p ≠ [] ∧ Decimal p n.toNat ∧ n.toNat ≤ max.toNat) ∧
    (∀ max n d : UInt32, Unwrapped 10 max n d ∧ Unwrapped 16 max n d) :=
  ⟨number_iff,hex_iff,numberWord_iff,uint_iff,
    fun max n d => ⟨push_unwrapped (by decide) max n d,push_unwrapped (by decide) max n d⟩⟩

end Bvstk.Config
