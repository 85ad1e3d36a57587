import Bvstk.Config.I2cJson
import Bvstk.Config.ProfileVersion
import Mathlib.Algebra.Group.Nat.Defs

/-! # Printed texts

What the two writers of device files print, as JSON: decimal numbers, quoted words, lists and
objects. Each piece is a value of the grammar.
-/
namespace Bvstk.Config
open JsonText (Piece Stands Denotes Element Member Blank IsBlank IsDigit Digits IntPart commas piecesText stringToken utf8 Value)
open I2cJson (decimal)

/-! ## Decimals -/

/-- The number that digits stand for behind the number `n`. -/
def digitsValue (n : ℕ) (ds : Bytes) : ℕ := ds.foldl (fun n c => n * 10 + (c.toNat - 48)) n

theorem digitChar_byte {d : ℕ} (h : d < 10) : UInt8.ofNat d.digitChar.toNat = UInt8.ofNat (48 + d) := by
  have hall : ∀ d : Fin 10, UInt8.ofNat d.val.digitChar.toNat = UInt8.ofNat (48 + d.val) := by decide
  exact hall ⟨d,h⟩

/-- The last digit comes off the end. -/
theorem decimal_eq (n : ℕ) :
    decimal n = (if n < 10 then [] else decimal (n / 10)) ++ [UInt8.ofNat (48 + n % 10)] := by
  have hlast : n % 10 < 10 := Nat.mod_lt n (by decide)
  unfold decimal
  rw [Nat.toDigits_eq_if (by decide)]
  split
  · rename_i hsmall
    have hmod : n % 10 = n := Nat.mod_eq_of_lt hsmall
    rw [hmod, List.map_singleton, digitChar_byte hsmall, List.nil_append]
  · rw [List.map_append, List.map_singleton, digitChar_byte hlast]

theorem decimal_ne_nil (n : ℕ) : decimal n ≠ [] := by
  rw [decimal_eq]
  exact List.append_ne_nil_of_right_ne_nil _ (List.cons_ne_nil _ _)

theorem isDigit_last {d : ℕ} (h : d < 10) : IsDigit (UInt8.ofNat (48 + d)) ∧ (UInt8.ofNat (48 + d)).toNat = 48 + d := by
  have hall : ∀ d : Fin 10, IsDigit (UInt8.ofNat (48 + d.val)) ∧ (UInt8.ofNat (48 + d.val)).toNat = 48 + d.val := by
    unfold IsDigit
    decide
  exact hall ⟨d,h⟩

theorem decimal_digits (n : ℕ) : ∀ b ∈ decimal n, IsDigit b := by
  induction n using Nat.strong_induction_on with
  | _ n ih =>
    intro b hb
    rw [decimal_eq, List.mem_append, List.mem_singleton] at hb
    rcases hb with hb | rfl
    · split at hb
      · cases hb
      · exact ih (n / 10) (by omega) b hb
    · exact (isDigit_last (Nat.mod_lt n (by decide))).1

@[simp] theorem digitsValue_append (n : ℕ) (ds es : Bytes) :
    digitsValue n (ds ++ es) = digitsValue (digitsValue n ds) es := List.foldl_append

@[simp] theorem digitsValue_singleton (n : ℕ) (c : UInt8) : digitsValue n [c] = n * 10 + (c.toNat - 48) := rfl

theorem digitsValue_decimal (n : ℕ) : digitsValue 0 (decimal n) = n := by
  induction n using Nat.strong_induction_on with
  | _ n ih =>
    have hlast := (isDigit_last (Nat.mod_lt n (by decide))).2
    rw [decimal_eq, digitsValue_append, digitsValue_singleton, hlast]
    split
    · have hnil : digitsValue 0 [] = 0 := rfl
      rw [hnil]
      omega
    · rw [ih (n / 10) (by omega)]
      omega

theorem decimal_zero : decimal 0 = [48] := by decide

/-- Only `0` begins with a zero. -/
theorem decimal_head {n : ℕ} (h : (decimal n).head? = some 48) : n = 0 := by
  induction n using Nat.strong_induction_on with
  | _ n ih =>
    rw [decimal_eq] at h
    split at h
    · rename_i hsmall
      have hlast := (isDigit_last (Nat.mod_lt n (by decide))).2
      have hzero : UInt8.ofNat (48 + n % 10) = 48 := Option.some.inj h
      rw [hzero] at hlast
      have h48 : (48 : UInt8).toNat = 48 := rfl
      omega
    · have hne := decimal_ne_nil (n / 10)
      rw [List.head?_append_of_ne_nil _ hne] at h
      have := ih (n / 10) (by omega) h
      omega

theorem decimal_length {n k : ℕ} (hk : 0 < k) (h : n < 10 ^ k) : (decimal n).length ≤ k := by
  rw [decimal, List.length_map]
  exact (Nat.length_toDigits_le_iff (by decide) hk).mpr h

theorem decimal_number (n : ℕ) : JsonText.Number (decimal n) := by
  refine ⟨[],decimal n,[],[],by simp,Or.inl rfl,⟨⟨decimal_ne_nil n,decimal_digits n⟩,fun hzero => ?_⟩,Or.inl rfl,Or.inl rfl⟩
  rw [decimal_head hzero, decimal_zero]

/-! ## Words -/

/-- A character that is printed as it is. -/
def PlainByte (b : UInt8) : Prop := 32 ≤ b ∧ b < 128 ∧ b ≠ 34 ∧ b ≠ 92

instance : DecidablePred PlainByte := fun _ => inferInstanceAs (Decidable (_ ∧ _))

/-- A test of all bytes of a text says something of each. -/
theorem forall_bytes {P : UInt8 → Prop} [DecidablePred P] {t : Bytes} (h : (t.all fun b => decide (P b)) = true) :
    ∀ b ∈ t, P b := fun b hb => of_decide_eq_true (List.all_eq_true.mp h b hb)

def plainPieces (s : Bytes) : List Piece := s.map fun b => .plain (Char.ofNat b.toNat)

/-- A word between quotes. -/
def quoted (s : Bytes) : Bytes := 34 :: (s ++ [34])

theorem plainByte_lt {b : UInt8} (hb : PlainByte b) : b.toNat < 128 := UInt8.lt_iff_toNat_lt.mp hb.2.1

theorem toNat_plain {b : UInt8} (hb : PlainByte b) : (Char.ofNat b.toNat).toNat = b.toNat := by
  have hlt := plainByte_lt hb
  exact toNat_charOfNat (by rw [Nat.isValidChar]; omega)

theorem piecesText_plain {s : Bytes} (hs : ∀ b ∈ s, PlainByte b) : piecesText (plainPieces s) = s := by
  induction s with
  | nil => rfl
  | cons b s ih =>
    have hrest := ih fun c hc => hs c (List.mem_cons_of_mem b hc)
    have hfirst : (Piece.plain (Char.ofNat b.toNat)).text = [b] := by
      rw [Piece.text, encode_ascii (plainByte_lt (hs b List.mem_cons_self)), UInt8.ofNat_toNat]
    rw [plainPieces, piecesText] at hrest ⊢
    rw [List.map_cons, List.flatMap_cons, hfirst, hrest]
    rfl

theorem stringToken_plain {s : Bytes} (hs : ∀ b ∈ s, PlainByte b) : stringToken (plainPieces s) = quoted s := by
  rw [stringToken, piecesText_plain hs]
  rfl

theorem plain_valid {s : Bytes} (hs : ∀ b ∈ s, PlainByte b) : ∀ p ∈ plainPieces s, p.Valid := by
  intro p hp
  obtain ⟨b,hb,rfl⟩ := List.mem_map.mp hp
  obtain ⟨hlow,-,hquote,hslash⟩ := hs b hb
  have hnat := UInt8.le_iff_toNat_le.mp hlow
  have hne : ∀ c : UInt8, b ≠ c → b.toNat ≠ c.toNat := fun c hc heq => hc (UInt8.toNat_inj.mp heq)
  rw [Piece.Valid, toNat_plain (hs b hb)]
  exact ⟨hnat,hne 34 hquote,hne 92 hslash⟩

theorem plain_denotes (s : Bytes) : Denotes (plainPieces s) (s.map fun b => Char.ofNat b.toNat) := by
  induction s with
  | nil => exact .nil
  | cons b s ih => exact .cons (.plain _) ih

theorem plain_nonzero {s : Bytes} (hs : ∀ b ∈ s, PlainByte b) :
    ∀ c ∈ s.map fun b => Char.ofNat b.toNat, c.toNat ≠ 0 := by
  intro c hc
  obtain ⟨b,hb,rfl⟩ := List.mem_map.mp hc
  have hlow := UInt8.le_iff_toNat_le.mp (hs b hb).1
  have h32 : (32 : UInt8).toNat = 32 := rfl
  rw [toNat_plain (hs b hb)]
  omega

theorem plain_denoting {s : Bytes} (hs : ∀ b ∈ s, PlainByte b) : Denoting (plainPieces s) :=
  ⟨_,plain_denotes s,plain_nonzero hs⟩

theorem utf8_plain {s : Bytes} (hs : ∀ b ∈ s, PlainByte b) : utf8 (s.map fun b => Char.ofNat b.toNat) = s := by
  have htext := piecesText_plain hs
  rw [plainPieces, piecesText, List.flatMap_map] at htext
  rw [utf8, List.flatMap_map]
  exact htext

theorem keyOf_plain {s : Bytes} (hs : ∀ b ∈ s, PlainByte b) : keyOf (plainPieces s) = s := by
  rw [keyOf_eq (plain_denotes s) (plain_valid hs) (plain_nonzero hs), utf8_plain hs]

theorem value_quoted {n : ℕ} {s : Bytes} (hs : ∀ b ∈ s, PlainByte b) : Value Denoting n (quoted s) := by
  rw [← stringToken_plain hs]
  exact Value.string (plain_valid hs) (plain_denoting hs)

/-! ## Lists -/

/-- Texts with a comma and a blank between them. -/
def separated : List Bytes → Bytes
  | [] => []
  | t :: ts => t ++ ts.flatMap ([44,32] ++ ·)

/-- The elements of a list that is printed so. -/
def spaced : List Bytes → List Element
  | [] => []
  | v :: vs => ⟨[],v,[]⟩ :: vs.map (⟨[32],·,[]⟩)

theorem mem_spaced {vs : List Bytes} {e : Element} (h : e ∈ spaced vs) :
    (e.before = [] ∨ e.before = [32]) ∧ e.value ∈ vs ∧ e.after = [] := by
  cases vs with
  | nil => cases h
  | cons v vs =>
    rcases List.mem_cons.mp h with rfl | h
    · exact ⟨Or.inl rfl,List.mem_cons_self,rfl⟩
    · obtain ⟨w,hw,rfl⟩ := List.mem_map.mp h
      exact ⟨Or.inr rfl,List.mem_cons_of_mem v hw,rfl⟩

theorem commas_eq_flatMap (t : Bytes) (ts : List Bytes) : commas (t :: ts) = t ++ ts.flatMap (44 :: ·) := by
  induction ts generalizing t with
  | nil => rw [commas_singleton, List.flatMap_nil, List.append_nil]
  | cons u ts ih => rw [commas_cons, ih, List.flatMap_cons, List.cons_append]

theorem commas_spaced (vs : List Bytes) : commas ((spaced vs).map Element.text) = separated vs := by
  cases vs with
  | nil => rfl
  | cons v vs =>
    have hfirst : Element.text ⟨[],v,[]⟩ = v := by rw [Element.text, List.nil_append, List.append_nil]
    have hnext : ∀ w, 44 :: Element.text ⟨[32],w,[]⟩ = [44,32] ++ w := fun w => by
      rw [Element.text, List.append_nil]
      rfl
    rw [spaced, List.map_cons, List.map_map, commas_eq_flatMap, List.flatMap_map, hfirst]
    simp only [Function.comp_apply, hnext, separated]

theorem blank_nil : Blank [] := fun _ hb => nomatch hb

theorem blank_space : Blank [32] := fun _ hb => Or.inl (List.mem_singleton.mp hb)

theorem value_separated {n : ℕ} {vs : List Bytes} (h : ∀ v ∈ vs, Value Denoting n v) :
    Value Denoting (n + 1) (91 :: (separated vs ++ [93])) := by
  cases vs with
  | nil => exact Value.emptyArray blank_nil
  | cons v vs =>
    rw [← commas_spaced]
    refine Value.array (List.cons_ne_nil _ _) (fun e he => ?_) fun e he => h _ (mem_spaced he).2.1
    obtain ⟨hbefore,-,hafter⟩ := mem_spaced he
    refine ⟨?_,by rw [hafter]; exact blank_nil⟩
    rcases hbefore with hbefore | hbefore
    · rw [hbefore]
      exact blank_nil
    · rw [hbefore]
      exact blank_space

/-! ## Texts without a NUL -/

theorem mem_commas {ts : List Bytes} {b : UInt8} (h : b ∈ commas ts) : b = 44 ∨ ∃ t ∈ ts, b ∈ t := by
  cases ts with
  | nil => cases h
  | cons t ts =>
    rw [commas_eq_flatMap, List.mem_append, List.mem_flatMap] at h
    rcases h with h | ⟨u,hu,h⟩
    · exact Or.inr ⟨t,List.mem_cons_self,h⟩
    · rcases List.mem_cons.mp h with h | h
      · exact Or.inl h
      · exact Or.inr ⟨u,List.mem_cons_of_mem t hu,h⟩

theorem digits_nonzero {text : Bytes} (h : ∀ b ∈ text, IsDigit b) : 0 ∉ text := fun hb => absurd (h 0 hb).1 (by decide)

theorem blank_nonzero {text : Bytes} (h : Blank text) : 0 ∉ text := by
  intro hb
  have hzero : ¬IsBlank 0 := by
    unfold IsBlank
    decide
  exact hzero (h 0 hb)

theorem number_nonzero {text : Bytes} (h : JsonText.Number text) : 0 ∉ text := by
  obtain ⟨minus,int,frac,exp,rfl,hminus,hint,hfrac,hexp⟩ := h
  simp only [List.mem_append, not_or]
  refine ⟨⟨⟨?_,digits_nonzero hint.1.2⟩,?_⟩,?_⟩
  · rcases hminus with rfl | rfl
    · decide
    · decide
  · rcases hfrac with rfl | ⟨ds,rfl,hds⟩
    · decide
    · rw [List.mem_cons, not_or]
      exact ⟨by decide,digits_nonzero hds.2⟩
  · rcases hexp with rfl | ⟨letter,sign,ds,rfl,hletter,hsign,hds⟩
    · decide
    · rw [List.mem_cons, List.mem_append, not_or, not_or]
      refine ⟨?_,?_,digits_nonzero hds.2⟩
      · rcases hletter with rfl | rfl
        · decide
        · decide
      · rcases hsign with rfl | rfl | rfl
        · decide
        · decide
        · decide

theorem encode_nonzero {c : Char} (hc : 32 ≤ c.toNat) : 0 ∉ String.utf8EncodeChar c := by
  by_cases hascii : c.toNat < 128
  · have hbyte := encode_ascii hascii
    rw [Char.ofNat_toNat] at hbyte
    rw [hbyte, List.mem_singleton]
    intro hzero
    have hnat := congrArg UInt8.toNat hzero
    have hsize : c.toNat < UInt8.size := hascii.trans (by decide)
    have h0 : (0 : UInt8).toNat = 0 := rfl
    rw [UInt8.toNat_ofNat_of_lt' hsize] at hnat
    omega
  · obtain ⟨lead,tail,bits,minimum,hencode,hlead,-,htail,-,-⟩ := raw_of_encode (by omega : 128 ≤ c.toNat)
    rw [hencode, List.mem_cons, not_or]
    have h0 : (0 : UInt8).toNat = 0 := rfl
    constructor
    · rintro rfl
      omega
    · intro hmem
      have := htail 0 hmem
      omega

theorem piece_nonzero {p : Piece} (h : p.Valid) : 0 ∉ p.text := by
  cases p with
  | plain c => exact encode_nonzero h.1
  | short letter =>
    obtain ⟨n,hn⟩ := h
    have hletter := (shortEscape_of_mem hn).1
    rw [Piece.text]
    intro hzero
    simp only [List.mem_cons, List.not_mem_nil, or_false] at hzero
    rcases hzero with hzero | rfl
    · exact absurd hzero (by decide)
    · exact absurd hletter (by simp [shortEscape])
  | unicode a b c d =>
    obtain ⟨n,x,y,z,u,ha,hb,hc,hd,-⟩ := h
    have hhex : ∀ {b : UInt8} {d : ℕ}, JsonText.HexDigit b d → 0 ≠ b := by
      rintro b d hb rfl
      have h0 : (0 : UInt8).toNat = 0 := rfl
      rw [JsonText.HexDigit, h0] at hb
      omega
    rw [Piece.text]
    intro hzero
    simp only [List.mem_cons, List.not_mem_nil, or_false] at hzero
    rcases hzero with hzero | hzero | hzero | hzero | hzero | hzero
    · exact absurd hzero (by decide)
    · exact absurd hzero (by decide)
    · exact hhex ha hzero
    · exact hhex hb hzero
    · exact hhex hc hzero
    · exact hhex hd hzero

theorem token_nonzero {ps : List Piece} (h : ∀ p ∈ ps, p.Valid) : 0 ∉ stringToken ps := by
  intro hzero
  rw [stringToken, List.mem_cons, List.mem_append, piecesText, List.mem_flatMap] at hzero
  rcases hzero with hzero | ⟨p,hp,hzero⟩ | hzero
  · exact absurd hzero (by decide)
  · exact piece_nonzero (h p hp) hzero
  · exact absurd hzero (by decide)

/-- A value of the grammar has no NUL. -/
theorem value_nonzero {ok : List Piece → Prop} {n : ℕ} {text : Bytes} (h : Value ok n text) : 0 ∉ text := by
  induction h with
  | literal h =>
    simp only [JsonText.literals, List.mem_cons, List.not_mem_nil, or_false] at h
    rcases h with rfl | rfl | rfl
    · decide
    · decide
    · decide
  | number h => exact number_nonzero h
  | string hvalid hok => exact token_nonzero hvalid
  | emptyArray hblank =>
    rw [List.mem_cons, List.mem_append, not_or, not_or]
    exact ⟨by decide,blank_nonzero hblank,by decide⟩
  | emptyObject hblank =>
    rw [List.mem_cons, List.mem_append, not_or, not_or]
    exact ⟨by decide,blank_nonzero hblank,by decide⟩
  | array hne hblank hvalue ih =>
    rw [List.mem_cons, List.mem_append, not_or, not_or]
    refine ⟨by decide,fun hzero => ?_,by decide⟩
    rcases mem_commas hzero with hzero | ⟨t,ht,hzero⟩
    · exact absurd hzero (by decide)
    · obtain ⟨e,he,rfl⟩ := List.mem_map.mp ht
      rw [Element.text, List.mem_append, List.mem_append] at hzero
      rcases hzero with (hzero | hzero) | hzero
      · exact blank_nonzero (hblank e he).1 hzero
      · exact ih e he hzero
      · exact blank_nonzero (hblank e he).2 hzero
  | object hne hblank hname hvalue ih =>
    rw [List.mem_cons, List.mem_append, not_or, not_or]
    refine ⟨by decide,fun hzero => ?_,by decide⟩
    rcases mem_commas hzero with hzero | ⟨t,ht,hzero⟩
    · exact absurd hzero (by decide)
    · obtain ⟨m,hm,rfl⟩ := List.mem_map.mp ht
      obtain ⟨hbefore,hmiddle,hahead,hafter⟩ := hblank m hm
      rw [Member.text, List.mem_append, List.mem_append, List.mem_append, List.mem_cons, Element.text, List.mem_append,
        List.mem_append] at hzero
      rcases hzero with ((hzero | hzero) | hzero) | hzero | (hzero | hzero) | hzero
      · exact blank_nonzero hbefore hzero
      · exact token_nonzero (hname m hm).1 hzero
      · exact blank_nonzero hmiddle hzero
      · exact absurd hzero (by decide)
      · exact blank_nonzero hahead hzero
      · exact ih m hm hzero
      · exact blank_nonzero hafter hzero

theorem takeWhile_nonzero {text : Bytes} (h : 0 ∉ text) : text.takeWhile (· != 0) = text := by
  rw [List.takeWhile_eq_self_iff]
  intro b hb
  have hne : b ≠ 0 := fun heq => h (heq ▸ hb)
  simpa using hne

/-! ## Members -/

/-- A member with a plain name, a blank behind the colon, and some blanks around it. -/
def printed (before key v after : Bytes) : Member := ⟨before,plainPieces key,[],⟨[32],v,after⟩⟩

theorem printed_text {before key v after : Bytes} (hkey : ∀ b ∈ key, PlainByte b) :
    (printed before key v after).text = before ++ (quoted key ++ ([58,32] ++ (v ++ after))) := by
  rw [printed, Member.text, Element.text, stringToken_plain hkey]
  simp

theorem printed_ok {n : ℕ} {before key v after : Bytes} (hkey : ∀ b ∈ key, PlainByte b) (hbefore : Blank before)
    (hafter : Blank after) (hv : Value Denoting n v) : MemberOk n (printed before key v after) where
  before := hbefore
  middle := blank_nil
  ahead := blank_space
  after := hafter
  valid := plain_valid hkey
  denoting := plain_denoting hkey
  value := hv

end Bvstk.Config
