import Bvstk.Config.JsonReader
import Bvstk.Library.JsonText

/-! # What the reader takes for a string

`string` accepts exactly the string tokens that denote something without a NUL, and what it
writes is that in UTF-8.
-/
namespace Bvstk.Config
open JsonText (Piece Stands Denotes HexDigit CodeUnit utf8 utf8_nil utf8_cons shortEscapes piecesText stringToken)

/-! ## Characters -/

theorem toNat_charOfNat {n : ℕ} (h : n.isValidChar) : (Char.ofNat n).toNat = n := by
  rw [Char.ofNat, dif_pos h]
  rfl

/-- The room for `n` bytes and a NUL. -/
def Fits (cap : Option ℕ) (n : ℕ) : Prop := ∀ c ∈ cap, n < c

theorem fits_none (n : ℕ) : Fits none n := fun _ hnone => nomatch hnone

theorem emit_eq {cap : Option ℕ} {out : Bytes} {c : UInt8} (h : Fits cap (out.length + 1)) :
    emit cap out c = some (out ++ [c]) := by
  unfold emit
  cases cap with
  | none => rfl
  | some size =>
    have hsize : out.length + 1 < size := h size rfl
    rw [if_neg]
    simp only [Option.any_some, decide_eq_true_eq]
    omega

theorem emit_some {cap : Option ℕ} {out out' : Bytes} {c : UInt8} (h : emit cap out c = some out') :
    out' = out ++ [c] := by
  unfold emit at h
  split at h
  · cases h
  · exact (Option.some.inj h).symm

theorem emits_eq {cap : Option ℕ} {out : Bytes} {bytes : Bytes} (h : Fits cap (out.length + bytes.length)) :
    bytes.foldlM (emit cap) out = some (out ++ bytes) := by
  induction bytes generalizing out with
  | nil => simp
  | cons c bytes ih =>
    have hfirst : Fits cap (out.length + 1) := fun size hsize => by
      have hall := h size hsize
      rw [List.length_cons] at hall
      omega
    have hrest : Fits cap ((out ++ [c]).length + bytes.length) := by
      rw [List.length_append, List.length_singleton, Nat.add_assoc, Nat.add_comm 1]
      exact h
    rw [List.foldlM_cons, emit_eq hfirst, Option.bind_eq_bind, Option.bind_some, ih hrest, List.append_assoc]
    rfl

theorem emits_some {cap : Option ℕ} {out out' : Bytes} {bytes : Bytes} (h : bytes.foldlM (emit cap) out = some out') :
    out' = out ++ bytes := by
  induction bytes generalizing out with
  | nil => simpa using h.symm
  | cons c bytes ih =>
    rw [List.foldlM_cons, Option.bind_eq_bind, Option.bind_eq_some_iff] at h
    obtain ⟨out₁,hfirst,hrest⟩ := h
    rw [ih hrest, emit_some hfirst, List.append_assoc]
    rfl

/-- The bytes `codepoint` writes are the character's. -/
theorem codepoint_emits (cap : Option ℕ) (out : Bytes) {c : Char} (hc : c.toNat ≠ 0) :
    codepoint cap out c.toNat = (String.utf8EncodeChar c).foldlM (emit cap) out := by
  have hvalid : c.toNat < 0xD800 ∨ (0xDFFF < c.toNat ∧ c.toNat < 0x110000) := c.valid
  have hval : c.val.toNat = c.toNat := rfl
  unfold codepoint String.utf8EncodeChar
  rw [if_neg (by omega)]
  dsimp only
  rw [hval]
  by_cases h1 : c.toNat < 0x80
  · have h1' : c.toNat ≤ 0x7f := by omega
    rw [if_pos h1, if_pos h1']
    simp
  · have h1' : ¬c.toNat ≤ 0x7f := by omega
    rw [if_neg h1, if_neg h1']
    by_cases h2 : c.toNat < 0x800
    · have h2' : c.toNat ≤ 0x7ff := by omega
      have hlead : 0xC0 + c.toNat / 64 = c.toNat / 64 % 0x20 + 0xC0 := by omega
      have hlast : 0x80 + c.toNat % 64 = c.toNat % 0x40 + 0x80 := by omega
      rw [if_pos h2, if_pos h2', hlead, hlast]
    · have h2' : ¬c.toNat ≤ 0x7ff := by omega
      rw [if_neg h2, if_neg h2']
      by_cases h3 : c.toNat < 0x10000
      · have h3' : c.toNat ≤ 0xffff := by omega
        have hlead : 0xE0 + c.toNat / 4096 = c.toNat / 4096 % 0x10 + 0xE0 := by omega
        have hnext : 0x80 + c.toNat / 64 % 64 = c.toNat / 64 % 0x40 + 0x80 := by omega
        have hlast : 0x80 + c.toNat % 64 = c.toNat % 0x40 + 0x80 := by omega
        rw [if_pos h3, if_pos h3', hlead, hnext, hlast]
      · have h3' : ¬c.toNat ≤ 0xffff := by omega
        have hlead : 0xF0 + c.toNat / 262144 = c.toNat / 262144 % 0x08 + 0xF0 := by omega
        have hnext : 0x80 + c.toNat / 4096 % 64 = c.toNat / 4096 % 0x40 + 0x80 := by omega
        have hthird : 0x80 + c.toNat / 64 % 64 = c.toNat / 64 % 0x40 + 0x80 := by omega
        have hlast : 0x80 + c.toNat % 64 = c.toNat % 0x40 + 0x80 := by omega
        rw [if_neg h3, if_neg h3', hlead, hnext, hthird, hlast]

theorem codepoint_eq {cap : Option ℕ} {out : Bytes} {c : Char} (hc : c.toNat ≠ 0)
    (hfits : Fits cap (out.length + (String.utf8EncodeChar c).length)) :
    codepoint cap out c.toNat = some (out ++ String.utf8EncodeChar c) := by
  rw [codepoint_emits cap out hc, emits_eq hfits]

theorem codepoint_some {cap : Option ℕ} {out out' : Bytes} {cp : ℕ} (h : codepoint cap out cp = some out') :
    ∃ c : Char, c.toNat = cp ∧ cp ≠ 0 ∧ out' = out ++ String.utf8EncodeChar c := by
  by_cases hbad : cp = 0 ∨ 0x10FFFF < cp ∨ (0xD800 ≤ cp ∧ cp ≤ 0xDFFF)
  · rw [codepoint, if_pos hbad] at h
    cases h
  · have hvalid : cp.isValidChar := by
      rw [Nat.isValidChar]
      omega
    have hcp := toNat_charOfNat hvalid
    have hne : (Char.ofNat cp).toNat ≠ 0 := by omega
    rw [← hcp, codepoint_emits cap out hne] at h
    exact ⟨Char.ofNat cp,hcp,by omega,emits_some h⟩

/-- A byte of a longer sequence that is not the first. -/
theorem continues_iff (b : UInt8) : b &&& 0xC0 = 0x80 ↔ b.toNat / 64 = 2 := by
  have hall : ∀ n : Fin 256, UInt8.ofNat n &&& 0xC0 = 0x80 ↔ n.val / 64 = 2 := by decide +kernel
  have hb := hall ⟨b.toNat,b.toNat_lt⟩
  rwa [UInt8.ofNat_toNat] at hb

/-- The bits of the bytes behind the first. -/
def tailBits (cp : ℕ) (tail : Bytes) : ℕ := tail.foldl (fun cp b => cp * 64 + b.toNat % 64) cp

theorem continuation_eq {tail rest : Bytes} (cp : ℕ) (htail : ∀ b ∈ tail, b.toNat / 64 = 2) :
    continuation tail.length cp (tail ++ rest) = some (tailBits cp tail,rest) := by
  induction tail generalizing cp with
  | nil => rfl
  | cons b tail ih =>
    have hb : ¬b &&& 0xC0 ≠ 0x80 := not_not.mpr ((continues_iff b).mpr (htail b List.mem_cons_self))
    rw [List.length_cons, List.cons_append, continuation, if_neg hb]
    exact ih (cp * 64 + b.toNat % 64) fun b' hb' => htail b' (List.mem_cons_of_mem b hb')

theorem continuation_some {count cp cp' : ℕ} {input rest : Bytes}
    (h : continuation count cp input = some (cp',rest)) :
    ∃ tail, tail.length = count ∧ input = tail ++ rest ∧ (∀ b ∈ tail, b.toNat / 64 = 2) ∧ cp' = tailBits cp tail := by
  induction count generalizing cp input with
  | zero =>
    cases h
    exact ⟨[],rfl,rfl,fun _ hb => (nomatch hb),rfl⟩
  | succ count ih =>
    cases input with
    | nil => cases h
    | cons next input =>
      unfold continuation at h
      split at h
      · cases h
      · rename_i hnext
        obtain ⟨tail,hlength,rfl,htail,hcp⟩ := ih h
        refine ⟨next :: tail,by rw [List.length_cons, hlength],rfl,fun b hb => ?_,hcp⟩
        rcases List.mem_cons.mp hb with rfl | hb
        · exact (continues_iff b).mp (not_not.mp hnext)
        · exact htail b hb

theorem ofNat_eq {n : ℕ} {b : UInt8} (h : n = b.toNat) : UInt8.ofNat n = b := by
  rw [h, UInt8.ofNat_toNat]

theorem leadByte_eq (b : UInt8) : leadByte b =
    if 194 ≤ b.toNat ∧ b.toNat ≤ 223 then some (1,b.toNat % 32,0x80)
    else if 224 ≤ b.toNat ∧ b.toNat ≤ 239 then some (2,b.toNat % 16,0x800)
    else if 240 ≤ b.toNat ∧ b.toNat ≤ 244 then some (3,b.toNat % 8,0x10000)
    else none := by
  simp only [leadByte, UInt8.le_iff_toNat_le]
  rfl

/-- A sequence of several bytes that is not too long is a character's. -/
theorem encode_of_raw {lead : UInt8} {count bits minimum : ℕ} {tail : Bytes} {c : Char}
    (hlead : leadByte lead = some (count,bits,minimum)) (hlength : tail.length = count)
    (htail : ∀ b ∈ tail, b.toNat / 64 = 2) (hc : c.toNat = tailBits bits tail) (hminimum : minimum ≤ c.toNat) :
    String.utf8EncodeChar c = lead :: tail := by
  have hval : c.val.toNat = c.toNat := rfl
  rw [leadByte_eq] at hlead
  unfold String.utf8EncodeChar
  dsimp only
  rw [hval]
  split at hlead
  · -- two bytes
    cases hlead
    obtain ⟨x,rfl⟩ := List.length_eq_one_iff.mp hlength
    have hx := htail x List.mem_cons_self
    have hcp : c.toNat = lead.toNat % 32 * 64 + x.toNat % 64 := hc
    rw [if_neg (by omega), if_pos (by omega), ofNat_eq (b := lead) (by omega), ofNat_eq (b := x) (by omega)]
  · split at hlead
    · -- three bytes
      cases hlead
      obtain ⟨x,y,rfl⟩ := List.length_eq_two.mp hlength
      have hx := htail x List.mem_cons_self
      have hy := htail y (by simp)
      have hcp : c.toNat = (lead.toNat % 16 * 64 + x.toNat % 64) * 64 + y.toNat % 64 := hc
      rw [if_neg (by omega), if_neg (by omega), if_pos (by omega), ofNat_eq (b := lead) (by omega),
        ofNat_eq (b := x) (by omega), ofNat_eq (b := y) (by omega)]
    · split at hlead
      · -- four bytes
        cases hlead
        obtain ⟨x,y,z,rfl⟩ := List.length_eq_three.mp hlength
        have hx := htail x List.mem_cons_self
        have hy := htail y (by simp)
        have hz := htail z (by simp)
        have hcp : c.toNat = ((lead.toNat % 8 * 64 + x.toNat % 64) * 64 + y.toNat % 64) * 64 + z.toNat % 64 := hc
        rw [if_neg (by omega), if_neg (by omega), if_neg (by omega), ofNat_eq (b := lead) (by omega),
          ofNat_eq (b := x) (by omega), ofNat_eq (b := y) (by omega), ofNat_eq (b := z) (by omega)]
      · cases hlead

/-- The bytes of a character that is not in ASCII. -/
theorem raw_of_encode {c : Char} (hc : 128 ≤ c.toNat) :
    ∃ lead tail bits minimum, String.utf8EncodeChar c = lead :: tail ∧ 128 ≤ lead.toNat ∧
      leadByte lead = some (tail.length,bits,minimum) ∧ (∀ b ∈ tail, b.toNat / 64 = 2) ∧ tailBits bits tail = c.toNat ∧
      minimum ≤ c.toNat := by
  have hvalid : c.toNat < 0xD800 ∨ (0xDFFF < c.toNat ∧ c.toNat < 0x110000) := c.valid
  have hval : c.val.toNat = c.toNat := rfl
  have hnat : ∀ n < 256, (UInt8.ofNat n).toNat = n := fun n hn => UInt8.toNat_ofNat_of_lt' hn
  generalize c.toNat = n at *
  unfold String.utf8EncodeChar
  dsimp only
  rw [hval, if_neg (by omega)]
  by_cases h2 : n ≤ 0x7ff
  · have hlead := hnat (n / 64 % 0x20 + 0xc0) (by omega)
    have hx := hnat (n % 0x40 + 0x80) (by omega)
    rw [if_pos h2]
    refine ⟨_,_,n / 64 % 32,0x80,rfl,by omega,?_,?_,?_,by omega⟩
    · have hbits : (n / 64 % 32 + 192) % 32 = n / 64 % 32 := by omega
      rw [leadByte_eq, hlead, if_pos (by omega), hbits]
      rfl
    · intro b hb
      rw [List.mem_singleton] at hb
      rw [hb, hx]
      omega
    · simp only [tailBits, List.foldl_cons, List.foldl_nil, hx]
      omega
  · rw [if_neg h2]
    by_cases h3 : n ≤ 0xffff
    · have hlead := hnat (n / 4096 % 0x10 + 0xe0) (by omega)
      have hx := hnat (n / 64 % 0x40 + 0x80) (by omega)
      have hy := hnat (n % 0x40 + 0x80) (by omega)
      rw [if_pos h3]
      refine ⟨_,_,n / 4096 % 16,0x800,rfl,by omega,?_,?_,?_,by omega⟩
      · have hbits : (n / 4096 % 16 + 224) % 16 = n / 4096 % 16 := by omega
        rw [leadByte_eq, hlead, if_neg (by omega), if_pos (by omega), hbits]
        rfl
      · intro b hb
        rcases List.mem_pair.mp hb with rfl | rfl
        · rw [hx]
          omega
        · rw [hy]
          omega
      · simp only [tailBits, List.foldl_cons, List.foldl_nil, hx, hy]
        omega
    · have hlead := hnat (n / 262144 % 0x08 + 0xf0) (by omega)
      have hx := hnat (n / 4096 % 0x40 + 0x80) (by omega)
      have hy := hnat (n / 64 % 0x40 + 0x80) (by omega)
      have hz := hnat (n % 0x40 + 0x80) (by omega)
      rw [if_neg h3]
      refine ⟨_,_,n / 262144 % 8,0x10000,rfl,by omega,?_,?_,?_,by omega⟩
      · have hbits : (n / 262144 % 8 + 240) % 8 = n / 262144 % 8 := by omega
        rw [leadByte_eq, hlead, if_neg (by omega), if_neg (by omega), if_pos (by omega), hbits]
        rfl
      · intro b hb
        rcases List.mem_cons.mp hb with rfl | hb
        · rw [hx]
          omega
        · rcases List.mem_pair.mp hb with rfl | rfl
          · rw [hy]
            omega
          · rw [hz]
            omega
      · simp only [tailBits, List.foldl_cons, List.foldl_nil, hx, hy, hz]
        omega

/-! ## Escapes -/

theorem hexDigit_iff {b : UInt8} {d : ℕ} : hexDigit b = some d ↔ HexDigit b d := by
  unfold hexDigit HexDigit digit
  simp only [UInt8.le_iff_toNat_le, decide_eq_true_eq]
  have h48 : (48 : UInt8).toNat = 48 := rfl
  have h57 : (57 : UInt8).toNat = 57 := rfl
  have h65 : (65 : UInt8).toNat = 65 := rfl
  have h70 : (70 : UInt8).toNat = 70 := rfl
  have h97 : (97 : UInt8).toNat = 97 := rfl
  have h102 : (102 : UInt8).toNat = 102 := rfl
  rw [h48, h57, h65, h70, h97, h102]
  split
  · rw [Option.some.injEq]
    omega
  · split
    · rw [Option.some.injEq]
      omega
    · split
      · rw [Option.some.injEq]
        omega
      · constructor
        · exact fun hnone => nomatch hnone
        · omega

theorem codeUnit_lt {a b c d : UInt8} {n : ℕ} (h : CodeUnit a b c d n) : n < 65536 := by
  obtain ⟨x,y,z,u,ha,hb,hc,hd,rfl⟩ := h
  unfold HexDigit at ha hb hc hd
  omega

theorem hex4_eq {a b c d : UInt8} {n : ℕ} (h : CodeUnit a b c d n) (rest : Bytes) :
    hex4 (a :: b :: c :: d :: rest) = some (n,rest) := by
  obtain ⟨x,y,z,u,ha,hb,hc,hd,rfl⟩ := h
  rw [hex4, hexDigit_iff.2 ha, hexDigit_iff.2 hb, hexDigit_iff.2 hc, hexDigit_iff.2 hd]

theorem hex4_some {input rest : Bytes} {n : ℕ} (h : hex4 input = some (n,rest)) :
    ∃ a b c d, input = a :: b :: c :: d :: rest ∧ CodeUnit a b c d n := by
  unfold hex4 at h
  split at h
  · rename_i a b c d tail
    split at h
    · rename_i x y z u ha hb hc hd
      cases h
      exact ⟨a,b,c,d,rfl,x,y,z,u,hexDigit_iff.1 ha,hexDigit_iff.1 hb,hexDigit_iff.1 hc,hexDigit_iff.1 hd,rfl⟩
    · cases h
  · cases h

theorem shortEscape_of_mem {letter : UInt8} {n : ℕ} (h : (letter,n) ∈ shortEscapes) :
    shortEscape letter = some (UInt8.ofNat n) ∧ n ≠ 0 ∧ n < 128 ∧ letter ≠ 117 := by
  simp only [shortEscapes, List.mem_cons, Prod.mk.injEq, List.not_mem_nil, or_false] at h
  rcases h with ⟨rfl,rfl⟩ | ⟨rfl,rfl⟩ | ⟨rfl,rfl⟩ | ⟨rfl,rfl⟩ | ⟨rfl,rfl⟩ | ⟨rfl,rfl⟩ | ⟨rfl,rfl⟩ | ⟨rfl,rfl⟩
  all_goals decide

theorem shortEscape_some {letter c : UInt8} (h : shortEscape letter = some c) : (letter,c.toNat) ∈ shortEscapes := by
  unfold shortEscape at h
  split at h
  · cases h
    subst letter
    decide
  · split at h
    · cases h
      subst letter
      decide
    · split at h
      · cases h
        subst letter
        decide
      · split at h
        · cases h
          subst letter
          decide
        · split at h
          · cases h
            subst letter
            decide
          · split at h
            · cases h
              rename_i hself
              rcases hself with rfl | rfl | rfl
              · decide
              · decide
              · decide
            · cases h

/-- A character of ASCII is its byte. -/
theorem encode_ascii {n : ℕ} (hn : n < 128) : String.utf8EncodeChar (Char.ofNat n) = [UInt8.ofNat n] := by
  have hc : (Char.ofNat n).val.toNat = n := toNat_charOfNat (by rw [Nat.isValidChar]; omega)
  unfold String.utf8EncodeChar
  dsimp only
  rw [hc, if_pos (by omega)]

theorem unicodeEscape_single {a b c d : UInt8} {n : ℕ} (hunit : CodeUnit a b c d n) (hscalar : n < 0xD800 ∨ 0xDFFF < n)
    (rest : Bytes) : unicodeEscape (a :: b :: c :: d :: rest) = some (n,rest) := by
  rw [unicodeEscape, hex4_eq hunit]
  dsimp only
  rw [if_neg (by omega)]

theorem unicodeEscape_pair {a b c d e f g h : UInt8} {high low : ℕ} (hhigh : CodeUnit a b c d high)
    (hlow : CodeUnit e f g h low) (hrange : 0xD800 ≤ high ∧ high ≤ 0xDBFF ∧ 0xDC00 ≤ low ∧ low ≤ 0xDFFF)
    (rest : Bytes) : unicodeEscape (a :: b :: c :: d :: 92 :: 117 :: e :: f :: g :: h :: rest) =
      some (0x10000 + (high - 0xD800) * 1024 + (low - 0xDC00),rest) := by
  have hsum : 0x10000 + (high - 0xD800) * 1024 + low - 0xDC00 = 0x10000 + (high - 0xD800) * 1024 + (low - 0xDC00) := by
    omega
  rw [unicodeEscape, hex4_eq hhigh]
  dsimp only
  rw [if_pos (by omega), if_pos ⟨rfl,rfl⟩, hex4_eq hlow]
  dsimp only
  rw [if_neg (by omega), hsum]

/-- An escape that yields a code point for a character is one or two pieces that stand for it. -/
theorem unicodeEscape_some {input rest : Bytes} {n : ℕ} (h : unicodeEscape input = some (n,rest))
    (hscalar : n < 0xD800 ∨ 0xDFFF < n) :
    ∃ one, Stands one (Char.ofNat n) ∧ (∀ p ∈ one, p.Valid) ∧ 92 :: 117 :: input = piecesText one ++ rest := by
  unfold unicodeEscape at h
  split at h
  · cases h
  · rename_i cp tail hfirst
    obtain ⟨a,b,c,d,rfl,hunit⟩ := hex4_some hfirst
    split at h
    · rename_i hhigh
      split at h
      · rename_i e f tail' _
        split at h
        · rename_i hescape
          obtain ⟨rfl,rfl⟩ := hescape
          split at h
          · cases h
          · rename_i low tail hsecond
            obtain ⟨e,f,g,i,rfl,hunit'⟩ := hex4_some hsecond
            split at h
            · cases h
            · rename_i hlow
              simp only [Option.some.injEq, Prod.mk.injEq] at h
              obtain ⟨hn,rfl⟩ := h
              have hrange : 0xD800 ≤ cp ∧ cp ≤ 0xDBFF ∧ 0xDC00 ≤ low ∧ low ≤ 0xDFFF := by omega
              have hsum : 0x10000 + (cp - 0xD800) * 1024 + (low - 0xDC00) = n := by omega
              refine ⟨[.unicode a b c d,.unicode e f g i],hsum ▸ Stands.pair hunit hunit' hrange,fun p hp => ?_,rfl⟩
              rcases List.mem_pair.mp hp with rfl | rfl
              · exact ⟨cp,hunit⟩
              · exact ⟨low,hunit'⟩
        · cases h
      · cases h
    · cases h
      refine ⟨[.unicode a b c d],Stands.unicode hunit hscalar,fun p hp => ?_,rfl⟩
      rw [List.mem_singleton.mp hp]
      exact ⟨n,hunit⟩

/-! ## Tokens -/

/-- The reader at pieces that stand for a character. -/
theorem character_eq {cap : Option ℕ} {out : Bytes} {one : List Piece} {c : Char} (hone : Stands one c)
    (hvalid : ∀ p ∈ one, p.Valid) (hc : c.toNat ≠ 0) (hfits : Fits cap (out.length + (String.utf8EncodeChar c).length)) :
    ∃ b tail, piecesText one = b :: tail ∧ b ≠ 34 ∧
      ∀ rest, character cap out b (tail ++ rest) = some (out ++ String.utf8EncodeChar c,rest) := by
  have hcodepoint := codepoint_eq hc hfits
  cases hone with
  | plain c =>
    obtain ⟨hcontrol,hquote,hescape⟩ : 32 ≤ c.toNat ∧ c.toNat ≠ 34 ∧ c.toNat ≠ 92 := hvalid _ List.mem_cons_self
    have htext : piecesText [.plain c] = String.utf8EncodeChar c := List.append_nil _
    rw [htext]
    by_cases hascii : c.toNat < 128
    · have hencode : String.utf8EncodeChar c = [UInt8.ofNat c.toNat] := by
        have hbyte := encode_ascii hascii
        rwa [Char.ofNat_toNat] at hbyte
      have hbyte : (UInt8.ofNat c.toNat).toNat = c.toNat := UInt8.toNat_ofNat_of_lt' (show c.toNat < 256 by omega)
      have h34 : (34 : UInt8).toNat = 34 := rfl
      have h92 : (92 : UInt8).toNat = 92 := rfl
      have h32 : (32 : UInt8).toNat = 32 := rfl
      have h128 : (128 : UInt8).toNat = 128 := rfl
      rw [hencode] at hfits ⊢
      refine ⟨_,[],rfl,?_,fun rest => ?_⟩
      · rw [Ne, ← UInt8.toNat_inj, hbyte]
        exact hquote
      · unfold character
        rw [if_neg (by rw [UInt8.lt_iff_toNat_lt, hbyte]; omega),
          if_neg (by rw [← UInt8.toNat_inj, hbyte]; exact hescape),
          if_neg (by rw [UInt8.le_iff_toNat_le, hbyte]; omega), emit_eq hfits]
        rfl
    · obtain ⟨lead,tail,bits,minimum,hencode,hlead,hbyte,htail,hbits,hminimum⟩ := raw_of_encode (c := c) (by omega)
      have h34 : (34 : UInt8).toNat = 34 := rfl
      have h92 : (92 : UInt8).toNat = 92 := rfl
      have h32 : (32 : UInt8).toNat = 32 := rfl
      have h128 : (128 : UInt8).toNat = 128 := rfl
      rw [hencode] at hcodepoint ⊢
      refine ⟨lead,tail,rfl,?_,fun rest => ?_⟩
      · rw [Ne, ← UInt8.toNat_inj]
        omega
      · unfold character
        rw [if_neg (by rw [UInt8.lt_iff_toNat_lt]; omega), if_neg (by rw [← UInt8.toNat_inj]; omega),
          if_pos (by rw [UInt8.le_iff_toNat_le]; omega), hbyte]
        dsimp only
        rw [continuation_eq bits htail, hbits]
        dsimp only
        rw [if_neg (by omega), hcodepoint]
        rfl
  | short hletter =>
    rename_i letter n
    obtain ⟨hshort,hzero,hsmall,hne⟩ := shortEscape_of_mem hletter
    rw [encode_ascii hsmall] at hfits ⊢
    refine ⟨92,[letter],rfl,by decide,fun rest => ?_⟩
    unfold character
    rw [if_neg (by decide), if_pos rfl]
    dsimp only [List.singleton_append]
    rw [if_neg hne, hshort]
    dsimp only
    rw [emit_eq hfits]
    rfl
  | unicode hunit hscalar =>
    rename_i a b c d n
    have hn : (Char.ofNat n).toNat = n := by
      refine toNat_charOfNat ?_
      have hlt := codeUnit_lt hunit
      rw [Nat.isValidChar]
      omega
    rw [hn] at hcodepoint
    refine ⟨92,[117,a,b,c,d],rfl,by decide,fun rest => ?_⟩
    unfold character
    rw [if_neg (by decide), if_pos rfl]
    dsimp only [List.cons_append, List.nil_append]
    rw [if_pos rfl, unicodeEscape_single hunit hscalar]
    dsimp only
    rw [hcodepoint]
    rfl
  | pair hhigh hlow hrange =>
    rename_i a b c d e f g h high low
    have hn := toNat_charOfNat (n := 0x10000 + (high - 0xD800) * 1024 + (low - 0xDC00)) (by
      rw [Nat.isValidChar]
      omega)
    rw [hn] at hcodepoint
    refine ⟨92,[117,a,b,c,d,92,117,e,f,g,h],rfl,by decide,fun rest => ?_⟩
    unfold character
    rw [if_neg (by decide), if_pos rfl]
    dsimp only [List.cons_append, List.nil_append]
    rw [if_pos rfl, unicodeEscape_pair hhigh hlow hrange]
    dsimp only
    rw [hcodepoint]
    rfl

/-- What the reader takes for a character are pieces that stand for it. -/
theorem character_some {cap : Option ℕ} {out out' : Bytes} {b : UInt8} {input rest : Bytes}
    (h : character cap out b input = some (out',rest)) (hb : b ≠ 34) :
    ∃ one c, Stands one c ∧ (∀ p ∈ one, p.Valid) ∧ c.toNat ≠ 0 ∧ b :: input = piecesText one ++ rest ∧
      out' = out ++ String.utf8EncodeChar c := by
  have h34 : (34 : UInt8).toNat = 34 := rfl
  have h92 : (92 : UInt8).toNat = 92 := rfl
  have h32 : (32 : UInt8).toNat = 32 := rfl
  have h128 : (128 : UInt8).toNat = 128 := rfl
  unfold character at h
  by_cases hcontrol : b < 32
  · rw [if_pos hcontrol] at h
    cases h
  · rw [if_neg hcontrol] at h
    by_cases hescape : b = 92
    · rw [if_pos hescape] at h
      subst hescape
      cases input with
      | nil => cases h
      | cons e input =>
        dsimp only at h
        by_cases he : e = 117
        · rw [if_pos he] at h
          subst he
          cases hunicode : unicodeEscape input with
          | none =>
            rw [hunicode] at h
            cases h
          | some found =>
            obtain ⟨cp,rest'⟩ := found
            rw [hunicode] at h
            obtain ⟨out₁,hout,heq⟩ := Option.map_eq_some_iff.mp h
            cases heq
            obtain ⟨c,hc,hzero,rfl⟩ := codepoint_some hout
            have hvalid : c.toNat < 0xD800 ∨ (0xDFFF < c.toNat ∧ c.toNat < 0x110000) := c.valid
            obtain ⟨one,hone,hpieces,htext⟩ := unicodeEscape_some hunicode (by omega)
            rw [← hc, Char.ofNat_toNat] at hone
            exact ⟨one,c,hone,hpieces,hc ▸ hzero,htext,rfl⟩
        · rw [if_neg he] at h
          cases hshort : shortEscape e with
          | none =>
            rw [hshort] at h
            cases h
          | some c =>
            rw [hshort] at h
            obtain ⟨out₁,hout,heq⟩ := Option.map_eq_some_iff.mp h
            cases heq
            have hmem := shortEscape_some hshort
            obtain ⟨-,hzero,hsmall,-⟩ := shortEscape_of_mem hmem
            have hn : (Char.ofNat c.toNat).toNat = c.toNat := toNat_charOfNat (by rw [Nat.isValidChar]; omega)
            refine ⟨[.short e],Char.ofNat c.toNat,Stands.short hmem,fun p hp => ?_,hn.symm ▸ hzero,rfl,?_⟩
            · rw [List.mem_singleton.mp hp]
              exact ⟨_,hmem⟩
            · rw [encode_ascii hsmall, UInt8.ofNat_toNat, emit_some hout]
    · rw [if_neg hescape] at h
      rw [UInt8.lt_iff_toNat_lt] at hcontrol
      rw [← UInt8.toNat_inj] at hescape
      have hquote : b.toNat ≠ 34 := fun heq => hb (UInt8.toNat_inj.mp heq)
      by_cases hraw : 128 ≤ b
      · rw [if_pos hraw] at h
        cases hlead : leadByte b with
        | none =>
          rw [hlead] at h
          cases h
        | some lead =>
          obtain ⟨count,bits,minimum⟩ := lead
          rw [hlead] at h
          dsimp only at h
          cases htail : continuation count bits input with
          | none =>
            rw [htail] at h
            cases h
          | some found =>
            obtain ⟨cp,rest'⟩ := found
            rw [htail] at h
            dsimp only at h
            by_cases hshort : cp < minimum
            · rw [if_pos hshort] at h
              cases h
            · rw [if_neg hshort] at h
              obtain ⟨out₁,hout,heq⟩ := Option.map_eq_some_iff.mp h
              cases heq
              obtain ⟨c,hc,hzero,rfl⟩ := codepoint_some hout
              obtain ⟨tail,hlength,rfl,hbytes,hbits⟩ := continuation_some htail
              have hencode := encode_of_raw hlead hlength hbytes (hc.trans hbits) (by omega)
              have hlarge : 128 ≤ c.toNat := by
                by_contra hsmall
                have hone := encode_ascii (n := c.toNat) (by omega)
                rw [Char.ofNat_toNat, hencode] at hone
                have hb' : (UInt8.ofNat c.toNat).toNat = c.toNat := UInt8.toNat_ofNat_of_lt' (show c.toNat < 256 by omega)
                rw [List.cons.injEq] at hone
                rw [UInt8.le_iff_toNat_le, hone.1, hb'] at hraw
                omega
              refine ⟨[.plain c],c,Stands.plain c,fun p hp => ?_,hc ▸ hzero,?_,rfl⟩
              · rw [List.mem_singleton.mp hp]
                exact ⟨by omega,by omega,by omega⟩
              · have htext : piecesText [.plain c] = String.utf8EncodeChar c := List.append_nil _
                rw [htext, hencode]
                rfl
      · rw [if_neg hraw] at h
        rw [UInt8.le_iff_toNat_le] at hraw
        obtain ⟨out₁,hout,heq⟩ := Option.map_eq_some_iff.mp h
        cases heq
        have hn : (Char.ofNat b.toNat).toNat = b.toNat := toNat_charOfNat (by rw [Nat.isValidChar]; omega)
        have hencode : String.utf8EncodeChar (Char.ofNat b.toNat) = [b] := by
          rw [encode_ascii (by omega), UInt8.ofNat_toNat]
        refine ⟨[.plain (Char.ofNat b.toNat)],Char.ofNat b.toNat,Stands.plain _,fun p hp => ?_,by omega,?_,?_⟩
        · rw [List.mem_singleton.mp hp]
          exact ⟨by omega,by omega,by omega⟩
        · have htext : piecesText [.plain (Char.ofNat b.toNat)] = String.utf8EncodeChar (Char.ofNat b.toNat) :=
            List.append_nil _
          rw [htext, hencode]
          rfl
        · rw [hencode, emit_some hout]

theorem piecesText_append (one ps : List Piece) : piecesText (one ++ ps) = piecesText one ++ piecesText ps :=
  List.flatMap_append

theorem characters_eq {cap : Option ℕ} {ps : List Piece} {cs : List Char} (hps : Denotes ps cs)
    (hvalid : ∀ p ∈ ps, p.Valid) (hcs : ∀ c ∈ cs, c.toNat ≠ 0) {left : ℕ} {out : Bytes}
    (hfits : Fits cap (out.length + (utf8 cs).length)) (hleft : (piecesText ps).length < left) (rest : Bytes) :
    characters cap left out (piecesText ps ++ 34 :: rest) = some (out ++ utf8 cs,rest) := by
  induction hps generalizing left out with
  | nil =>
    cases left with
    | zero => cases hleft
    | succ left =>
      have htext : piecesText [] ++ 34 :: rest = 34 :: rest := rfl
      rw [htext, characters, if_pos rfl, utf8_nil, List.append_nil]
  | cons first more ih =>
    rename_i one ps c cs
    cases left with
    | zero => cases hleft
    | succ left =>
      rw [utf8_cons, List.length_append, ← Nat.add_assoc] at hfits
      have hfirst : Fits cap (out.length + (String.utf8EncodeChar c).length) := by
        intro size hsize
        have hall := hfits size hsize
        omega
      obtain ⟨b,tail,htext,hquote,hcharacter⟩ :=
        character_eq first (fun p hp => hvalid p (List.mem_append_left ps hp)) (hcs c List.mem_cons_self) hfirst
      have hlength : (piecesText ps).length < left := by
        rw [piecesText_append, htext, List.length_append, List.length_cons] at hleft
        omega
      rw [piecesText_append, htext, List.append_assoc, List.cons_append, characters, if_neg hquote, hcharacter]
      dsimp only
      rw [ih (fun p hp => hvalid p (List.mem_append_right one hp)) (fun c' hc' => hcs c' (List.mem_cons_of_mem c hc'))
        (by rw [List.length_append]; exact hfits) hlength, utf8_cons, List.append_assoc]

theorem characters_some {cap : Option ℕ} {left : ℕ} {out out' input rest : Bytes}
    (h : characters cap left out input = some (out',rest)) :
    ∃ ps cs, Denotes ps cs ∧ (∀ p ∈ ps, p.Valid) ∧ (∀ c ∈ cs, c.toNat ≠ 0) ∧ input = piecesText ps ++ 34 :: rest ∧
      out' = out ++ utf8 cs := by
  induction left generalizing out input with
  | zero =>
    cases input with
    | nil => cases h
    | cons b input => cases h
  | succ left ih =>
    cases input with
    | nil => cases h
    | cons b input =>
      unfold characters at h
      by_cases hb : b = 34
      · rw [if_pos hb] at h
        cases h
        exact ⟨[],[],Denotes.nil,fun _ hp => (nomatch hp),fun _ hc => (nomatch hc),by rw [hb]; rfl,
          (List.append_nil _).symm⟩
      · rw [if_neg hb] at h
        cases hcharacter : character cap out b input with
        | none =>
          rw [hcharacter] at h
          cases h
        | some found =>
          obtain ⟨out₁,rest'⟩ := found
          rw [hcharacter] at h
          obtain ⟨one,c,hone,hpieces,hzero,htext,rfl⟩ := character_some hcharacter hb
          obtain ⟨ps,cs,hps,hvalid,hcs,rfl,rfl⟩ := ih h
          refine ⟨one ++ ps,c :: cs,Denotes.cons hone hps,fun p hp => ?_,fun c' hc' => ?_,?_,?_⟩
          · exact (List.mem_append.mp hp).elim (hpieces p) (hvalid p)
          · rcases List.mem_cons.mp hc' with rfl | hc'
            · exact hzero
            · exact hcs c' hc'
          · rw [htext, piecesText_append, List.append_assoc]
          · rw [utf8_cons, List.append_assoc]

/-- A string token that denotes something without a NUL. -/
def Denoting (ps : List Piece) : Prop := ∃ cs, Denotes ps cs ∧ ∀ c ∈ cs, c.toNat ≠ 0

theorem string_eq {cap : Option ℕ} {ps : List Piece} {cs : List Char} (hps : Denotes ps cs)
    (hvalid : ∀ p ∈ ps, p.Valid) (hcs : ∀ c ∈ cs, c.toNat ≠ 0) (hfits : Fits cap (utf8 cs).length) (rest : Bytes) :
    string cap (stringToken ps ++ rest) = some (utf8 cs,rest) := by
  have htext : stringToken ps ++ rest = 34 :: (piecesText ps ++ 34 :: rest) := by
    rw [stringToken, List.cons_append, List.append_assoc]
    rfl
  rw [htext, string, if_pos rfl]
  have hfits' : Fits cap (([] : Bytes).length + (utf8 cs).length) := by
    rw [List.length_nil, Nat.zero_add]
    exact hfits
  refine characters_eq hps hvalid hcs hfits' ?_ rest
  rw [List.length_append, List.length_cons]
  omega

theorem string_some {cap : Option ℕ} {input out rest : Bytes} (h : string cap input = some (out,rest)) :
    ∃ ps cs, Denotes ps cs ∧ (∀ p ∈ ps, p.Valid) ∧ (∀ c ∈ cs, c.toNat ≠ 0) ∧ input = stringToken ps ++ rest ∧
      out = utf8 cs := by
  cases input with
  | nil => cases h
  | cons b input =>
    by_cases hb : b = 34
    · rw [string, if_pos hb] at h
      obtain ⟨ps,cs,hps,hvalid,hcs,htext,hout⟩ := characters_some h
      refine ⟨ps,cs,hps,hvalid,hcs,?_,hout⟩
      rw [hb, htext, stringToken, List.cons_append, List.append_assoc]
      rfl
    · rw [string, if_neg hb] at h
      cases h

end Bvstk.Config
