import Bvstk.Library.BinaryPolynomial
import Bvstk.Pl.SdMaster

/-! # The checksums of the SD master

`bvstk_sd_master_crc7` and `bvstk_sd_master_crc16` are the remainders of the message polynomial. The
seven bits of the first move in the low bits of a byte, whose top bit is left to what falls out.
-/
namespace Bvstk.Pl.SdMaster
open BinaryPolynomial Polynomial

noncomputable def crc7Poly : (ZMod 2)[X] := X ^ 7 + X ^ 3 + 1
noncomputable def crc16Poly : (ZMod 2)[X] := X ^ 16 + X ^ 12 + X ^ 5 + 1

/-- The generators' words are the constants of the code. -/
theorem generator7 : generator 7 0x09 = crc7Poly := by
  have hword : (0x09 : ℕ) = 2 ^ 3 ^^^ 2 ^ 0 := by decide
  rw [generator,hword,wordPoly_xor,wordPoly_bit (by decide),wordPoly_bit (by decide),crc7Poly,pow_zero,add_assoc]

theorem generator16 : generator 16 0x1021 = crc16Poly := by
  have hword : (0x1021 : ℕ) = 2 ^ 12 ^^^ (2 ^ 5 ^^^ 2 ^ 0) := by decide
  rw [generator,hword,wordPoly_xor,wordPoly_xor,wordPoly_bit (by decide),wordPoly_bit (by decide),
    wordPoly_bit (by decide),crc16Poly,pow_zero,add_assoc,add_assoc]

/-! ## Sixteen bits -/

theorem crc16Bit_congruent (crc : UInt16) :
    Congruent (generator 16 0x1021) (wordPoly 16 (crc16Bit crc).toNat) (X * wordPoly 16 crc.toNat) := by
  have htop : crc &&& 0x8000 ≠ 0 ↔ crc.toNat.testBit 15 = true := by
    rw [Ne,← UInt16.toNat_inj,UInt16.toNat_and]
    change ¬crc.toNat &&& 2 ^ 15 = 0 ↔ _
    rw [Nat.and_two_pow]
    cases crc.toNat.testBit 15 <;> simp
  have hdouble : (crc <<< 1).toNat = 2 * crc.toNat % 2 ^ 16 := by
    rw [UInt16.toNat_shiftLeft]
    change crc.toNat <<< 1 % 2 ^ 16 = _
    rw [Nat.shiftLeft_eq,Nat.mul_comm]
  have hword : wordPoly 16 (crc16Bit crc).toNat =
      wordPoly 16 (2 * crc.toNat) + if crc.toNat.testBit 15 = true then wordPoly 16 0x1021 else 0 := by
    rw [crc16Bit,UInt16.toNat_xor,wordPoly_xor,hdouble,wordPoly_mod]
    congr 1
    simp only [htop]
    split
    · exact Eq.refl _
    · exact wordPoly_zero 16
  rw [hword]
  exact step_congruent 15 0x1021 crc.toNat

theorem crc16Bits_congruent (n : ℕ) (crc : UInt16) :
    Congruent (generator 16 0x1021) (wordPoly 16 (crc16Bit^[n] crc).toNat) (X ^ n * wordPoly 16 crc.toNat) := by
  induction n generalizing crc with
  | zero =>
    rw [pow_zero,one_mul]
    exact Eq.refl _
  | succ n ih =>
    rw [Function.iterate_succ_apply]
    refine (ih (crc16Bit crc)).trans ?_
    rw [pow_succ,mul_assoc]
    exact (crc16Bit_congruent crc).mul (X ^ n)

/-- A byte is added at the top, then it moves through. -/
theorem crc16Byte_congruent (crc : UInt16) (byte : UInt8) :
    Congruent (generator 16 0x1021) (wordPoly 16 (crc16Byte crc byte).toNat)
      (X ^ 8 * (wordPoly 16 crc.toNat + X ^ 8 * wordPoly 8 byte.toNat)) := by
  have hbyte := byte.toNat_lt
  have hshift : (byte.toUInt16 <<< 8).toNat = 2 ^ 8 * byte.toNat := by
    rw [UInt16.toNat_shiftLeft,UInt8.toNat_toUInt16]
    change byte.toNat <<< 8 % 2 ^ 16 = _
    rw [Nat.shiftLeft_eq]
    omega
  have hsum : wordPoly 16 (crc ^^^ (byte.toUInt16 <<< 8)).toNat = wordPoly 16 crc.toNat + X ^ 8 * wordPoly 8 byte.toNat := by
    rw [UInt16.toNat_xor,wordPoly_xor,hshift]
    exact congrArg (wordPoly 16 crc.toNat + ·) (wordPoly_shift 8 byte.toNat 8)
  rw [← hsum]
  exact crc16Bits_congruent 8 _

theorem crc16_congruent (data : List UInt8) :
    Congruent (generator 16 0x1021) (wordPoly 16 (crc16 data).toNat) (messagePoly data * X ^ 16) := by
  induction data using List.reverseRecOn with
  | nil =>
    have hnil : crc16 [] = 0 := Eq.refl _
    rw [hnil,messagePoly,List.foldl_nil,zero_mul]
    exact congrArg _ (wordPoly_zero 16)
  | append_singleton data byte ih =>
    have hlast : crc16 (data ++ [byte]) = crc16Byte (crc16 data) byte := List.foldl_concat _ _ _ _
    have hpoly : messagePoly (data ++ [byte]) * X ^ 16 =
        X ^ 8 * (messagePoly data * X ^ 16 + X ^ 8 * wordPoly 8 byte.toNat) := by
      rw [messagePoly_concat]
      ring
    rw [hlast,hpoly]
    exact (crc16Byte_congruent (crc16 data) byte).trans ((ih.add _).mul (X ^ 8))

theorem crc16_remainder (data : List UInt8) :
    wordPoly 16 (crc16 data).toNat = (messagePoly data * X ^ 16) %ₘ crc16Poly := by
  rw [← generator16]
  apply congruent_remainder (generator_monic 16 0x1021) _ (crc16_congruent data)
  rw [degree_generator]
  exact degree_wordPoly 16 _

/-! ## Seven bits -/

theorem top_bit (b : UInt8) : b &&& 0x80 ≠ 0 ↔ b.toNat.testBit 7 = true := by
  rw [Ne,← UInt8.toNat_inj,UInt8.toNat_and]
  change ¬b.toNat &&& 2 ^ 7 = 0 ↔ _
  rw [Nat.and_two_pow]
  cases b.toNat.testBit 7 <;> simp

theorem double_toNat (b : UInt8) : (b <<< 1).toNat = 2 * b.toNat % 2 ^ 8 := by
  rw [UInt8.toNat_shiftLeft]
  change b.toNat <<< 1 % 2 ^ 8 = _
  rw [Nat.shiftLeft_eq,Nat.mul_comm]

/-- The register and the bits still to come, as one polynomial. -/
noncomputable def pending (s : UInt8 × UInt8) : (ZMod 2)[X] := X * wordPoly 7 s.1.toNat + wordPoly 8 s.2.toNat

/-- What the register holds after a bit: its own top bit and the message's take the generator away. -/
theorem crc7Bit_word (s : UInt8 × UInt8) : wordPoly 7 (crc7Bit s).1.toNat = wordPoly 7 (2 * s.1.toNat) +
    if s.2.toNat.testBit 7 ≠ s.1.toNat.testBit 6 then wordPoly 7 0x09 else 0 := by
  have hlow : ∀ n, wordPoly 7 (n % 2 ^ 8) = wordPoly 7 n := by
    intro n
    rw [← wordPoly_mod 7 (n % 2 ^ 8),Nat.mod_mod_of_dvd n (by decide),wordPoly_mod]
  have hbit : (2 * s.1.toNat % 2 ^ 8).testBit 7 = s.1.toNat.testBit 6 := by
    rw [Nat.testBit_mod_two_pow,Nat.testBit_succ,Nat.mul_div_cancel_left _ (by decide)]
    exact Bool.true_and _
  have htop : (s.2 ^^^ s.1 <<< 1) &&& 0x80 ≠ 0 ↔ s.2.toNat.testBit 7 ≠ s.1.toNat.testBit 6 := by
    rw [top_bit,UInt8.toNat_xor,Nat.testBit_xor,double_toNat,hbit]
    cases s.2.toNat.testBit 7 <;> cases s.1.toNat.testBit 6 <;> decide
  rw [crc7Bit]
  simp only [htop]
  split
  · rw [UInt8.toNat_xor,wordPoly_xor,double_toNat,hlow]
    exact Eq.refl _
  · rw [double_toNat,hlow,add_zero]

theorem crc7Bit_congruent (s : UInt8 × UInt8) :
    Congruent (generator 7 0x09) (pending (crc7Bit s)) (X * pending s) := by
  have htwo : (2 : (ZMod 2)[X]) = 0 := CharTwo.two_eq_zero
  have hstep := step_congruent 6 0x09 s.1.toNat
  have hrest : wordPoly 8 (crc7Bit s).2.toNat = wordPoly 8 (2 * s.2.toNat) := by
    change wordPoly 8 (s.2 <<< 1).toNat = _
    rw [double_toNat,wordPoly_mod]
  have hnext : X * wordPoly 8 s.2.toNat = wordPoly 8 (2 * s.2.toNat) + if s.2.toNat.testBit 7 = true then X ^ 8 else 0 := by
    have hbit : (2 * s.2.toNat).testBit 8 = s.2.toNat.testBit 7 := by
      rw [Nat.testBit_succ,Nat.mul_div_cancel_left _ (by decide)]
    rw [← wordPoly_double,wordPoly_succ,hbit]
  have hgenerator : generator 7 0x09 = X ^ 7 + wordPoly 7 0x09 := Eq.refl _
  rw [pending,pending,crc7Bit_word,hrest,mul_add X (X * _),hnext]
  refine Eq.trans ?_ ((hstep.mul X).add _)
  cases hb : s.2.toNat.testBit 7 with
  | false =>
    cases hc : s.1.toNat.testBit 6 with
    | false => simp
    | true => simp
  | true =>
    -- the message's bit takes the generator in where the register's does not, and the other way round
    refine (congruent_add_mul _ _ X).symm.trans (congrArg _ ?_)
    rw [hgenerator]
    cases hc : s.1.toNat.testBit 6 with
    | false =>
      simp only [ne_eq,Bool.true_eq_false,not_false_eq_true,if_true,if_false,Bool.false_eq_true]
      linear_combination X * wordPoly 7 0x09 * htwo
    | true =>
      simp only [ne_eq,not_true_eq_false,if_false,if_true]
      ring

theorem crc7Bits_congruent (n : ℕ) (s : UInt8 × UInt8) :
    Congruent (generator 7 0x09) (pending (crc7Bit^[n] s)) (X ^ n * pending s) := by
  induction n generalizing s with
  | zero =>
    rw [pow_zero,one_mul]
    exact Eq.refl _
  | succ n ih =>
    rw [Function.iterate_succ_apply]
    refine (ih (crc7Bit s)).trans ?_
    rw [pow_succ,mul_assoc]
    exact (crc7Bit_congruent s).mul (X ^ n)

/-- After eight bits none is left of the byte. -/
theorem crc7Bits_rest (n : ℕ) (s : UInt8 × UInt8) : (crc7Bit^[n] s).2.toNat = 2 ^ n * s.2.toNat % 2 ^ 8 := by
  induction n generalizing s with
  | zero =>
    rw [pow_zero,one_mul]
    exact (Nat.mod_eq_of_lt s.2.toNat_lt).symm
  | succ n ih =>
    have hnext : (crc7Bit s).2.toNat = 2 * s.2.toNat % 2 ^ 8 := double_toNat s.2
    rw [Function.iterate_succ_apply,ih,hnext,Nat.mul_mod_mod,pow_succ 2 n,mul_assoc]

theorem crc7Byte_congruent (crc byte : UInt8) :
    Congruent (generator 7 0x09) (wordPoly 7 (crc7Byte crc byte).toNat)
      (X ^ 8 * wordPoly 7 crc.toNat + X ^ 7 * wordPoly 8 byte.toNat) := by
  apply congruent_cancel (by decide)
  have hbits := crc7Bits_congruent 8 (crc,byte)
  have hrest := crc7Bits_rest 8 (crc,byte)
  rw [Nat.mul_mod_right] at hrest
  rw [pending,pending,hrest,wordPoly_zero,add_zero] at hbits
  refine hbits.trans (congrArg _ ?_)
  ring

theorem crc7_congruent (data : List UInt8) :
    Congruent (generator 7 0x09) (wordPoly 7 (data.foldl crc7Byte 0).toNat) (messagePoly data * X ^ 7) := by
  induction data using List.reverseRecOn with
  | nil =>
    rw [messagePoly,List.foldl_nil,List.foldl_nil,zero_mul]
    exact congrArg _ (wordPoly_zero 7)
  | append_singleton data byte ih =>
    have hpoly : messagePoly (data ++ [byte]) * X ^ 7 =
        X ^ 8 * (messagePoly data * X ^ 7) + X ^ 7 * wordPoly 8 byte.toNat := by
      rw [messagePoly_concat]
      ring
    rw [List.foldl_concat,hpoly]
    exact (crc7Byte_congruent _ byte).trans ((ih.mul (X ^ 8)).add _)

/-- The result is the register, moved up, with the end bit below it. -/
theorem crc7_toNat (data : List UInt8) : (crc7 data).toNat = 2 * ((data.foldl crc7Byte 0).toNat % 2 ^ 7) + 1 := by
  have hlow : (data.foldl crc7Byte 0 <<< 1).toNat = 2 * ((data.foldl crc7Byte 0).toNat % 2 ^ 7) := by
    rw [double_toNat]
    omega
  rw [crc7,UInt8.toNat_or,hlow]
  exact (Nat.two_pow_add_eq_or_of_lt (show 1 < 2 ^ 1 by decide) ((data.foldl crc7Byte 0).toNat % 2 ^ 7)).symm

theorem crc7_remainder (data : List UInt8) :
    wordPoly 7 ((crc7 data).toNat / 2) = (messagePoly data * X ^ 7) %ₘ crc7Poly := by
  have hhalf : (crc7 data).toNat / 2 = (data.foldl crc7Byte 0).toNat % 2 ^ 7 := by
    rw [crc7_toNat]
    omega
  rw [hhalf,wordPoly_mod,← generator7]
  apply congruent_remainder (generator_monic 7 0x09) _ (crc7_congruent data)
  rw [degree_generator]
  exact degree_wordPoly 7 _

/-! ## What a checksum is good for -/

/-- The block with its checksum behind it, as it goes over the wire. -/
def sealed16 (data : List UInt8) : List UInt8 := data ++ [(crc16 data >>> 8).toUInt8,(crc16 data).toUInt8]

theorem sealed16_poly (data : List UInt8) :
    messagePoly (sealed16 data) = messagePoly data * X ^ 16 + wordPoly 16 (crc16 data).toNat := by
  have hhigh : (crc16 data >>> 8).toUInt8.toNat = (crc16 data).toNat / 2 ^ 8 % 2 ^ 8 := by
    rw [UInt16.toNat_toUInt8,UInt16.toNat_shiftRight]
    change (crc16 data).toNat >>> 8 % 2 ^ 8 = _
    rw [Nat.shiftRight_eq_div_pow]
  have hlow : (crc16 data).toUInt8.toNat = (crc16 data).toNat % 2 ^ 8 := UInt16.toNat_toUInt8 _
  have htwo : messagePoly [(crc16 data >>> 8).toUInt8,(crc16 data).toUInt8] = wordPoly 16 (crc16 data).toNat := by
    have hsplit := wordPoly_split 8 8 (crc16 data).toNat
    rw [messagePoly,List.foldl_cons,List.foldl_cons,List.foldl_nil,hhigh,hlow,wordPoly_mod,wordPoly_mod,hsplit]
    ring
  rw [sealed16,messagePoly_append,htwo]
  exact Eq.refl _

theorem sealed16_remainder (data : List UInt8) : messagePoly (sealed16 data) %ₘ crc16Poly = 0 := by
  rw [sealed16_poly,crc16_remainder,← generator16]
  exact sealed_remainder (generator_monic 16 0x1021) _

theorem crc16_sealed (data : List UInt8) : crc16 (sealed16 data) = 0 := by
  have hpoly : wordPoly 16 (crc16 (sealed16 data)).toNat = wordPoly 16 0 := by
    have hdvd := (modByMonic_eq_zero_iff_dvd (generator16 ▸ generator_monic 16 0x1021)).1 (sealed16_remainder data)
    rw [crc16_remainder,wordPoly_zero,modByMonic_eq_zero_iff_dvd (generator16 ▸ generator_monic 16 0x1021)]
    exact hdvd.mul_right _
  have hmod := wordPoly_injective hpoly
  rw [Nat.mod_eq_of_lt (crc16 (sealed16 data)).toNat_lt] at hmod
  exact UInt16.toNat_inj.1 hmod

/-- The checksums are the remainders of the message polynomial, the first with its end bit. With its
checksum a message leaves no remainder; with any one bit of the two changed it does, and a message
with one bit changed has another checksum. -/
theorem checksums_are_remainders :
    (∀ data, (crc7 data).toNat % 2 = 1 ∧
      wordPoly 7 ((crc7 data).toNat / 2) = (messagePoly data * X ^ 7) %ₘ crc7Poly) ∧
    (∀ data, wordPoly 16 (crc16 data).toNat = (messagePoly data * X ^ 16) %ₘ crc16Poly) ∧
    (∀ data, (messagePoly data * X ^ 7 + wordPoly 7 ((crc7 data).toNat / 2)) %ₘ crc7Poly = 0 ∧
      messagePoly (sealed16 data) %ₘ crc16Poly = 0 ∧ crc16 (sealed16 data) = 0) ∧
    (∀ data k, (messagePoly data * X ^ 7 + wordPoly 7 ((crc7 data).toNat / 2) + X ^ k) %ₘ crc7Poly ≠ 0 ∧
      (messagePoly (sealed16 data) + X ^ k) %ₘ crc16Poly ≠ 0) ∧
    (∀ data data', BitChange data data' → crc7 data' ≠ crc7 data ∧ crc16 data' ≠ crc16 data) := by
  have hsealed7 : ∀ data, (messagePoly data * X ^ 7 + wordPoly 7 ((crc7 data).toNat / 2)) %ₘ crc7Poly = 0 := by
    intro data
    rw [crc7_remainder,← generator7]
    exact sealed_remainder (generator_monic 7 0x09) _
  refine ⟨fun data => ⟨?_,crc7_remainder data⟩,crc16_remainder,
    fun data => ⟨hsealed7 data,sealed16_remainder data,crc16_sealed data⟩,fun data k => ⟨?_,?_⟩,
    fun data data' hchange => ⟨fun heq => ?_,fun heq => ?_⟩⟩
  · rw [crc7_toNat]
    omega
  · have hzero := hsealed7 data
    rw [← generator7] at hzero ⊢
    exact hzero ▸ changed_remainder (by decide) 6 k _
  · have hzero := sealed16_remainder data
    rw [← generator16] at hzero ⊢
    exact hzero ▸ changed_remainder (by decide) 15 k _
  · have hpoly := crc7_remainder data'
    rw [heq,crc7_remainder,← generator7] at hpoly
    exact bitChange_remainder (by decide) 6 7 hchange hpoly.symm
  · have hpoly := crc16_remainder data'
    rw [heq,crc16_remainder,← generator16] at hpoly
    exact bitChange_remainder (by decide) 15 16 hchange hpoly.symm

end Bvstk.Pl.SdMaster
