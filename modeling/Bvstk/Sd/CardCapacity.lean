import Mathlib.Data.Nat.Bitwise
import Mathlib.Tactic.IntervalCases

/-! # The capacity of a raw SD card

The Neutrino card initialization takes the number of sectors from the CSD register, of which the
controller keeps the bits 127 to 8 in four words. The masks for a card of standard capacity are not
those of the register: C_SIZE_MULT is masked away, and of C_SIZE the bits 71 to 66 are left out and
the bits 77 to 74, which belong to other fields, are taken in.
-/
namespace Bvstk.Sd

/-! ## The decoding -/

/-- `csd[i]`: the bits 32 i + 39 to 32 i + 8 of the register. -/
def csdWord (card : BitVec 128) (i : Fin 4) : UInt32 := UInt32.ofBitVec (card.extractLsb' (32 * i + 8) 32)

def sdSectorSize : UInt32 := 512

def blockLength (csd : Fin 4 → UInt32) : UInt32 := (1 : UInt32) <<< ((csd 2 &&& 0x00000F00) >>> 8)

def multiplier (csd : Fin 4 → UInt32) : UInt32 := (1 : UInt32) <<< (((csd 1 &&& 0x0000007F) >>> 7) + 2)

def deviceSize (csd : Fin 4 → UInt32) : UInt32 :=
  ((csd 1 &&& 0x03C00000) >>> 22) ||| ((csd 2 &&& 0x0000003F) <<< 10)

/-- `count`, before it is compared with 0 and stored. -/
def sectorCount (highCapacity : Bool) (csd : Fin 4 → UInt32) : UInt32 :=
  if highCapacity then (((csd 1 &&& 0x3FFFFF00) >>> 8) + 1) * 1024
  else ((deviceSize csd + 1) * multiplier csd * blockLength csd) / sdSectorSize

/-! ## The register -/

/-- The bits `high` to `low` of the register. -/
def csdField (card : BitVec 128) (high low : ℕ) : ℕ := card.toNat / 2 ^ low % 2 ^ (high + 1 - low)

def readBlLen (card : BitVec 128) : ℕ := csdField card 83 80
def cSizeMult (card : BitVec 128) : ℕ := csdField card 49 47
def cSize (card : BitVec 128) : ℕ := csdField card 73 62
def cSizeHigh (card : BitVec 128) : ℕ := csdField card 69 48

/-- The capacity of the specification, in sectors of 512 bytes. -/
def specSectors (highCapacity : Bool) (card : BitVec 128) : ℕ :=
  if highCapacity then (cSizeHigh card + 1) * 1024
  else (cSize card + 1) * 2 ^ (cSizeMult card + 2) * 2 ^ readBlLen card / 512

/-- The card's sector count is the specification's wherever 32 bits hold that. -/
def CapacityExact (highCapacity : Bool) (card : BitVec 128) : Prop :=
  specSectors highCapacity card < 2 ^ 32 →
    (sectorCount highCapacity (csdWord card)).toNat = specSectors highCapacity card

/-! ## Masked words are fields -/

theorem masked_toNat (w mask k : UInt32) (n : ℕ) (hmask : mask.toNat >>> (k.toNat % 32) = 2 ^ n - 1) :
    ((w &&& mask) >>> k).toNat = w.toNat / 2 ^ (k.toNat % 32) % 2 ^ n := by
  rw [UInt32.toNat_shiftRight,UInt32.toNat_and,Nat.shiftRight_and_distrib,hmask,Nat.and_two_pow_sub_one_eq_mod,
    Nat.shiftRight_eq_div_pow]

theorem csdWord_toNat (card : BitVec 128) (i : Fin 4) :
    (csdWord card i).toNat = card.toNat / 2 ^ (32 * i.val + 8) % 2 ^ 32 := by
  simp [csdWord,Nat.shiftRight_eq_div_pow]

/-- A part of a word is a field of the register. -/
theorem csdWord_field (card : BitVec 128) (i : Fin 4) (k n : ℕ) (hk : k + n ≤ 32) :
    (csdWord card i).toNat / 2 ^ k % 2 ^ n = csdField card (32 * i + 8 + k + n - 1) (32 * i + 8 + k) := by
  have hwidth : (32 * i.val + 8 + k + n - 1) + 1 - (32 * i + 8 + k) = n ∨ n = 0 := by omega
  rcases hwidth with hwidth | rfl
  · rw [csdField,hwidth,csdWord_toNat]
    apply Nat.eq_of_testBit_eq
    intro j
    simp only [Nat.testBit_mod_two_pow,Nat.testBit_div_two_pow]
    by_cases hj : j < n
    · have hlow : j + k < 32 := by omega
      simp only [hj,hlow,decide_true,Bool.true_and]
      congr 1
      omega
    · simp [hj]
  · have hone : (32 * i.val + 8 + k + 0 - 1) + 1 - (32 * i + 8 + k) = 0 := by omega
    rw [csdField,hone]
    simp [Nat.mod_one]

section Standard
variable (card : BitVec 128)

theorem blockLength_toNat : (blockLength (csdWord card)).toNat = 2 ^ readBlLen card := by
  have hfield : ((csdWord card 2 &&& 0x00000F00) >>> 8).toNat = readBlLen card :=
    (masked_toNat _ _ 8 4 (by decide)).trans (csdWord_field card 2 8 4 (by decide))
  have hlt : readBlLen card < 16 := Nat.mod_lt _ (by decide)
  rw [blockLength,UInt32.toNat_shiftLeft,hfield,Nat.mod_eq_of_lt (show readBlLen card < 32 by omega),Nat.shiftLeft_eq]
  have hpow : 2 ^ readBlLen card ≤ 2 ^ 15 := Nat.pow_le_pow_right (by decide) (by omega)
  rw [UInt32.toNat_one,one_mul]
  apply Nat.mod_eq_of_lt
  omega

/-- The mask of the multiplier ends below the field, so that the shift always gives 0. -/
theorem multiplier_eq (csd : Fin 4 → UInt32) : multiplier csd = 4 := by
  have hfield : ((csd 1 &&& 0x0000007F) >>> 7).toNat = 0 := by
    rw [masked_toNat _ _ 7 0 (by decide)]
    exact Nat.mod_one _
  have hzero : (csd 1 &&& 0x0000007F) >>> 7 = 0 := UInt32.toNat_inj.1 hfield
  rw [multiplier,hzero]
  decide

theorem deviceSize_toNat :
    (deviceSize (csdWord card)).toNat = csdField card 65 62 + 1024 * csdField card 77 72 := by
  have hlow : ((csdWord card 1 &&& 0x03C00000) >>> 22).toNat = csdField card 65 62 :=
    (masked_toNat _ _ 22 4 (by decide)).trans (csdWord_field card 1 22 4 (by decide))
  have hword : (csdWord card 2 &&& 0x0000003F).toNat = csdField card 77 72 := by
    have hfield := csdWord_field card 2 0 6 (by decide)
    rw [UInt32.toNat_and]
    change (csdWord card 2).toNat &&& (2 ^ 6 - 1) = _
    rw [Nat.and_two_pow_sub_one_eq_mod]
    simpa using hfield
  have hlowLt : csdField card 65 62 < 2 ^ 10 := (Nat.mod_lt _ (by decide)).trans (by decide)
  have hwordLt : csdField card 77 72 < 2 ^ 6 := Nat.mod_lt _ (by decide)
  have hshift : ((csdWord card 2 &&& 0x0000003F) <<< 10).toNat = csdField card 77 72 <<< 10 := by
    rw [UInt32.toNat_shiftLeft,hword]
    change csdField card 77 72 <<< 10 % 2 ^ 32 = _
    apply Nat.mod_eq_of_lt
    rw [Nat.shiftLeft_eq]
    omega
  rw [deviceSize,UInt32.toNat_or,hlow,hshift,Nat.or_comm,← Nat.shiftLeft_add_eq_or_of_lt hlowLt,Nat.shiftLeft_eq]
  omega

/-- The product of the code, with the multiplication by 4 and the wrap of 32 bits. -/
theorem standardCount_toNat : (sectorCount false (csdWord card)).toNat =
    (csdField card 65 62 + 1024 * csdField card 77 72 + 1) * 4 * 2 ^ readBlLen card % 2 ^ 32 / 512 := by
  have hsize := deviceSize_toNat card
  have hlow : csdField card 65 62 < 2 ^ 4 := Nat.mod_lt _ (by decide)
  have hword : csdField card 77 72 < 2 ^ 6 := Nat.mod_lt _ (by decide)
  have hlen := blockLength_toNat card
  simp only [sectorCount,multiplier_eq,Bool.false_eq_true,if_false,UInt32.toNat_div,UInt32.toNat_mul,UInt32.toNat_add,
    hsize,hlen,sdSectorSize]
  simp only [UInt32.toNat_one,UInt32.reduceToNat,Nat.mod_mul_mod]

/-! ## When the two agree -/

/-- The fields of which the code reads the wrong bits, or none. -/
def middleSize : ℕ := csdField card 71 66
def foreignBits : ℕ := csdField card 77 74

theorem cSize_parts :
    cSize card = csdField card 65 62 + 16 * middleSize card + 1024 * csdField card 73 72 := by
  simp only [cSize,middleSize,csdField]
  omega

theorem wrongHigh_parts : csdField card 77 72 = csdField card 73 72 + 4 * foreignBits card := by
  simp only [foreignBits,csdField]
  omega

/-- `deviceSize + 1`, as the code reads it. -/
def readUnits : ℕ := csdField card 65 62 + 1024 * csdField card 77 72 + 1

/-- (C_SIZE + 1) * 2 ^ C_SIZE_MULT. -/
def specUnits : ℕ := (cSize card + 1) * 2 ^ cSizeMult card

theorem readUnits_le : readUnits card ≤ 2 ^ 16 := by
  simp only [readUnits,csdField]
  omega

theorem specUnits_bounds : 0 < specUnits card ∧ specUnits card < 2 ^ 20 := by
  have hsize : cSize card < 2 ^ 12 := Nat.mod_lt _ (by decide)
  have hmult : cSizeMult card < 8 := Nat.mod_lt _ (by decide)
  have hpow : 2 ^ cSizeMult card ≤ 2 ^ 7 := Nat.pow_le_pow_right (by decide) (by omega)
  constructor
  · exact Nat.mul_pos (by omega) (Nat.two_pow_pos _)
  · calc specUnits card ≤ 2 ^ 12 * 2 ^ 7 := Nat.mul_le_mul (by omega) hpow
      _ < 2 ^ 20 := by decide

/-- The size that is read is right up to multiples of 2 ^ 15 if the bits left out are zero, as is the
multiplier, and of the foreign bits at most the highest is set. -/
theorem readUnits_mod_iff : readUnits card % 2 ^ 15 = specUnits card ↔
    cSizeMult card = 0 ∧ middleSize card = 0 ∧ foreignBits card % 8 = 0 := by
  have hlow : csdField card 65 62 < 16 := Nat.mod_lt _ (by decide)
  have hmiddle : middleSize card < 64 := Nat.mod_lt _ (by decide)
  have hhigh : csdField card 73 72 < 4 := Nat.mod_lt _ (by decide)
  have hforeign : foreignBits card < 16 := Nat.mod_lt _ (by decide)
  have hmult : cSizeMult card < 8 := Nat.mod_lt _ (by decide)
  rw [readUnits,specUnits,cSize_parts,wrongHigh_parts]
  generalize cSizeMult card = m at hmult ⊢
  interval_cases m <;> omega

theorem readUnits_iff : readUnits card = specUnits card ↔
    cSizeMult card = 0 ∧ middleSize card = 0 ∧ foreignBits card = 0 := by
  have hlow : csdField card 65 62 < 16 := Nat.mod_lt _ (by decide)
  have hmiddle : middleSize card < 64 := Nat.mod_lt _ (by decide)
  have hhigh : csdField card 73 72 < 4 := Nat.mod_lt _ (by decide)
  have hforeign : foreignBits card < 16 := Nat.mod_lt _ (by decide)
  have hmult : cSizeMult card < 8 := Nat.mod_lt _ (by decide)
  rw [readUnits,specUnits,cSize_parts,wrongHigh_parts]
  generalize cSizeMult card = m at hmult ⊢
  interval_cases m <;> omega

/-- Blocks of 128 bytes and more: the bits that are left out or read in their place have no part in the
capacity. Only for the longest blocks the highest foreign bit wraps away. Shorter blocks, which no card
has, forgive what the division drops. -/
def Decoded : Prop :=
  if readBlLen card < 7 then
    readUnits card / 2 ^ (7 - readBlLen card) = specUnits card / 2 ^ (7 - readBlLen card)
  else cSizeMult card = 0 ∧ middleSize card = 0 ∧
    (foreignBits card = 0 ∨ (readBlLen card = 15 ∧ foreignBits card = 8))

theorem specSectors_standard : specSectors false card = specUnits card * 4 * 2 ^ readBlLen card / 512 := by
  simp only [specSectors,specUnits,Bool.false_eq_true,if_false,pow_add]
  congr 1
  exact congrArg (· * 2 ^ readBlLen card) (mul_assoc _ _ _).symm

theorem specSectors_lt : specSectors false card < 2 ^ 32 := by
  have hunits := (specUnits_bounds card).2
  have hlen : readBlLen card < 16 := Nat.mod_lt _ (by decide)
  rw [specSectors_standard]
  generalize readBlLen card = n at hlen ⊢
  interval_cases n <;> omega

/-- The largest size, for which the product can wrap to zero, is never the right one. -/
theorem readUnits_top (htop : readUnits card = 2 ^ 16) : readUnits card ≠ specUnits card := by
  have hforeign : foreignBits card ≠ 0 := by
    simp only [readUnits,foreignBits,csdField] at htop ⊢
    omega
  exact fun heq => hforeign ((readUnits_iff card).1 heq).2.2

section Product
variable {read spec n : ℕ}

theorem shortProduct_iff (hread : read ≤ 2 ^ 16) (hn : n < 7) :
    read * 4 * 2 ^ n % 2 ^ 32 / 512 = spec * 4 * 2 ^ n / 512 ↔ read / 2 ^ (7 - n) = spec / 2 ^ (7 - n) := by
  interval_cases n <;> omega

theorem product_iff (hread : read ≤ 2 ^ 16) (hpos : 0 < spec) (htop : read = 2 ^ 16 → read ≠ spec) (hlow : 7 ≤ n)
    (hhigh : n < 15) :
    read * 4 * 2 ^ n % 2 ^ 32 / 512 = spec * 4 * 2 ^ n / 512 ↔ read = spec := by
  interval_cases n <;> omega

/-- The longest blocks: the product wraps. -/
theorem longProduct_iff (hspec : spec < 2 ^ 20) :
    read * 4 * 2 ^ 15 % 2 ^ 32 / 512 = spec * 4 * 2 ^ 15 / 512 ↔ read % 2 ^ 15 = spec := by
  omega

end Product

theorem standardCount_iff :
    (sectorCount false (csdWord card)).toNat = specSectors false card ↔ Decoded card := by
  have hread := readUnits_le card
  obtain ⟨hpos,hspec⟩ := specUnits_bounds card
  have hlen : readBlLen card < 16 := Nat.mod_lt _ (by decide)
  have hforeign : foreignBits card < 16 := Nat.mod_lt _ (by decide)
  rw [standardCount_toNat,specSectors_standard,Decoded]
  change readUnits card * 4 * 2 ^ readBlLen card % 2 ^ 32 / 512 = _ ↔ _
  rcases Nat.lt_or_ge (readBlLen card) 7 with hshort | hlong
  · rw [if_pos hshort]
    exact shortProduct_iff hread hshort
  rw [if_neg (Nat.not_lt.2 hlong)]
  rcases Nat.lt_or_ge (readBlLen card) 15 with hmid | hend
  · rw [product_iff hread hpos (readUnits_top card) hlong hmid,readUnits_iff]
    have hne : readBlLen card ≠ 15 := hmid.ne
    simp only [hne,false_and,or_false]
  · have heq : readBlLen card = 15 := by omega
    have hbits : foreignBits card % 8 = 0 ↔ foreignBits card = 0 ∨ foreignBits card = 8 := by omega
    rw [heq,longProduct_iff hspec,readUnits_mod_iff,hbits]
    simp only [true_and]

end Standard

/-- The sector count of a card is the specification's if and only if the card is one of high capacity,
or the wrong masks do no harm to it. -/
theorem capacityExact_iff (highCapacity : Bool) (card : BitVec 128) :
    CapacityExact highCapacity card ↔ highCapacity = true ∨ Decoded card := by
  cases highCapacity with
  | true =>
    refine ⟨fun _ => Or.inl rfl,fun _ hfits => ?_⟩
    have hfield : ((csdWord card 1 &&& 0x3FFFFF00) >>> 8).toNat = cSizeHigh card :=
      (masked_toNat _ _ 8 22 (by decide)).trans (csdWord_field card 1 8 22 (by decide))
    have hlt : cSizeHigh card < 2 ^ 22 := Nat.mod_lt _ (by decide)
    simp only [specSectors,if_true] at hfits
    simp only [sectorCount,specSectors,if_true,UInt32.toNat_mul,UInt32.toNat_add,hfield]
    simp only [UInt32.toNat_one,UInt32.reduceToNat]
    omega
  | false =>
    have hfits := specSectors_lt card
    rw [CapacityExact,← standardCount_iff card]
    simp only [hfits,true_implies,Bool.false_eq_true,false_or]

/-- A card of 980 MB: C_SIZE is 3919, C_SIZE_MULT 7 and READ_BL_LEN 9. -/
def megabyteCard : BitVec 128 :=
  BitVec.ofNat 128 (3919 * 2 ^ 62 + 7 * 2 ^ 47 + 9 * 2 ^ 80)

/-- It has 2007040 sectors. The code finds 12352. -/
theorem megabyteCard_short : ¬CapacityExact false megabyteCard := by
  have hspec : specSectors false megabyteCard = 2007040 := by decide
  have hcount : (sectorCount false (csdWord megabyteCard)).toNat = 12352 := by decide
  intro hexact
  rw [CapacityExact,hspec,hcount] at hexact
  exact absurd (hexact (by decide)) (by decide)

end Bvstk.Sd
