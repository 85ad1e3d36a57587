import Bvstk.Sd.Volume
import Mathlib.Order.Nat
import Mathlib.Algebra.Group.Nat.Defs

/-! # A volume stays within its partition

The calculation of `bpb` in numbers without bounds gives the same as the one of the machine,
whatever the card says. What it accepts then fits, and so does what is mapped.
-/
namespace Bvstk.Sd

/-! ## The numbers of a boot sector -/

def totalSectors (p : Sector) : ℕ := if (le16 p 19).toNat = 0 then (le32 p 32).toNat else (le16 p 19).toNat
def fatSectors (p : Sector) : ℕ := if (le16 p 22).toNat = 0 then (le32 p 36).toNat else (le16 p 22).toNat
def sectorsPerCluster (p : Sector) : ℕ := p[13]!.toNat

/-- What stands before the FATs, the FATs, and the root directory of FAT12 and FAT16. -/
def reservedArea (p : Sector) : ℕ := (le16 p 14).toNat
def fatArea (p : Sector) : ℕ := p[16]!.toNat * fatSectors p
def rootArea (p : Sector) : ℕ := (le16 p 17).toNat / 16

def dataStart (p : Sector) : ℕ := reservedArea p + fatArea p + rootArea p
def clusterCount (p : Sector) : ℕ := (totalSectors p - dataStart p) / sectorsPerCluster p
def fatBits (p : Sector) : ℕ := if clusterCount p < 4085 then 12 else if clusterCount p < 65525 then 16 else 32

/-- The first check of `bpb`. -/
def Formed (p : Sector) : Prop :=
  signature p = true ∧ (p[0]! = 0xeb ∨ p[0]! = 0xe9) ∧ (le16 p 11).toNat = 512 ∧ reservedArea p ≠ 0 ∧
    sectorsPerCluster p ≠ 0 ∧ sectorsPerCluster p ≤ 128 ∧ sectorsPerCluster p &&& (sectorsPerCluster p - 1) = 0 ∧
    (p[16]!.toNat = 1 ∨ p[16]!.toNat = 2) ∧ (le16 p 17).toNat % 16 = 0

/-- The check of the fields that only FAT32 has. -/
def LargeFits (p : Sector) : Prop :=
  (le16 p 17).toNat = 0 ∧ (le16 p 22).toNat = 0 ∧ (le16 p 42).toNat = 0 ∧ 2 ≤ (le32 p 44).toNat ∧
    (le32 p 44).toNat < clusterCount p + 2 ∧ le16 p 40 &&& 0x80 = 0 ∧
    ((le16 p 48).toNat = 0xffff ∨ (le16 p 48).toNat ≠ 0 ∧ (le16 p 48).toNat < reservedArea p) ∧
    ((le16 p 50).toNat = 0xffff ∨ (le16 p 50).toNat = 0 ∨ (le16 p 50).toNat < reservedArea p)

/-- A boot sector that is taken, in numbers without bounds. -/
structure Accepted (p : Sector) (start limit : ℕ) : Prop where
  formed : Formed p
  total : totalSectors p ≠ 0
  fat : fatSectors p ≠ 0
  limit : limit = 0 ∨ totalSectors p ≤ limit
  below : start + totalSectors p ≤ 2^32
  room : dataStart p < totalSectors p
  clusters : clusterCount p ≠ 0 ∧ clusterCount p ≤ 0x0ffffff3
  large : fatBits p = 32 → LargeFits p
  small : fatBits p ≠ 32 → (le16 p 17).toNat ≠ 0 ∧ (le16 p 22).toNat ≠ 0
  entries : ((clusterCount p + 2) * fatBits p + 7) / 8 ≤ fatSectors p * 512

/-! ## The calculation of the machine -/

section
variable {p : Sector}

theorem sumFits_iff (a b : UInt32) : sumFits a b = true ↔ a.toNat + b.toNat ≤ 2^32 := by
  have ha := a.toNat_lt
  have hb := b.toNat_lt
  have hsum : (a.toUInt64 + b.toUInt64).toNat = a.toNat + b.toNat := by
    rw [UInt64.toNat_add, UInt32.toNat_toUInt64, UInt32.toNat_toUInt64]
    omega
  rw [sumFits, decide_eq_true_iff, UInt64.le_iff_toNat_le, hsum]
  rfl

theorem widen_eq_zero (a : UInt16) : a.toUInt32 = 0 ↔ a.toNat = 0 := by
  rw [← UInt32.toNat_inj, UInt16.toNat_toUInt32]
  rfl

theorem bpbTotal_toNat (p : Sector) : (bpbTotal p).toNat = totalSectors p := by
  unfold bpbTotal totalSectors
  simp only [widen_eq_zero]
  split <;> simp

theorem bpbFat_toNat (p : Sector) : (bpbFat p).toNat = fatSectors p := by
  unfold bpbFat fatSectors
  simp only [widen_eq_zero]
  split <;> simp

theorem bpbOverhead_toNat (h : p[16]!.toNat = 1 ∨ p[16]!.toNat = 2) : (bpbOverhead p).toNat = dataStart p := by
  have hreserved := (le16 p 14).toNat_lt
  have hroots := (le16 p 17).toNat_lt
  have hfat : fatSectors p < 2^32 := by
    rw [← bpbFat_toNat]
    exact (bpbFat p).toNat_lt
  have hfats : fatArea p < 2^33 := by
    unfold fatArea
    rcases h with h | h
    · rw [h]
      omega
    · rw [h]
      omega
  unfold bpbOverhead dataStart
  simp only [bpbReserved, bpbFats, bpbRoots, UInt64.toNat_add, UInt64.toNat_mul, UInt32.toNat_toUInt64, UInt16.toNat_toUInt32,
    UInt8.toNat_toUInt32, UInt32.toNat_div, bpbFat_toNat]
  change ((reservedArea p + fatArea p % 2^64) % 2^64 + rootArea p) % 2^64 = _
  have hr : reservedArea p < 2^16 := hreserved
  have ho : rootArea p < 2^16 := Nat.lt_of_le_of_lt (Nat.div_le_self _ _) hroots
  omega

theorem bpbSpc_toNat (p : Sector) : (bpbSpc p).toNat = sectorsPerCluster p := UInt8.toNat_toUInt32 _

theorem formed_iff (p : Sector) : Formed p ↔ ¬(signature p = false ∨ (p[0]! ≠ 0xeb ∧ p[0]! ≠ 0xe9) ∨ le16 p 11 ≠ 512 ∨
    bpbReserved p = 0 ∨ bpbSpc p = 0 ∨ 128 < bpbSpc p ∨ bpbSpc p &&& (bpbSpc p - 1) ≠ 0 ∨
    (bpbFats p ≠ 1 ∧ bpbFats p ≠ 2) ∨ bpbRoots p % 16 ≠ 0) := by
  have hbytes : le16 p 11 = 512 ↔ (le16 p 11).toNat = 512 := by
    rw [← UInt16.toNat_inj]
    rfl
  have hspc : bpbSpc p = 0 ↔ sectorsPerCluster p = 0 := by
    rw [← UInt32.toNat_inj, bpbSpc_toNat]
    rfl
  have hmax : 128 < bpbSpc p ↔ 128 < sectorsPerCluster p := by
    rw [UInt32.lt_iff_toNat_lt, bpbSpc_toNat]
    rfl
  have hpower : ¬bpbSpc p = 0 → (bpbSpc p &&& (bpbSpc p - 1) = 0 ↔ sectorsPerCluster p &&& (sectorsPerCluster p - 1) = 0) := by
    intro hne
    have hpos : 1 ≤ (bpbSpc p).toNat := by
      rw [bpbSpc_toNat]
      exact Nat.one_le_iff_ne_zero.mpr fun h => hne (hspc.mpr h)
    have hpred : (bpbSpc p - 1).toNat = sectorsPerCluster p - 1 := by
      rw [UInt32.toNat_sub_of_le _ _ hpos, bpbSpc_toNat]
      rfl
    rw [← UInt32.toNat_inj, UInt32.toNat_and, bpbSpc_toNat, hpred]
    rfl
  have hfat : ∀ n : UInt32, bpbFats p = n ↔ p[16]!.toNat = n.toNat := by
    intro n
    rw [← UInt32.toNat_inj, bpbFats, UInt8.toNat_toUInt32]
  have hroots : bpbRoots p % 16 = 0 ↔ (le16 p 17).toNat % 16 = 0 := by
    rw [← UInt32.toNat_inj, UInt32.toNat_mod, bpbRoots, UInt16.toNat_toUInt32]
    rfl
  have hreserved : bpbReserved p = 0 ↔ reservedArea p = 0 := widen_eq_zero _
  have hfats : p[16]!.toNat = 1 ∨ p[16]!.toNat = 2 ↔ ¬(bpbFats p ≠ 1 ∧ bpbFats p ≠ 2) := by
    rw [Ne, Ne, hfat 1, hfat 2, not_and_or, not_not, not_not]
    rfl
  have hjump : p[0]! = 0xeb ∨ p[0]! = 0xe9 ↔ ¬(p[0]! ≠ 0xeb ∧ p[0]! ≠ 0xe9) := by
    rw [Ne, Ne, not_and_or, not_not, not_not]
  unfold Formed
  rw [hjump, hfats, not_or, not_or, not_or, not_or, not_or, not_or, not_or, not_or, Bool.not_eq_false, not_ne_iff, not_ne_iff,
    not_ne_iff, hbytes, hreserved, hspc, hmax, hroots, Nat.not_lt]
  constructor
  · rintro ⟨hs,hj,hb,hr,hc,hm,hp,hf,ho⟩
    exact ⟨hs,hj,hb,hr,hc,hm,(hpower (mt hspc.mp hc)).mpr hp,hf,ho⟩
  · rintro ⟨hs,hj,hb,hr,hc,hm,hp,hf,ho⟩
    exact ⟨hs,hj,hb,hr,hc,hm,(hpower (mt hspc.mp hc)).mp hp,hf,ho⟩

theorem bpbClusters_toNat (hp : Formed p) (hroom : dataStart p < totalSectors p) : (bpbClusters p).toNat = clusterCount p := by
  have hoverhead := bpbOverhead_toNat hp.2.2.2.2.2.2.2.1
  have htotal : (bpbTotal p).toUInt64.toNat = totalSectors p := by
    rw [UInt32.toNat_toUInt64, bpbTotal_toNat]
  have hlt : totalSectors p < 2^32 := by
    rw [← bpbTotal_toNat]
    exact (bpbTotal p).toNat_lt
  have hle : bpbOverhead p ≤ (bpbTotal p).toUInt64 := by
    rw [UInt64.le_iff_toNat_le, hoverhead, htotal]
    exact hroom.le
  have hsmall : clusterCount p < 2^32 := Nat.lt_of_le_of_lt (Nat.div_le_self _ _) (Nat.lt_of_le_of_lt (Nat.sub_le _ _) hlt)
  rw [bpbClusters, UInt64.toNat_toUInt32, UInt64.toNat_div, UInt64.toNat_sub_of_le _ _ hle, htotal, hoverhead,
    UInt32.toNat_toUInt64, bpbSpc_toNat]
  exact Nat.mod_eq_of_lt hsmall

theorem bpbBits_toNat (hclusters : (bpbClusters p).toNat = clusterCount p) : (bpbBits p).toNat = fatBits p := by
  unfold bpbBits fatBits
  simp only [UInt32.lt_iff_toNat_lt, hclusters]
  change (if clusterCount p < 4085 then (12 : UInt8) else if clusterCount p < 65525 then 16 else 32).toNat = _
  split
  · rfl
  · split <;> rfl

theorem fatBits_le (p : Sector) : fatBits p ≤ 32 := by
  unfold fatBits
  split
  · decide
  · split <;> decide

theorem bpbFatBytes_toNat (hclusters : (bpbClusters p).toNat = clusterCount p) (hle : clusterCount p ≤ 0x0ffffff3) :
    (bpbFatBytes p).toNat = ((clusterCount p + 2) * fatBits p + 7) / 8 := by
  have htwo : (bpbClusters p + 2).toNat = clusterCount p + 2 := by
    rw [UInt32.toNat_add, hclusters]
    exact Nat.mod_eq_of_lt (by change clusterCount p + 2 < _; omega)
  have hbound : (clusterCount p + 2) * fatBits p ≤ 0x0ffffff5 * 32 := Nat.mul_le_mul (by omega) (fatBits_le p)
  rw [bpbFatBytes, UInt64.toNat_div, UInt64.toNat_add, UInt64.toNat_mul, UInt32.toNat_toUInt64, UInt8.toNat_toUInt64, htwo,
    bpbBits_toNat hclusters]
  change ((clusterCount p + 2) * fatBits p % 2^64 + 7) % 2^64 / 8 = _
  rw [Nat.mod_eq_of_lt (a := (clusterCount p + 2) * fatBits p) (by omega), Nat.mod_eq_of_lt (by omega)]

theorem largeFits_iff (hclusters : (bpbClusters p).toNat = clusterCount p) (hle : clusterCount p ≤ 0x0ffffff3) :
    LargeFits p ↔ ¬(bpbRoots p ≠ 0 ∨ le16 p 22 ≠ 0 ∨ le16 p 42 ≠ 0 ∨ le32 p 44 < 2 ∨ bpbClusters p + 2 ≤ le32 p 44 ∨
      le16 p 40 &&& 0x80 ≠ 0 ∨ (le16 p 48 ≠ 0xffff ∧ (le16 p 48 = 0 ∨ bpbReserved p ≤ (le16 p 48).toUInt32)) ∨
      (le16 p 50 ≠ 0xffff ∧ le16 p 50 ≠ 0 ∧ bpbReserved p ≤ (le16 p 50).toUInt32)) := by
  have hword : ∀ a b : UInt16, a = b ↔ a.toNat = b.toNat := fun a b => UInt16.toNat_inj.symm
  have hroots : bpbRoots p = 0 ↔ (le16 p 17).toNat = 0 := widen_eq_zero _
  have htwo : (bpbClusters p + 2).toNat = clusterCount p + 2 := by
    rw [UInt32.toNat_add, hclusters]
    exact Nat.mod_eq_of_lt (by change clusterCount p + 2 < _; omega)
  have hreserved : ∀ a : UInt16, bpbReserved p ≤ a.toUInt32 ↔ ¬a.toNat < reservedArea p := by
    intro a
    rw [UInt32.le_iff_toNat_le, bpbReserved, UInt16.toNat_toUInt32, UInt16.toNat_toUInt32, Nat.not_lt]
    rfl
  have hroot : le32 p 44 < 2 ↔ ¬2 ≤ (le32 p 44).toNat := by
    rw [UInt32.lt_iff_toNat_lt, Nat.not_le]
    rfl
  have hend : bpbClusters p + 2 ≤ le32 p 44 ↔ ¬(le32 p 44).toNat < clusterCount p + 2 := by
    rw [UInt32.le_iff_toNat_le, htwo, Nat.not_lt]
  have hzero : ∀ a : UInt16, a = 0 ↔ a.toNat = 0 := fun a => hword a 0
  have hall : ∀ a : UInt16, a = 0xffff ↔ a.toNat = 0xffff := fun a => hword a 0xffff
  unfold LargeFits
  simp only [not_or, not_and_or, ne_eq, not_not, hroots, hzero (le16 p 22), hzero (le16 p 42), hzero (le16 p 48),
    hzero (le16 p 50), hall, hroot, hend, hreserved]

theorem bpb_eq_some {start limit : UInt32} {v : SdVolume} : bpb p start limit = some v ↔
    Accepted p start.toNat limit.toNat ∧ v.firstLba = start ∧ v.sectors.toNat = totalSectors p ∧
      v.fatBits.toNat = fatBits p := by
  have htotal : bpbTotal p = 0 ↔ totalSectors p = 0 := by
    rw [← UInt32.toNat_inj, bpbTotal_toNat]
    rfl
  have hfat : bpbFat p = 0 ↔ fatSectors p = 0 := by
    rw [← UInt32.toNat_inj, bpbFat_toNat]
    rfl
  have hlimit : limit ≠ 0 ∧ limit < bpbTotal p ↔ ¬(limit.toNat = 0 ∨ totalSectors p ≤ limit.toNat) := by
    rw [Ne, ← UInt32.toNat_inj, UInt32.lt_iff_toNat_lt, bpbTotal_toNat, not_or, Nat.not_le]
    rfl
  have hsum : sumFits start (bpbTotal p) = false ↔ ¬start.toNat + totalSectors p ≤ 2^32 := by
    rw [← Bool.not_eq_true, sumFits_iff, bpbTotal_toNat]
  unfold bpb
  by_cases hformed : Formed p
  swap
  · rw [if_pos (by rwa [formed_iff, not_not] at hformed)]
    exact ⟨fun h => (by cases h),fun h => absurd h.1.formed hformed⟩
  rw [if_neg ((formed_iff p).mp hformed)]
  by_cases hsize : bpbTotal p = 0 ∨ bpbFat p = 0 ∨ (limit ≠ 0 ∧ limit < bpbTotal p) ∨ sumFits start (bpbTotal p) = false
  · rw [if_pos hsize]
    rw [htotal, hfat, hlimit, hsum] at hsize
    refine ⟨fun h => (by cases h),fun h => ?_⟩
    rcases hsize with hsize | hsize | hsize | hsize
    · exact absurd hsize h.1.total
    · exact absurd hsize h.1.fat
    · exact absurd h.1.limit hsize
    · exact absurd h.1.below hsize
  rw [if_neg hsize]
  rw [htotal, hfat, hlimit, hsum, not_or, not_or, not_or, not_not, not_not] at hsize
  obtain ⟨hne,hfatne,hmax,hbelow⟩ := hsize
  have hover : (bpbTotal p).toUInt64 ≤ bpbOverhead p ↔ ¬dataStart p < totalSectors p := by
    rw [UInt64.le_iff_toNat_le, UInt32.toNat_toUInt64, bpbTotal_toNat, bpbOverhead_toNat hformed.2.2.2.2.2.2.2.1, Nat.not_lt]
  by_cases hroom : dataStart p < totalSectors p
  swap
  · rw [if_pos (hover.mpr hroom)]
    exact ⟨fun h => (by cases h),fun h => absurd h.1.room hroom⟩
  rw [if_neg (mt hover.mp (not_not_intro hroom))]
  have hclusters := bpbClusters_toNat hformed hroom
  have hcount : bpbClusters p = 0 ∨ 0x0ffffff5 - 2 < bpbClusters p ↔ ¬(clusterCount p ≠ 0 ∧ clusterCount p ≤ 0x0ffffff3) := by
    rw [← UInt32.toNat_inj, UInt32.lt_iff_toNat_lt, hclusters, not_and_or, not_ne_iff, Nat.not_le]
    rfl
  by_cases hfew : clusterCount p ≠ 0 ∧ clusterCount p ≤ 0x0ffffff3
  swap
  · rw [if_pos (hcount.mpr hfew)]
    exact ⟨fun h => (by cases h),fun h => absurd h.1.clusters hfew⟩
  rw [if_neg (mt hcount.mp (not_not_intro hfew))]
  have hbits := bpbBits_toNat hclusters
  have hkind : bpbBits p = 32 ↔ fatBits p = 32 := by
    rw [← UInt8.toNat_inj, hbits]
    rfl
  by_cases hlarge : fatBits p = 32 → LargeFits p
  swap
  · rw [Classical.not_imp] at hlarge
    rw [if_pos ⟨hkind.mpr hlarge.1,not_not.mp (mt (largeFits_iff hclusters hfew.2).mpr hlarge.2)⟩]
    exact ⟨fun h => (by cases h),fun h => absurd (h.1.large hlarge.1) hlarge.2⟩
  rw [if_neg fun h => (largeFits_iff hclusters hfew.2).mp (hlarge (hkind.mp h.1)) h.2]
  have hsmall : bpbBits p ≠ 32 ∧ (bpbRoots p = 0 ∨ le16 p 22 = 0) ↔
      ¬(fatBits p ≠ 32 → (le16 p 17).toNat ≠ 0 ∧ (le16 p 22).toNat ≠ 0) := by
    rw [Classical.not_imp, not_and_or, not_ne_iff, not_ne_iff, Ne, hkind, bpbRoots, widen_eq_zero, ← UInt16.toNat_inj]
    rfl
  by_cases hother : fatBits p ≠ 32 → (le16 p 17).toNat ≠ 0 ∧ (le16 p 22).toNat ≠ 0
  swap
  · rw [if_pos (hsmall.mpr hother)]
    exact ⟨fun h => (by cases h),fun h => absurd h.1.small hother⟩
  rw [if_neg (mt hsmall.mp (not_not_intro hother))]
  have hbytes : (bpbFat p).toUInt64 * 512 < bpbFatBytes p ↔
      ¬((clusterCount p + 2) * fatBits p + 7) / 8 ≤ fatSectors p * 512 := by
    have hlt : fatSectors p < 2^32 := by
      rw [← bpbFat_toNat]
      exact (bpbFat p).toNat_lt
    rw [UInt64.lt_iff_toNat_lt, bpbFatBytes_toNat hclusters hfew.2, UInt64.toNat_mul, UInt32.toNat_toUInt64, bpbFat_toNat,
      Nat.not_le]
    change fatSectors p * 512 % 2^64 < _ ↔ _
    rw [Nat.mod_eq_of_lt (by omega)]
  by_cases hentries : ((clusterCount p + 2) * fatBits p + 7) / 8 ≤ fatSectors p * 512
  swap
  · rw [if_pos (hbytes.mpr hentries)]
    exact ⟨fun h => (by cases h),fun h => absurd h.1.entries hentries⟩
  rw [if_neg (mt hbytes.mp (not_not_intro hentries)), Option.some.injEq]
  constructor
  · rintro rfl
    exact ⟨⟨hformed,hne,hfatne,hmax,hbelow,hroom,hfew,hlarge,hother,hentries⟩,rfl,bpbTotal_toNat p,hbits⟩
  · rintro ⟨-,hfirst,hsectors,hb⟩
    obtain ⟨first,sectors,b⟩ := v
    obtain rfl : first = start := hfirst
    obtain rfl : sectors = bpbTotal p := UInt32.toNat_inj.mp (hsectors.trans (bpbTotal_toNat p).symm)
    obtain rfl : b = bpbBits p := UInt8.toNat_inj.mp (hb.trans hbits.symm)
    rfl

end

/-! ## What was found, and what is mapped -/

/-- The values of the machine are the numbers that they stand for. -/
structure Exact (p : Sector) : Prop where
  overhead : (bpbOverhead p).toNat = dataStart p
  clusters : (bpbClusters p).toNat = clusterCount p
  last : (bpbClusters p + 2).toNat = clusterCount p + 2
  fatBytes : (bpbFatBytes p).toNat = ((clusterCount p + 2) * fatBits p + 7) / 8

/-- A volume with a boot sector whose areas fit into it. -/
structure Confined (p : Sector) (v : SdVolume) : Prop where
  nonempty : 0 < v.sectors.toNat
  below : v.firstLba.toNat + v.sectors.toNat ≤ 2^32
  fats : reservedArea p + fatArea p ≤ v.sectors.toNat
  data : dataStart p + clusterCount p * sectorsPerCluster p ≤ v.sectors.toNat
  entries : ((clusterCount p + 2) * fatBits p + 7) / 8 ≤ fatSectors p * 512
  exact : Exact p

/-- The volume lies in the partition of the entry `i`, with the boot sector that was read there. -/
def InPartition {σ : Type} (read : σ → UInt32 → (Status × Sector) × σ) (table : Sector) (v : SdVolume) (i : ℕ) : Prop :=
  ∃ t p u, read t (entryStart table i) = ((.ok,p),u) ∧ Confined p v ∧ (entryStart table i).toNat ≤ v.firstLba.toNat ∧
    v.firstLba.toNat + v.sectors.toNat ≤ (entryStart table i).toNat + (entryCount table i).toNat

/-- The volume is the whole card, or lies in a partition of its table. -/
def Probed {σ : Type} (read : σ → UInt32 → (Status × Sector) × σ) (s : σ) (v : SdVolume) : Prop :=
  ∃ table t, read s 0 = ((.ok,table),t) ∧
    ((Confined table v ∧ v.firstLba = 0) ∨ ∃ i < 4, InPartition read table v i)

/-- The sectors mapped are sectors of the volume, and the sums of the machine are exact. -/
structure Mapped (v : SdVolume) (sector : UInt32) (count : ℕ) (physical : UInt32) : Prop where
  left : (v.sectors - sector).toNat = v.sectors.toNat - sector.toNat
  sum : (v.firstLba.toUInt64 + sector.toUInt64 + UInt64.ofNat count).toNat = v.firstLba.toNat + sector.toNat + count
  exact : physical.toNat = v.firstLba.toNat + sector.toNat
  first : v.firstLba.toNat ≤ physical.toNat
  last : physical.toNat + count ≤ v.firstLba.toNat + v.sectors.toNat

section
variable {σ : Type} {read : σ → UInt32 → (Status × Sector) × σ} {s s' : σ} {v : SdVolume}

theorem bpb_confined {p : Sector} {start limit : UInt32} (h : bpb p start limit = some v) : Confined p v := by
  obtain ⟨ha,rfl,hsectors,-⟩ := bpb_eq_some.mp h
  have hclusters := bpbClusters_toNat ha.formed ha.room
  have hlast : (bpbClusters p + 2).toNat = clusterCount p + 2 := by
    have hle := ha.clusters.2
    rw [UInt32.toNat_add, hclusters]
    exact Nat.mod_eq_of_lt (by change clusterCount p + 2 < _; omega)
  have hdata : clusterCount p * sectorsPerCluster p ≤ totalSectors p - dataStart p := Nat.div_mul_le_self _ _
  have hroom := ha.room
  refine ⟨?_,?_,?_,?_,ha.entries,bpbOverhead_toNat ha.formed.2.2.2.2.2.2.2.1,hclusters,hlast,
    bpbFatBytes_toNat hclusters ha.clusters.2⟩
  · rw [hsectors]
    exact Nat.pos_of_ne_zero ha.total
  · rw [hsectors]
    exact ha.below
  · rw [hsectors]
    unfold dataStart at hroom
    omega
  · rw [hsectors]
    omega

/-- A boot sector of a partition keeps to the entry of the partition. -/
theorem bpb_within {p : Sector} {start limit : UInt32} (hlimit : limit ≠ 0) (h : bpb p start limit = some v) :
    start.toNat ≤ v.firstLba.toNat ∧ v.firstLba.toNat + v.sectors.toNat ≤ start.toNat + limit.toNat := by
  obtain ⟨ha,rfl,hsectors,-⟩ := bpb_eq_some.mp h
  have hne : limit.toNat ≠ 0 := fun h0 => hlimit (UInt32.toNat_inj.mp h0)
  have hle := ha.limit.resolve_left hne
  rw [hsectors]
  exact ⟨le_rfl,Nat.add_le_add_left hle _⟩

theorem entryCount_ne_zero {table : Sector} {i : ℕ} (h : entryUsable table i = true) : entryCount table i ≠ 0 := by
  intro h0
  simp [entryUsable, h0] at h

theorem probeEntries_ok {table : Sector} {todo : List ℕ} {t : σ} (h : probeEntries read table todo t = ((.ok,v),s')) :
    ∃ i ∈ todo, InPartition read table v i := by
  induction todo generalizing t with
  | nil => cases h
  | cons i rest ih =>
    have hlater : ∀ {t}, probeEntries read table rest t = ((.ok,v),s') → ∃ j ∈ i :: rest, InPartition read table v j := by
      intro t h
      obtain ⟨j,hj,hfound⟩ := ih h
      exact ⟨j,List.mem_cons_of_mem i hj,hfound⟩
    unfold probeEntries at h
    split at h
    · exact hlater h
    · rename_i husable
      rw [Bool.not_eq_false] at husable
      dsimp only at h
      split at h
      · rename_i hstatus
        rw [Prod.mk.injEq, Prod.mk.injEq] at h
        exact absurd h.1.1 hstatus
      · rename_i hstatus
        rw [not_ne_iff] at hstatus
        split at h
        · rename_i w hbpb
          rw [Prod.mk.injEq, Prod.mk.injEq] at h
          obtain ⟨⟨-,rfl⟩,-⟩ := h
          have hread : read t (entryStart table i) =
              ((.ok,(read t (entryStart table i)).1.2),(read t (entryStart table i)).2) := by
            rw [← hstatus]
          exact ⟨i,List.mem_cons_self,t,_,_,hread,bpb_confined hbpb,bpb_within (entryCount_ne_zero husable) hbpb⟩
        · exact hlater h

theorem volumeProbe_ok (h : volumeProbe read s = ((.ok,v),s')) : Probed read s v := by
  unfold volumeProbe at h
  dsimp only at h
  split at h
  · rename_i hstatus
    rw [Prod.mk.injEq, Prod.mk.injEq] at h
    exact absurd h.1.1 hstatus
  rename_i hstatus
  rw [not_ne_iff] at hstatus
  have hread : read s 0 = ((.ok,(read s 0).1.2),(read s 0).2) := by
    rw [← hstatus]
  split at h
  · rename_i w hbpb
    rw [Prod.mk.injEq, Prod.mk.injEq] at h
    obtain ⟨⟨-,rfl⟩,-⟩ := h
    exact ⟨_,_,hread,.inl ⟨bpb_confined hbpb,(bpb_eq_some.mp hbpb).2.1⟩⟩
  · split at h
    · rw [Prod.mk.injEq, Prod.mk.injEq] at h
      exact absurd h.1.1 (by decide)
    · obtain ⟨i,hi,hfound⟩ := probeEntries_ok h
      have hlt : i < 4 := by
        simp only [List.mem_cons, List.not_mem_nil, or_false] at hi
        omega
      exact ⟨_,_,hread,.inr ⟨i,hlt,hfound⟩⟩

theorem volumeMap_mapped {sizeMax : ℕ} {sector physical : UInt32} {count : ℕ}
    (h : volumeMap sizeMax v sector count = some physical) : Mapped v sector count physical := by
  unfold volumeMap at h
  split at h
  · cases h
  rename_i hpassed
  rw [not_or, not_or, not_or, not_or, UInt32.not_le, Nat.not_lt, UInt64.not_lt] at hpassed
  obtain ⟨hpos,-,hlt,hcount,hsum⟩ := hpassed
  have hlt' : sector.toNat < v.sectors.toNat := UInt32.lt_iff_toNat_lt.mp hlt
  have hleft : (v.sectors - sector).toNat = v.sectors.toNat - sector.toNat :=
    UInt32.toNat_sub_of_le _ _ (UInt32.le_iff_toNat_le.mpr hlt'.le)
  have hfirst := v.firstLba.toNat_lt
  have hsectors := v.sectors.toNat_lt
  have hexact : (v.firstLba.toUInt64 + sector.toUInt64 + UInt64.ofNat count).toNat =
      v.firstLba.toNat + sector.toNat + count := by
    rw [UInt64.toNat_add, UInt64.toNat_add, UInt32.toNat_toUInt64, UInt32.toNat_toUInt64, UInt64.toNat_ofNat']
    omega
  have hfits : v.firstLba.toNat + sector.toNat + count ≤ 2^32 := by
    rw [← hexact]
    exact UInt64.le_iff_toNat_le.mp hsum
  rw [Option.some.injEq] at h
  subst h
  have hphysical : (v.firstLba + sector).toNat = v.firstLba.toNat + sector.toNat := by
    rw [UInt32.toNat_add]
    omega
  refine ⟨hleft,hexact,hphysical,?_,?_⟩
  · omega
  · omega

end

/-- Whatever a card holds, a volume that is found stays within its partition, and what is mapped
stays within the volume. -/
theorem sd_volume_confined {σ : Type} (read : σ → UInt32 → (Status × Sector) × σ) {s s' : σ} {v : SdVolume}
    (h : volumeProbe read s = ((.ok,v),s')) :
    Probed read s v ∧ ∀ sizeMax sector count physical, volumeMap sizeMax v sector count = some physical →
      Mapped v sector count physical :=
  ⟨volumeProbe_ok h,fun _ _ _ _ hmap => volumeMap_mapped hmap⟩

/-- A floppy of a hundred sectors. -/
def floppySector : Sector :=
  ⟨⟨[0xeb] ++ List.replicate 10 0 ++ [0,2,1,1,0,1,16,0,100,0,0,1,0] ++ List.replicate 486 0 ++ [0x55,0xaa]⟩,
    by simp only [List.size_toArray, List.length_append, List.length_replicate, List.length_cons, List.length_nil]⟩

def readFloppy (s : Unit) (_ : UInt32) : (Status × Sector) × Unit := ((.ok,floppySector),s)

theorem sd_volume_confined_floppy : volumeProbe readFloppy () = ((.ok,⟨0,100,12⟩),()) ∧
    Probed readFloppy () ⟨0,100,12⟩ ∧ volumeMap 4294967295 ⟨0,100,12⟩ 90 10 = some 90 ∧ Mapped ⟨0,100,12⟩ 90 10 90 := by
  have hprobe : volumeProbe readFloppy () = ((.ok,⟨0,100,12⟩),()) := by decide +kernel
  have hmap : volumeMap 4294967295 ⟨0,100,12⟩ 90 10 = some 90 := by decide
  obtain ⟨hprobed,hmapped⟩ := sd_volume_confined readFloppy hprobe
  exact ⟨hprobe,hprobed,hmap,hmapped _ _ _ _ hmap⟩

end Bvstk.Sd
