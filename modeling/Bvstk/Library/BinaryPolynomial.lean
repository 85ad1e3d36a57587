import Mathlib.Algebra.CharP.Two
import Mathlib.Algebra.Field.ZMod
import Mathlib.Algebra.Polynomial.Div
import Mathlib.Data.Nat.Bitwise
import Mathlib.RingTheory.AdjoinRoot

/-! # Binary polynomials and checksums

Words and messages as polynomials over the field of two elements. Shifting a register, with the
generator's bits subtracted where a bit falls out, multiplies by X modulo the generator; so a register
that begins at zero ends at a remainder.
-/
namespace BinaryPolynomial
open Polynomial

/-! ## Words -/

/-- The polynomial of the lowest bits of a number. -/
noncomputable def wordPoly (width n : ℕ) : (ZMod 2)[X] :=
  ∑ i ∈ Finset.range width, if n.testBit i = true then X ^ i else 0

variable {width n m : ℕ}

theorem coeff_wordPoly (width n k : ℕ) :
    (wordPoly width n).coeff k = if k < width ∧ n.testBit k = true then 1 else 0 := by
  have hterm : ∀ i, (if n.testBit i = true then (X : (ZMod 2)[X]) ^ i else 0).coeff k =
      if i = k then (if n.testBit k = true then 1 else 0) else 0 := by
    intro i
    by_cases hi : i = k
    · subst hi
      rw [if_pos (Eq.refl _)]
      split
      · rw [coeff_X_pow_self]
      · rw [coeff_zero]
    · rw [if_neg hi]
      split
      · rw [coeff_X_pow,if_neg (Ne.symm hi)]
      · rw [coeff_zero]
  rw [wordPoly,finsetSum_coeff]
  simp only [hterm,Finset.sum_ite_eq',Finset.mem_range]
  split_ifs <;> tauto

theorem wordPoly_ext {p : (ZMod 2)[X]} (h : ∀ k, p.coeff k = if k < width ∧ n.testBit k = true then 1 else 0) :
    wordPoly width n = p := by
  ext k
  rw [coeff_wordPoly,h]

theorem degree_wordPoly (width n : ℕ) : (wordPoly width n).degree < width := by
  rw [degree_lt_iff_coeff_zero]
  intro k hk
  rw [coeff_wordPoly,if_neg fun h => absurd h.1 (Nat.not_lt.2 hk)]

@[simp] theorem wordPoly_zero (width : ℕ) : wordPoly width 0 = 0 := by
  apply wordPoly_ext
  simp

theorem wordPoly_mod (width n : ℕ) : wordPoly width (n % 2 ^ width) = wordPoly width n := by
  apply wordPoly_ext
  intro k
  rw [coeff_wordPoly,Nat.testBit_mod_two_pow]
  by_cases hk : k < width <;> simp [hk]

theorem wordPoly_xor (width n m : ℕ) : wordPoly width (n ^^^ m) = wordPoly width n + wordPoly width m := by
  have htwo : (1 : ZMod 2) + 1 = 0 := CharTwo.add_self_eq_zero 1
  apply wordPoly_ext
  intro k
  rw [coeff_add,coeff_wordPoly,coeff_wordPoly,Nat.testBit_xor]
  by_cases hk : k < width <;> cases n.testBit k <;> cases m.testBit k <;> simp [hk,htwo]

/-- One more bit. -/
theorem wordPoly_succ (width n : ℕ) :
    wordPoly (width + 1) n = wordPoly width n + if n.testBit width = true then X ^ width else 0 :=
  Finset.sum_range_succ _ width

theorem wordPoly_double (width n : ℕ) : wordPoly (width + 1) (2 * n) = X * wordPoly width n := by
  rw [wordPoly,Finset.sum_range_succ',wordPoly,Finset.mul_sum]
  have hlow : (2 * n).testBit 0 = false := by simp
  rw [hlow,if_neg Bool.false_ne_true,add_zero]
  apply Finset.sum_congr (Eq.refl _)
  intro i _
  rw [Nat.testBit_succ,Nat.mul_div_cancel_left n (by decide)]
  split
  · rw [pow_succ']
  · rw [mul_zero]

theorem wordPoly_shift (width n k : ℕ) : wordPoly (width + k) (2 ^ k * n) = X ^ k * wordPoly width n := by
  induction k with
  | zero => simp
  | succ k ih =>
    rw [← Nat.add_assoc,pow_succ',mul_assoc,wordPoly_double,ih,pow_succ',mul_assoc]

/-- The bits above `k` and those below. -/
theorem wordPoly_split (width k n : ℕ) : wordPoly (width + k) n = X ^ k * wordPoly width (n / 2 ^ k) + wordPoly k n := by
  apply wordPoly_ext
  intro i
  rw [coeff_add,coeff_X_pow_mul',coeff_wordPoly,coeff_wordPoly,Nat.testBit_div_two_pow]
  by_cases hi : k ≤ i
  · have hsum : i - k + k = i := Nat.sub_add_cancel hi
    have hlow : ¬(i < k ∧ n.testBit i = true) := fun h => absurd h.1 (Nat.not_lt.2 hi)
    have hrange : i - k < width ↔ i < width + k := by omega
    rw [if_pos hi,if_neg hlow,hsum,add_zero]
    simp only [hrange]
  · have hrange : i < width + k ↔ i < k := by omega
    rw [if_neg hi,zero_add]
    simp only [hrange]

theorem wordPoly_injective (h : wordPoly width n = wordPoly width m) : n % 2 ^ width = m % 2 ^ width := by
  apply Nat.eq_of_testBit_eq
  intro k
  rw [Nat.testBit_mod_two_pow,Nat.testBit_mod_two_pow]
  by_cases hk : k < width
  · have hcoeff := congrArg (fun p => p.coeff k) h
    simp only [coeff_wordPoly,hk,true_and] at hcoeff
    cases hn : n.testBit k <;> cases hm : m.testBit k <;> simp [hn,hm] at hcoeff ⊢
  · simp [hk]

theorem wordPoly_bit {k : ℕ} (hk : k < width) : wordPoly width (2 ^ k) = X ^ k := by
  apply wordPoly_ext
  intro i
  rw [coeff_X_pow,Nat.testBit_two_pow]
  by_cases hi : i = k
  · subst hi
    simp [hk]
  · have hne : k ≠ i := Ne.symm hi
    simp [hi,hne]

/-! ## Generators -/

/-- A generator: its leading power, and the word of the others. -/
noncomputable def generator (width tail : ℕ) : (ZMod 2)[X] := X ^ width + wordPoly width tail

theorem generator_monic (width tail : ℕ) : (generator width tail).Monic :=
  monic_X_pow_add (degree_wordPoly width tail)

theorem degree_generator (width tail : ℕ) : (generator width tail).degree = width := by
  rw [generator,degree_add_eq_left_of_degree_lt]
  · exact degree_X_pow width
  · rw [degree_X_pow]
    exact degree_wordPoly width tail

/-- Two polynomials with the same remainder. -/
def Congruent (g p q : (ZMod 2)[X]) : Prop := AdjoinRoot.mk g p = AdjoinRoot.mk g q

section Remainders
variable {g p q r : (ZMod 2)[X]}

theorem Congruent.mul (h : Congruent g p q) (r : (ZMod 2)[X]) : Congruent g (r * p) (r * q) := by
  rw [Congruent,map_mul,map_mul,h]

theorem Congruent.add (h : Congruent g p q) (r : (ZMod 2)[X]) : Congruent g (p + r) (q + r) := by
  rw [Congruent,map_add,map_add,h]

/-- The generator can be added. -/
theorem congruent_add_self (g p : (ZMod 2)[X]) : Congruent g (p + g) p := by
  rw [Congruent,map_add,AdjoinRoot.mk_self,add_zero]

theorem congruent_add_mul (g p k : (ZMod 2)[X]) : Congruent g (p + k * g) p := by
  rw [Congruent,map_add,map_mul,AdjoinRoot.mk_self,mul_zero,add_zero]

theorem congruent_remainder (hg : g.Monic) (hr : r.degree < g.degree) (h : Congruent g r p) : r = p %ₘ g := by
  obtain ⟨k,hk⟩ := AdjoinRoot.mk_eq_mk.1 h.symm
  have hsum : r + g * k = p := by
    rw [← hk]
    ring
  exact (div_modByMonic_unique k r hg ⟨hsum,hr⟩).2.symm

theorem remainder_congruent (g p : (ZMod 2)[X]) : Congruent g (p %ₘ g) p := by
  have hdiv := modByMonic_add_div p g
  rw [Congruent]
  conv_rhs => rw [← hdiv]
  rw [map_add,map_mul,AdjoinRoot.mk_self,zero_mul,add_zero]

/-- A message and its remainder leave none. -/
theorem sealed_remainder (hg : g.Monic) (p : (ZMod 2)[X]) : (p + p %ₘ g) %ₘ g = 0 := by
  rw [modByMonic_eq_zero_iff_dvd hg,← AdjoinRoot.mk_eq_zero,map_add,remainder_congruent g p,← map_add,
    CharTwo.add_self_eq_zero,map_zero]

end Remainders

/-- What one step of a register does: it moves up by a bit, and what falls out at the top takes the
generator with it. -/
theorem step_congruent (width tail n : ℕ) :
    Congruent (generator (width + 1) tail)
      (wordPoly (width + 1) (2 * n) + if n.testBit width = true then wordPoly (width + 1) tail else 0)
      (X * wordPoly (width + 1) n) := by
  have hdouble := wordPoly_double (width + 1) n
  have hbit : (2 * n).testBit (width + 1) = n.testBit width := by
    rw [Nat.testBit_succ,Nat.mul_div_cancel_left n (by decide)]
  rw [wordPoly_succ,hbit] at hdouble
  rw [← hdouble]
  split
  · have hswap : wordPoly (width + 1) (2 * n) + X ^ (width + 1) + generator (width + 1) tail =
        wordPoly (width + 1) (2 * n) + wordPoly (width + 1) tail := by
      rw [generator,add_assoc,← add_assoc (X ^ (width + 1)),CharTwo.add_self_eq_zero,zero_add]
    rw [← hswap]
    exact congruent_add_self _ _
  · exact Eq.refl _

section Prime
variable {tail : ℕ} (htail : tail.testBit 0 = true)
include htail

/-- X is prime to a generator with a constant term. -/
theorem generator_coprime (width : ℕ) : IsCoprime (generator (width + 1) tail) X := by
  have hzero : (generator (width + 1) tail).coeff 0 = 1 := by
    rw [generator,coeff_add,coeff_X_pow,coeff_wordPoly,if_neg (Nat.succ_ne_zero width).symm,
      if_pos ⟨Nat.succ_pos width,htail⟩,zero_add]
  obtain ⟨q,hq⟩ := X_dvd_sub_C (p := generator (width + 1) tail)
  refine ⟨1,-q,?_⟩
  rw [hzero,map_one] at hq
  linear_combination hq

theorem congruent_cancel {width : ℕ} {p q : (ZMod 2)[X]} (h : Congruent (generator (width + 1) tail) (X * p) (X * q)) :
    Congruent (generator (width + 1) tail) p q := by
  apply AdjoinRoot.mk_eq_mk.2
  have hdvd := AdjoinRoot.mk_eq_mk.1 h
  rw [← mul_sub] at hdvd
  exact (generator_coprime htail width).dvd_of_dvd_mul_left hdvd

theorem not_dvd_X_pow (width k : ℕ) : ¬generator (width + 1) tail ∣ X ^ k := by
  intro hdvd
  have hunit := ((generator_coprime htail width).pow_right (n := k)).isUnit_of_dvd' (dvd_refl _) hdvd
  have hdegree := degree_eq_zero_of_isUnit hunit
  rw [degree_generator] at hdegree
  exact absurd hdegree (by exact_mod_cast Nat.succ_ne_zero width)

end Prime

/-! ## Messages -/

/-- Bytes as a polynomial, the first bit of the first byte at the top. -/
noncomputable def messagePoly (data : List UInt8) : (ZMod 2)[X] :=
  data.foldl (fun p b => p * X ^ 8 + wordPoly 8 b.toNat) 0

theorem messagePoly_concat (data : List UInt8) (b : UInt8) :
    messagePoly (data ++ [b]) = messagePoly data * X ^ 8 + wordPoly 8 b.toNat := List.foldl_concat _ _ _ _

theorem messagePoly_append (front back : List UInt8) :
    messagePoly (front ++ back) = messagePoly front * X ^ (8 * back.length) + messagePoly back := by
  induction back using List.reverseRecOn with
  | nil => simp [messagePoly]
  | append_singleton back b ih =>
    rw [← List.append_assoc,messagePoly_concat,ih,messagePoly_concat,List.length_append,List.length_singleton,
      Nat.mul_add,pow_add]
    ring

/-- One bit of one byte is changed. -/
def BitChange (data data' : List UInt8) : Prop :=
  ∃ front b back k, k < 8 ∧ data = front ++ b :: back ∧ data' = front ++ UInt8.ofNat (b.toNat ^^^ 2 ^ k) :: back

/-- A change of one bit adds a power of X. -/
theorem messagePoly_bitChange {data data' : List UInt8} (h : BitChange data data') :
    ∃ k, messagePoly data' = messagePoly data + X ^ k := by
  obtain ⟨front,b,back,k,hk,rfl,rfl⟩ := h
  refine ⟨k + 8 * back.length,?_⟩
  have hpow : 2 ^ k < 2 ^ 8 := Nat.pow_lt_pow_right (by decide) hk
  have hbyte : (UInt8.ofNat (b.toNat ^^^ 2 ^ k)).toNat = b.toNat ^^^ 2 ^ k :=
    UInt8.toNat_ofNat_of_lt' (Nat.xor_lt_two_pow b.toNat_lt hpow)
  have hcons : ∀ c : UInt8, messagePoly (front ++ c :: back) =
      (messagePoly front * X ^ 8 + wordPoly 8 c.toNat) * X ^ (8 * back.length) + messagePoly back := by
    intro c
    have hsplit : front ++ c :: back = (front ++ [c]) ++ back := by simp
    rw [hsplit,messagePoly_append,messagePoly_concat]
  rw [hcons,hcons,hbyte,wordPoly_xor,wordPoly_bit hk,pow_add]
  ring

section Changes
variable {tail : ℕ} (htail : tail.testBit 0 = true)
include htail

/-- A change of one bit changes the remainder. -/
theorem changed_remainder (width k : ℕ) (p : (ZMod 2)[X]) :
    (p + X ^ k) %ₘ generator (width + 1) tail ≠ p %ₘ generator (width + 1) tail := by
  intro heq
  have hmk := (remainder_congruent (generator (width + 1) tail) (p + X ^ k)).symm.trans
    ((congrArg _ heq).trans (remainder_congruent (generator (width + 1) tail) p))
  rw [map_add,add_eq_left,AdjoinRoot.mk_eq_zero] at hmk
  exact not_dvd_X_pow htail width k hmk

theorem bitChange_remainder (width k : ℕ) {data data' : List UInt8} (h : BitChange data data') :
    (messagePoly data' * X ^ k) %ₘ generator (width + 1) tail ≠ (messagePoly data * X ^ k) %ₘ generator (width + 1) tail := by
  obtain ⟨m,hm⟩ := messagePoly_bitChange h
  rw [hm,add_mul,← pow_add]
  exact changed_remainder htail width (m + k) _

end Changes

end BinaryPolynomial
